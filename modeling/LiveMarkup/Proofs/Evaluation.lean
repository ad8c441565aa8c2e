import LiveMarkup.Interpreter
import LiveMarkup.Proofs.Writes

/-!
# Evaluation is made of changes

A computation on a frame is built from a few steps by sequencing, catching and holding.  The trace
of what is built follows from the traces of the parts.  What a ledger says of every write, and of
what is done to the store without a write, it says of what is built: of every expression, however it
ends.

One ledger is about the store.  The changes that a computation makes to it come with the writes of
its trace; all else that it does to the store comes without a write.

## Main definitions

* `Ledger` — what may hold between the writes of a computation and the frames around it.
* `Evaluation.Recorded` — a computation of which a ledger holds with the writes of a trace.
* `Evaluation.Traced` — a computation that changes the store only by the writes of a trace and
  without a write.
* `Interpreter.writes` — the writes of a run of a text.

## Main results

* `recorded_evalExpr` — every ledger holds of every expression.
* `traced_evalBody` — the body of a function changes the store only by its writes.
* `makes_call` — calling a compiled function changes the store by its writes.
* `evaluates_call` — it changes the store as texts do.
* `Interpreter.makes_runIn` — running a text changes the store by its writes.
-/

namespace LiveMarkup

open Eval

/-- What is done without a write may be done beside any. -/
theorem Store.Handles.makes {s t : Store} (h : s.Handles t) (ws : List Write) :
    Store.Leads (making ws) s t := by
  refine h.mono fun s x hx => ?_
  cases x
  case write | setProperties => exact hx.elim
  all_goals exact hx

/-- Texts make the changes that come with writes. -/
theorem Store.evaluates_of_makes {s t : Store} {ws : List Write}
    (h : Store.Leads (making ws) s t) : s.Evaluates t := by
  refine h.mono fun s x hx => ?_
  cases x
  case write | setProperties => trivial
  all_goals exact Change.IsHandling.isEvaluation hx

namespace Eval

open Syntax

variable {α β : Type}

/-! ### Members -/

theorem makes_setCell {s : Store} {w : Write} (hstore : w.frame.store = s) (c : CellRef) :
    Store.Leads (making [w]) s (s.setCell c (s.unwrap w.value)).1 := by
  unfold Store.setCell
  split
  · have hwrite : making [w] s (.write c (s.unwrap w.value)) :=
      ⟨w, List.mem_singleton_self w, hstore, rfl⟩
    exact .single hwrite
  · exact .refl s

theorem makes_setProperty {s t : Store} {target : Value} {key : String} (w : Write)
    (hstore : w.frame.store = s) (hreplaces : ∀ r, target = .object r → w.Replaces r key)
    (h : s.setProperty target key w.value = .ok t) : Store.Leads (making [w]) s t := by
  rcases Store.setProperty_cases h with ⟨r, htarget, rfl⟩ | hhandles
  · have hwrite : making [w] s (.setProperties r ((s.properties r).insert key w.value)) :=
      ⟨w, List.mem_singleton_self w, hstore, key, hreplaces r htarget, rfl⟩
    exact .single hwrite
  · exact hhandles.makes _

theorem makes_tryWrite {s : Store} {ws : List Write} {key : String} {on : Value}
    {write : Except PropertyError Store}
    (h : ∀ t, write = .ok t → Store.Leads (making ws) s t) :
    Store.Leads (making ws) s (tryWrite s key on write).1 := by
  unfold tryWrite
  split
  · next t => exact h t rfl
  · exact .refl s

/-- Writing a member is the write to the place that the member is. -/
theorem makes_setMember (frame : Frame) (target : Value) (key : String) (v : Value) :
    Store.Leads (making [⟨frame, .property target key, v⟩]) frame.store
      (setMember frame.store target key v).1 := by
  unfold setMember
  split
  · exact .refl _
  · split
    · next c _ =>
      split
      · exact makes_setCell rfl c
      · next hkey =>
        split
        · exact .refl _
        · -- past the cell, whatever the property of the held object has in it
          refine makes_tryWrite fun t h => ?_
          obtain ⟨u, hwrite, rfl⟩ := Store.setCellProperty_cases h
          refine (makes_setProperty ⟨frame, _, v⟩ rfl (fun r hheld => ?_) hwrite).trans
            ((u.handles_trigger c).makes _)
          exact ⟨rfl, hkey, hheld⟩
    · next r _ =>
      split
      · next c _ => exact makes_setCell rfl c
      · next hplain =>
        refine makes_tryWrite fun t => makes_setProperty ⟨frame, _, v⟩ rfl fun o htarget => ?_
        cases htarget
        exact ⟨rfl, rfl, hplain⟩
    · next hcell hobject =>
      exact makes_tryWrite fun t => makes_setProperty ⟨frame, _, v⟩ rfl fun r htarget =>
        absurd htarget (hobject r)

theorem handles_callBuiltinMember (s : Store) (receiver : Value) (name : String)
    (args : List Value) (optional : Bool) :
    s.Handles (callBuiltinMember s receiver name args optional).1 := by
  simp only [callBuiltinMember]
  split
  · next t v h => exact (Store.handles_callBuiltin h).trans (t.handles_afterMethod _ _ _)
  · next t e h => exact Store.handles_callBuiltin h
  · split <;> exact .refl s

theorem handles_callMember (s : Store) (receiver : Value) (name : String) (args : List Value)
    (optional : Bool) : s.Handles (callMember s receiver name args optional).1 := by
  simp only [callMember]
  split
  · exact .refl s
  · split
    · exact handles_callBuiltinMember s receiver name args optional
    · split
      · next f _ =>
        have hcall := s.handles_callFunction f args
        unfold callMemberFunction
        split <;> simp_all
      · split <;> exact .refl s

/-! ### Slots -/

theorem slot_setSlot (f : Frame) (i j : Nat) (v : Value) :
    (f.setSlot i v).slot j = if i = j ∧ i < f.slots.size then v else f.slot j := by
  simp only [Frame.slot, Frame.setSlot, Array.getD_eq_getD_getElem?, Array.getElem?_setIfInBounds]
  by_cases hij : i = j
  · subst hij
    by_cases hlt : i < f.slots.size <;> simp [hlt]
  · simp [hij]

/-! ### Computations -/

theorem run_bind (k : Evaluation α) (f : α → Evaluation β) (held : List Entity) (frame : Frame) :
    ((k >>= f) held).run.run frame =
      match (k held).run.run frame with
      | (.ok x, frame) => (f x held).run.run frame
      | (.error i, frame) => (.error i, frame) := by
  simp only [bind, ReaderT.bind, ExceptT.bind, ExceptT.run, ExceptT.mk, StateT.bind, StateT.run]
  rcases k held frame with ⟨_ | _, _⟩ <;> rfl

theorem run_tryCatch (k : Evaluation α) (f : Interrupt → Evaluation α) (held : List Entity)
    (frame : Frame) :
    ((tryCatch k f) held).run.run frame =
      match (k held).run.run frame with
      | (.ok x, frame) => (.ok x, frame)
      | (.error i, frame) => (f i held).run.run frame := by
  simp only [tryCatch, tryCatchThe, MonadExceptOf.tryCatch, ExceptT.tryCatch, ExceptT.run,
    ExceptT.mk, bind, StateT.bind, StateT.run]
  rcases k held frame with ⟨_ | _, _⟩ <;> rfl

/-- What is kept is let go only if there is no result. -/
theorem run_keeping (es : List Entity) (k : Evaluation α) (held : List Entity) (frame : Frame) :
    ((keeping es k) held).run.run frame =
      match (k (es ++ held)).run.run frame with
      | (.ok x, frame) => (.ok x, frame)
      | (.error i, frame) => (.error i, frame.letGo (Referring.entities i ++ held) es) :=
  rfl

/-- What a change has left without a reference is let go, unless the change fails. -/
theorem run_replacing (change : Evaluation Unit) (held : List Entity) (frame : Frame) :
    ((replacing change) held).run.run frame =
      match (change held).run.run frame with
      | (.ok x, after) => (.ok x, after.letGo held (frame.lost after))
      | (.error i, after) => (.error i, after) := by
  unfold replacing
  rw [run_bind]
  show ((change >>= fun _ => _) held).run.run frame = _
  rw [run_bind]
  rcases (change held).run.run frame with ⟨i | x, after⟩ <;> rfl

/-! ### Ledgers -/

/-- What may hold between the frame in which a computation begins, the writes that it makes and the
frame in which it ends. -/
structure Ledger where
  /-- The ledger holds of these writes between the two frames. -/
  holds : List Write → Frame → Frame → Prop
  refl (f : Frame) : holds [] f f
  append {ws ws' : List Write} {f g h : Frame} :
    holds ws f g → holds ws' g h → holds (ws ++ ws') f h
  /-- What is done to the store without a write. -/
  handles (f : Frame) {s : Store} : f.store.Handles s → holds [] f { f with store := s }
  write (place : Place) (v : Value) (held : List Entity) (f : Frame) :
    holds [⟨f, place, v⟩] f ((writePlace place v held).run.run f).2

variable {L : Ledger}

/-- What is done without a write leaves the writes before it as they are. -/
theorem Ledger.before {ws : List Write} {f g h : Frame} (hws : L.holds ws f g)
    (hnone : L.holds [] g h) : L.holds ws f h := by
  have happend := L.append hws hnone
  rwa [List.append_nil] at happend

/-- The ledger holds of a computation with the writes of a trace. -/
def Evaluation.Recorded (L : Ledger) (k : Evaluation α) (t : Trace) : Prop :=
  ∀ (held : List Entity) (frame : Frame),
    L.holds (t held frame) frame ((k held).run.run frame).2

/-- The ledger holds of a computation without writes. -/
abbrev Evaluation.Silent (L : Ledger) (k : Evaluation α) : Prop := Evaluation.Recorded L k .silent

namespace Evaluation

theorem silent_pure (x : α) : Silent L (pure x) := fun _ frame => L.refl frame

theorem silent_throw (i : Interrupt) : Silent L (throw i : Evaluation α) :=
  fun _ frame => L.refl frame

theorem silent_fail (e : EvalError) : Silent L (fail e : Evaluation α) := silent_throw _

/-- What would come after an early end is not done. -/
theorem silent_throw_bind (i : Interrupt) (f : α → Evaluation β) : Silent L (throw i >>= f) :=
  fun _ frame => L.refl frame

theorem Recorded.bind {k : Evaluation α} {f : α → Evaluation β} {t : Trace} {next : α → Trace}
    (hk : Recorded L k t) (hf : ∀ x, Recorded L (f x) (next x)) :
    Recorded L (k >>= f) (t.andThen k next) := by
  intro held frame
  have hfirst := hk held frame
  rw [run_bind]
  unfold Trace.andThen
  revert hfirst
  rcases (k held).run.run frame with ⟨i | x, frame'⟩ <;> intro hfirst
  · simpa using hfirst
  · exact L.append hfirst (hf x held frame')

theorem Silent.after {k : Evaluation α} {f : α → Evaluation β} {next : α → Trace}
    (hk : Silent L k) (hf : ∀ x, Recorded L (f x) (next x)) :
    Recorded L (k >>= f) (.after k next) :=
  Recorded.bind hk hf

/-- What comes after the last write leaves the trace as it is. -/
theorem Recorded.before {k : Evaluation α} {f : α → Evaluation β} {t : Trace}
    (hk : Recorded L k t) (hf : ∀ x, Silent L (f x)) : Recorded L (k >>= f) t := by
  intro held frame
  have hfirst := hk held frame
  rw [run_bind]
  revert hfirst
  rcases (k held).run.run frame with ⟨i | x, frame'⟩ <;> intro hfirst
  · exact hfirst
  · exact Ledger.before hfirst (hf x held frame')

theorem Recorded.tryCatch {k : Evaluation α} {f : Interrupt → Evaluation α} {t : Trace}
    (hk : Recorded L k t) (hf : ∀ i, Silent L (f i)) : Recorded L (tryCatch k f) t := by
  intro held frame
  have hfirst := hk held frame
  rw [run_tryCatch]
  revert hfirst
  rcases (k held).run.run frame with ⟨i | x, frame'⟩ <;> intro hfirst
  · exact Ledger.before hfirst (hf i held frame')
  · exact hfirst

theorem silent_get : Silent L (get : Evaluation Frame) := fun _ frame => L.refl frame

theorem silent_ask (f : Store → α) : Silent L (ask f) := fun _ frame => L.refl frame

theorem silent_act {f : Store → Store × α} (h : ∀ s : Store, s.Handles (f s).1) :
    Silent L (act f) :=
  fun _ frame => L.handles frame (h frame.store)

theorem silent_ofExcept (result : Except EvalError α) : Silent L (ofExcept result) := by
  cases result with
  | ok x => exact silent_pure x
  | error e => exact silent_fail e

theorem silent_attempt {f : Store → Outcome α} (h : ∀ s : Store, s.Handles (f s).1) :
    Silent L (attempt f) :=
  (silent_act h).before silent_ofExcept

/-! ### Held values -/

theorem handles_frame_letGo (frame : Frame) (kept lost : List Entity) :
    frame.store.Handles (frame.letGo kept lost).store := by
  unfold Frame.letGo
  split
  · exact .refl frame.store
  · exact frame.store.handles_letGo _ _

/-- Letting go changes nothing but the store. -/
theorem Ledger.letGo (L : Ledger) (frame : Frame) (kept lost : List Entity) :
    L.holds [] frame (frame.letGo kept lost) := by
  have hstore : frame.letGo kept lost =
      { frame with store := (frame.letGo kept lost).store } := by
    unfold Frame.letGo
    split <;> rfl
  rw [hstore]
  exact L.handles frame (handles_frame_letGo frame kept lost)

theorem silent_letGo (lost : List Entity) : Silent L (letGo lost) :=
  fun held frame => Ledger.letGo L frame held lost

theorem Recorded.holding [Referring α] {k : Evaluation α} {t : Trace} (es : List Entity)
    (hk : Recorded L k t) : Recorded L (holding es k) (t.within es) :=
  fun held frame => Ledger.before (hk (es ++ held) frame) (Ledger.letGo L _ _ _)

theorem Recorded.keeping {k : Evaluation α} {t : Trace} (es : List Entity)
    (hk : Recorded L k t) : Recorded L (keeping es k) (t.within es) := by
  intro held frame
  have hfirst := hk (es ++ held) frame
  rw [run_keeping]
  revert hfirst
  rcases (k (es ++ held)).run.run frame with ⟨i | x, frame'⟩ <;> intro hfirst
  · exact Ledger.before hfirst (Ledger.letGo L frame' _ es)
  · exact hfirst

theorem silent_askOf [Referring α] (v : Value) (f : Store → Value → α) : Silent L (askOf v f) :=
  (silent_ask _).holding _

/-! ### Steps -/

theorem silent_readSlot (i : Nat) : Silent L (readSlot i) :=
  silent_get.before fun _ => silent_pure _

theorem silent_checkLink (optional : Bool) (target : Value) :
    Silent L (checkLink optional target) := by
  unfold checkLink
  refine (silent_ask _).before fun nullish => ?_
  split
  · exact silent_throw _
  · exact silent_pure _

theorem silent_memberOf (target : Value) (key : String) : Silent L (memberOf target key) :=
  (silent_ask _).before silent_ofExcept

theorem silent_callMemberOf (receiver : Value) (name : String) (args : List Value)
    (optional : Bool) : Silent L (callMemberOf receiver name args optional) := by
  refine (silent_attempt fun s => handles_callMember s _ _ _ _).before fun result => ?_
  cases result with
  | none => exact silent_throw _
  | some v => exact silent_pure v

theorem silent_callValue (callee : Expr) (f : Value) (args : List Value) :
    Silent L (callValue callee f args) := by
  unfold callValue
  split
  · exact silent_attempt fun s => s.handles_callFunction _ _
  · exact silent_fail _

theorem silent_readPlace (place : Place) : Silent L (readPlace place) := by
  cases place with
  | slot i => exact silent_readSlot i
  | unbound name => exact silent_fail _
  | property object key => exact silent_memberOf object key

theorem recorded_writePlace (place : Place) (v : Value) :
    Recorded L (writePlace place v) (.write place v) :=
  fun held frame => L.write place v held frame

end Evaluation

open Evaluation

/-! ### Expressions -/

mutual

/-- Every ledger holds of an expression with its writes. -/
theorem recorded_evalExpr (e : Expr) : Recorded L (evalExpr e) e.writes := by
  cases e with
  | literal l => exact silent_pure _
  | array items =>
    rw [evalExpr, Expr.writes]
    exact (recorded_evalList [] items).before fun items =>
      silent_act fun s => s.handles_newArray items
  | object properties =>
    rw [evalExpr, Expr.writes]
    exact (recorded_evalProperties .empty properties).before fun properties =>
      silent_act fun s => s.handles_newObject properties
  | param slot name => exact silent_readSlot slot
  | declared slot name => exact silent_readSlot slot
  | global g => exact silent_pure _
  | unbound name => exact silent_fail _
  | member object property optional =>
    rw [evalExpr, Expr.writes]
    exact (recorded_evalExpr object).before fun target =>
      ((silent_checkLink optional target).before fun _ => silent_memberOf target property).holding _
  | index object key optional =>
    rw [evalExpr, Expr.writes]
    exact (recorded_evalExpr object).bind fun target =>
      ((silent_checkLink optional target).after fun _ => (recorded_evalExpr key).before fun key =>
        (silent_askOf key _).before fun key => silent_memberOf target key).holding _
  | call callee args optional =>
    rw [evalExpr, Expr.writes]
    -- a member call evaluates its receiver first, any other call its callee
    cases hreceiver : evalReceiver callee with
    | some receiver =>
      exact (recorded_evalReceiver callee receiver hreceiver).bind fun receiver =>
        ((recorded_evalList [] args).before fun args =>
          (silent_callMemberOf receiver.1 receiver.2 args optional).holding _).holding _
    | none =>
      refine (recorded_evalExpr callee).bind fun f => (silent_askOf f _).after fun f =>
        Recorded.holding _ ?_
      have hcall : Recorded L (do
          let args ← evalList [] args
          holding (references args) (callValue callee f args)) (listWrites [] args) :=
        (recorded_evalList [] args).before fun args => (silent_callValue callee f args).holding _
      split
      · exact silent_throw_bind _ _
      · exact hcall
  | optionalChain chain =>
    rw [evalExpr, Expr.writes]
    refine (recorded_evalExpr chain).tryCatch fun i => ?_
    cases i
    case shortCircuit => exact silent_pure _
    all_goals exact silent_throw _
  | unary op operand =>
    rw [evalExpr, Expr.writes]
    split
    · exact silent_pure _
    · exact (recorded_evalExpr operand).before fun v => silent_askOf v _
  | binary op left right =>
    rw [evalExpr, Expr.writes]
    exact (recorded_evalExpr left).bind fun left =>
      ((recorded_evalExpr right).before fun right => silent_askOf right _).holding _
  | logical op left right =>
    rw [evalExpr, Expr.writes]
    refine (recorded_evalExpr left).bind fun left => (silent_ask _).after fun stops => ?_
    split
    · exact silent_pure left
    · exact (recorded_evalExpr right).holding _
  | conditional test consequent alternate =>
    rw [evalExpr, Expr.writes]
    refine (recorded_evalExpr test).bind fun test => (silent_askOf test _).after fun holds => ?_
    split
    · exact recorded_evalExpr consequent
    · exact recorded_evalExpr alternate
  | assign op target value =>
    rw [evalExpr, Expr.writes]
    -- whichever operand is computed, it is written and then given
    refine (recorded_evalPlace target).bind fun place => Recorded.bind ?_ fun v =>
      (((recorded_writePlace place v).holding _).keeping _).before fun _ => silent_pure v
    cases op with
    | assign => exact (recorded_evalExpr value).keeping _
    | compound op =>
      exact Recorded.keeping _ ((silent_readPlace place).after fun current =>
        ((recorded_evalExpr value).before fun operand => silent_askOf operand _).holding _)
  | update op result target =>
    rw [evalExpr, Expr.writes]
    refine (recorded_evalPlace target).bind fun place => Silent.after ?_ fun old =>
      ((recorded_writePlace place _).holding _).before fun _ => silent_pure _
    exact ((silent_readPlace place).before fun current => silent_askOf current _).keeping _

theorem recorded_evalList (done : List Value) (es : List Expr) :
    Recorded L (evalList done es) (listWrites done es) := by
  cases es with
  | nil => exact silent_pure done
  | cons e rest =>
    rw [evalList, listWrites]
    exact ((recorded_evalExpr e).keeping _).bind fun v => recorded_evalList (done ++ [v]) rest

theorem recorded_evalProperties (done : Bindings Value) (es : List (String × Expr)) :
    Recorded L (evalProperties done es) (propertiesWrites done es) := by
  match es with
  | [] => exact silent_pure done
  | (key, e) :: rest =>
    rw [evalProperties, propertiesWrites]
    exact ((recorded_evalExpr e).keeping _).bind fun v =>
      Silent.after ((silent_letGo _).keeping _) fun _ => recorded_evalProperties _ rest

theorem recorded_evalPlace (e : Expr) : Recorded L (evalPlace e) e.placeWrites := by
  cases e with
  | param slot name => exact silent_pure _
  | declared slot name => exact silent_pure _
  | unbound name => exact silent_pure _
  | member object property optional =>
    rw [evalPlace, Expr.placeWrites]
    exact (recorded_evalExpr object).before fun _ => silent_pure _
  | index object key optional =>
    rw [evalPlace, Expr.placeWrites]
    exact (recorded_evalExpr object).bind fun object =>
      (((recorded_evalExpr key).before fun key => silent_askOf key _).keeping _).before fun _ =>
        silent_pure _
  | _ => exact silent_fail _

theorem recorded_evalReceiver (e : Expr) (receiver : Evaluation (Value × String))
    (h : evalReceiver e = some receiver) : Recorded L receiver e.receiverWrites := by
  cases e with
  | member object property optional =>
    rw [evalReceiver] at h
    cases h
    rw [Expr.receiverWrites]
    exact (recorded_evalExpr object).before fun receiver =>
      ((silent_checkLink optional receiver).keeping _).before fun _ => silent_pure _
  | index object key optional =>
    rw [evalReceiver] at h
    cases h
    rw [Expr.receiverWrites]
    exact (recorded_evalExpr object).bind fun receiver =>
      Recorded.before (Recorded.keeping _ ((silent_checkLink optional receiver).after fun _ =>
        (recorded_evalExpr key).before fun key => silent_askOf key _)) fun _ => silent_pure _
  | _ => cases h

end

/-! ### Changes to the store -/

theorem makes_writeSlot (frame : Frame) (i : Nat) (v : Value) :
    Store.Leads (making [⟨frame, .slot i, v⟩]) frame.store (frame.writeSlot i v).store := by
  unfold Frame.writeSlot
  split
  · next c _ =>
    split
    · exact makes_setCell rfl c
    · exact .refl frame.store
  · exact .refl frame.store

/-- What a change has left without a reference is let go without a write. -/
theorem makes_replacing {ws : List Write} {change : Evaluation Unit} {held : List Entity}
    {frame : Frame}
    (h : Store.Leads (making ws) frame.store ((change held).run.run frame).2.store) :
    Store.Leads (making ws) frame.store ((replacing change held).run.run frame).2.store := by
  rw [run_replacing]
  revert h
  rcases (change held).run.run frame with ⟨i | x, after⟩ <;> intro h
  · exact h
  · exact h.trans ((handles_frame_letGo after _ _).makes _)

/-- Writing a place changes the store by this write. -/
theorem makes_writePlace (place : Place) (v : Value) (held : List Entity) (frame : Frame) :
    Store.Leads (making [⟨frame, place, v⟩]) frame.store
      ((writePlace place v held).run.run frame).2.store := by
  refine makes_replacing ?_
  cases place with
  | slot i => exact makes_writeSlot frame i v
  | unbound name => exact .refl frame.store
  | property object key =>
    show Store.Leads _ _ (((attempt fun s => setMember s object key v) held).run.run frame).2.store
    rw [attempt, run_bind]
    have hact := makes_setMember frame object key v
    show Store.Leads _ _ ((ofExcept (setMember frame.store object key v).2 held).run.run
      { frame with store := (setMember frame.store object key v).1 }).2.store
    cases (setMember frame.store object key v).2 <;> exact hact

/-- Between the frames the store has changed only by the writes and without a write. -/
def storeLedger : Ledger where
  holds ws f g := Store.Leads (making ws) f.store g.store
  refl f := .refl f.store
  append hws hws' := (hws.mono fun _ _ => making_mono (List.subset_append_left _ _)).trans
    (hws'.mono fun _ _ => making_mono (List.subset_append_right _ _))
  handles _ _ h := h.makes _
  write := makes_writePlace

/-- A computation changes the store only by the writes of a trace and without a write. -/
def Evaluation.Traced (k : Evaluation α) (t : Trace) : Prop :=
  ∀ (held : List Entity) (frame : Frame),
    Store.Leads (making (t held frame)) frame.store ((k held).run.run frame).2.store

theorem silent_fillSlot (i : Nat) (v : Value) : Silent storeLedger (fillSlot i v) :=
  fun _ frame => makes_replacing (.refl frame.store)

/-! ### Statements and functions -/

theorem recorded_declareAll (declarators : List (Nat × Option Expr)) :
    Recorded storeLedger (declareAll declarators) (declarationWrites declarators) := by
  induction declarators with
  | nil => exact silent_pure ()
  | cons declarator rest ih =>
    obtain ⟨slot, init⟩ := declarator
    unfold declareAll
    cases init with
    | none => exact (silent_fillSlot slot _).after fun _ => ih
    | some e =>
      exact (recorded_evalExpr e).bind fun v => (silent_fillSlot slot v).after fun _ => ih

mutual

/-- Executing a statement changes the store by its writes. -/
theorem recorded_execStmt (s : Stmt) : Recorded storeLedger (execStmt s) s.writes := by
  cases s with
  | empty => exact silent_pure ()
  | expression e =>
    rw [execStmt, Stmt.writes]
    exact (recorded_evalExpr e).before fun v => silent_letGo _
  | block statements =>
    rw [execStmt, Stmt.writes]
    exact recorded_execList statements
  | declare declarators =>
    rw [execStmt, Stmt.writes]
    exact recorded_declareAll declarators
  | conditional test consequent alternate =>
    rw [execStmt, Stmt.writes]
    refine (recorded_evalExpr test).bind fun test => (silent_askOf test _).after fun holds => ?_
    split
    · exact recorded_execStmt consequent
    · exact recorded_execOption alternate
  | returns value =>
    unfold execStmt
    cases value with
    | none => exact (silent_pure _).before fun v => silent_throw _
    | some e => exact (recorded_evalExpr e).before fun v => silent_throw _

theorem recorded_execList (statements : List Stmt) :
    Recorded storeLedger (execList statements) (statementsWrites statements) := by
  cases statements with
  | nil => exact silent_pure ()
  | cons s rest =>
    rw [execList, statementsWrites]
    exact (recorded_execStmt s).bind fun _ => recorded_execList rest

theorem recorded_execOption (s : Option Stmt) :
    Recorded storeLedger (execOption s) (alternateWrites s) := by
  cases s with
  | none => exact silent_pure ()
  | some s =>
    rw [execOption, alternateWrites]
    exact recorded_execStmt s

end

/-- The body of a function changes the store only by its writes. -/
theorem traced_evalBody (body : Body) : Traced (evalBody body) body.writes := by
  cases body with
  | expression e => exact recorded_evalExpr (L := storeLedger) e
  | statements statements =>
    exact (recorded_execList statements).before fun _ => silent_pure _

/-- Calling a compiled function changes the store by its writes. -/
theorem makes_call (code : Code) (args : List Value) (s : Store) :
    Store.Leads (making (code.writes args s)) s (code.call args s).1 :=
  (traced_evalBody code.body (references args) (code.frame args s)).trans
    ((Store.handles_letGo _ _ _).makes _)

/-- Calling a compiled function changes the store as texts do. -/
theorem evaluates_call (code : Code) (args : List Value) (s : Store) :
    s.Evaluates (code.call args s).1 :=
  Store.evaluates_of_makes (makes_call code args s)

end Eval

/-! ### Runs of texts -/

namespace Interpreter

open Syntax

variable (i : Interpreter) (s : Store) (source : String) (context : Context) (mode : Mode)

/-- The writes of a run of a text; there are none if it does not compile. -/
def writes : List Write :=
  let context := i.contextOf context
  match (i.compile source context.names mode).2 with
  | .ok f => f.code.writes context.values s
  | .error _ => []

theorem makes_run : Store.Leads (making (i.writes s source context mode)) s
    (i.run s source context mode).2.1 := by
  simp only [run, writes]
  rcases i.compile source (i.contextOf context).names mode with ⟨_, e | f⟩
  · exact .refl s
  · exact makes_call _ _ s

theorem handles_letGoRead (result : Except InterpreterError Value) :
    s.Handles (letGoRead s context result) := by
  unfold letGoRead
  split
  · exact s.handles_letGo _ _
  · exact .refl s

theorem makes_runRead : Store.Leads (making (i.writes s source context mode)) s
    (i.runRead s source context mode).2.1 :=
  (i.makes_run s source context mode).trans ((handles_letGoRead _ _ _).makes _)

/-- Running a text changes the store by its writes, in any manner. -/
theorem makes_runIn (manner : Manner) : Store.Leads (making (i.writes s source context mode)) s
    (i.runIn s source context mode manner).2.1 := by
  cases manner with
  | raw => exact i.makes_run s source context mode
  | read | absorbing => exact i.makes_runRead s source context mode

end Interpreter

end LiveMarkup
