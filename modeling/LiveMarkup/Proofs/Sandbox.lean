import LiveMarkup.Proofs.ConfinedCalls
import LiveMarkup.Proofs.Evaluation
import LiveMarkup.Proofs.Sufficiency

/-!
# What a text cannot reach, it cannot change

A text gets at things only through the values in its slots, through builtin names and through what
it makes.  So while it runs, every value that it computes, holds or puts anywhere stays inside the
region of what could be reached at the start and what is made on the way, however the contents are
rearranged meanwhile.  The region is fixed at the start; it is the store that changes inside it.

## Main definitions

* `Evaluation.Stays` — a computation that stays inside a region.
* `Store.region` — what can be reached from some roots, and what is still to be made.

## Main results

* `stays_evalExpr`, `stays_execStmt` — expressions and statements stay inside.
* `unreachable_is_unchanged` — what cannot be reached from the context and the `Math` object is as
  it was after a run, and no cell of it is given a pass.
-/

namespace LiveMarkup.Eval

open Syntax

variable {α β : Type} {R : Entity → Prop}

/-! ### Computations -/

/-- A frame whose store encloses the region and whose slots hold values inside.  The `Math` object,
which every text can name, is inside. -/
structure Frame.Within (R : Entity → Prop) (frame : Frame) : Prop where
  store : frame.store.Encloses R
  slots : ∀ v ∈ frame.slots.toList, v.Within R
  math : R (.object mathObject)

/-- The end of a computation that has stayed inside the region; its result has a property. -/
structure Frame.Leaves (R : Entity → Prop) (frame : Frame) (F : α → Prop)
    (result : Except Interrupt α × Frame) : Prop where
  store : frame.store.Confined R result.2.store
  slots : ∀ v ∈ result.2.slots.toList, v.Within R
  ok (x : α) : result.1 = .ok x → F x
  returned (v : Value) : result.1 = .error (.returned v) → v.Within R

/-- A computation that stays inside the region and gives only results with a property. -/
def Evaluation.Stays (R : Entity → Prop) (k : Evaluation α) (F : α → Prop) : Prop :=
  ∀ (held : List Entity) (frame : Frame), frame.Within R →
    frame.Leaves R F ((k held).run.run frame)

/-- The place has nothing outside the region. -/
def Place.Within (R : Entity → Prop) : Place → Prop
  | .property object _ => object.Within R
  | _ => True

theorem within_toList {v : Value} (hv : v.Within R) : ∀ e ∈ v.entity?.toList, R e :=
  fun e he => hv e (Option.mem_toList.1 he)

theorem Place.Within.entities {place : Place} (h : place.Within R) : ∀ e ∈ place.entities, R e := by
  cases place with
  | property object key => exact within_toList h
  | _ => simp [Place.entities]

theorem Frame.Within.slot {frame : Frame} (h : frame.Within R) (i : Nat) :
    (frame.slot i).Within R := by
  rw [Frame.slot, Array.getD_eq_getD_getElem?, ← Array.getElem?_toList]
  exact within_getElem? h.slots i

namespace Frame.Leaves

variable {frame : Frame} {F : α → Prop} {result : Except Interrupt α × Frame}

theorem within (h : frame.Leaves R F result) (hframe : frame.Within R) : result.2.Within R :=
  ⟨h.store.encloses hframe.store, h.slots, hframe.math⟩

/-- Inside the region references are given up inside the region. -/
theorem letGo (h : frame.Leaves R F result) (hframe : frame.Within R) (kept : List Entity)
    {lost : List Entity} (hlost : ∀ e ∈ lost, R e) :
    frame.Leaves R F (result.1, result.2.letGo kept lost) := by
  unfold Frame.letGo
  split
  · exact h
  · refine ⟨h.store.trans ?_, h.slots, h.ok, h.returned⟩
    exact confined_letGo _ (h.store.encloses hframe.store) hlost

end Frame.Leaves

namespace Evaluation

variable {F : α → Prop} {G : β → Prop} {k : Evaluation α}

theorem stays_pure {x : α} (hx : F x) : Stays R (pure x) F := by
  refine fun held frame hframe => ⟨.refl _, hframe.slots, fun y hy => ?_, fun v hv => nomatch hv⟩
  cases hy
  exact hx

theorem stays_throw {i : Interrupt} (hi : ∀ v, i = .returned v → v.Within R) :
    Stays R (throw i : Evaluation α) F := by
  refine fun held frame hframe => ⟨.refl _, hframe.slots, fun _ hx => (nomatch hx), fun v hv => ?_⟩
  exact hi v (Except.error.inj hv)

theorem stays_fail (e : EvalError) : Stays R (fail e : Evaluation α) F :=
  stays_throw fun _ h => nomatch h

theorem stays_shortCircuit : Stays R (throw .shortCircuit : Evaluation α) F :=
  stays_throw fun _ h => nomatch h

theorem Stays.post {F' : α → Prop} (h : Stays R k F) (hF : ∀ x, F x → F' x) : Stays R k F' :=
  fun held frame hframe =>
    let h := h held frame hframe
    ⟨h.store, h.slots, fun x hx => hF x (h.ok x hx), h.returned⟩

theorem Stays.bind {f : α → Evaluation β} (hk : Stays R k F) (hf : ∀ x, F x → Stays R (f x) G) :
    Stays R (k >>= f) G := by
  intro held frame hframe
  have hleaves := hk held frame hframe
  rw [run_bind]
  revert hleaves
  rcases (k held).run.run frame with ⟨i | x, frame'⟩ <;> intro hleaves
  · refine ⟨hleaves.store, hleaves.slots, fun _ hx => (nomatch hx), fun v hv => ?_⟩
    exact hleaves.returned v (congrArg Except.error (Except.error.inj hv))
  · have hnext := hf x (hleaves.ok x rfl) held frame' (hleaves.within hframe)
    exact ⟨hleaves.store.trans hnext.store, hnext.slots, hnext.ok, hnext.returned⟩

theorem Stays.tryCatch {f : Interrupt → Evaluation α} (hk : Stays R k F)
    (hf : ∀ i, (∀ v, i = .returned v → v.Within R) → Stays R (f i) F) :
    Stays R (tryCatch k f) F := by
  intro held frame hframe
  have hleaves := hk held frame hframe
  rw [run_tryCatch]
  revert hleaves
  rcases (k held).run.run frame with ⟨i | x, frame'⟩ <;> intro hleaves
  · have hi : ∀ v, i = .returned v → v.Within R :=
      fun v hv => hleaves.returned v (congrArg Except.error hv)
    have hnext := hf i hi held frame' (hleaves.within hframe)
    exact ⟨hleaves.store.trans hnext.store, hnext.slots, hnext.ok, hnext.returned⟩
  · exact hleaves

theorem stays_get : Stays R (get : Evaluation Frame) (Frame.Within R) := by
  refine fun held frame hframe => ⟨.refl _, hframe.slots, fun y hy => ?_, fun v hv => nomatch hv⟩
  cases hy
  exact hframe

theorem stays_modify {f : Frame → Frame}
    (h : ∀ frame : Frame, frame.Within R →
      frame.store.Confined R (f frame).store ∧ ∀ v ∈ (f frame).slots.toList, v.Within R) :
    Stays R (modify f) fun _ => True :=
  fun _ frame hframe =>
    ⟨(h frame hframe).1, (h frame hframe).2, fun _ _ => trivial, fun _ hv => nomatch hv⟩

theorem stays_ask {f : Store → α} (h : ∀ s : Store, s.Encloses R → F (f s)) :
    Stays R (ask f) F :=
  stays_get.bind fun frame hframe => stays_pure (h frame.store hframe.store)

/-- Asking something that refers to nothing. -/
theorem stays_question (f : Store → α) : Stays R (ask f) fun _ => True :=
  stays_ask fun _ _ => trivial

theorem stays_act {f : Store → Store × α}
    (h : ∀ s : Store, s.Encloses R → s.Confined R (f s).1 ∧ F (f s).2) : Stays R (act f) F := by
  intro held frame hframe
  obtain ⟨hstore, hx⟩ := h frame.store hframe.store
  refine ⟨hstore, hframe.slots, fun y hy => ?_, fun v hv => nomatch hv⟩
  cases hy
  exact hx

theorem stays_ofExcept {result : Except EvalError α} (h : ∀ x, result = .ok x → F x) :
    Stays R (ofExcept result) F := by
  cases result with
  | ok x => exact stays_pure (h x rfl)
  | error e => exact stays_fail e

theorem stays_attempt {f : Store → Outcome α}
    (h : ∀ s : Store, s.Encloses R → s.Stays R (f s) F) : Stays R (attempt f) F :=
  (stays_act (F := fun result => ∀ x, result = .ok x → F x) fun s hs =>
    ⟨(h s hs).confined, (h s hs).result⟩).bind fun _ hresult => stays_ofExcept hresult

/-! ### Held values -/

theorem stays_letGo {lost : List Entity} (hlost : ∀ e ∈ lost, R e) :
    Stays R (letGo lost) fun _ => True := by
  intro held frame hframe
  have hstart : frame.Leaves R (fun _ => True) (.ok (), frame) :=
    ⟨.refl _, hframe.slots, fun _ _ => trivial, fun _ hv => nomatch hv⟩
  exact hstart.letGo hframe held hlost

theorem Stays.holding [Referring α] {es : List Entity} (hk : Stays R k F) (hes : ∀ e ∈ es, R e) :
    Stays R (holding es k) F :=
  fun held frame hframe => (hk (es ++ held) frame hframe).letGo hframe _ hes

theorem Stays.keeping {es : List Entity} (hk : Stays R k F) (hes : ∀ e ∈ es, R e) :
    Stays R (keeping es k) F := by
  intro held frame hframe
  have hleaves := hk (es ++ held) frame hframe
  rw [run_keeping]
  revert hleaves
  rcases (k (es ++ held)).run.run frame with ⟨i | x, frame'⟩ <;> intro hleaves
  · exact hleaves.letGo hframe _ hes
  · exact hleaves

theorem stays_askOf [Referring α] {v : Value} (hv : v.Within R) {f : Store → Value → α}
    (h : ∀ s : Store, s.Encloses R → F (f s v)) : Stays R (askOf v f) F :=
  (stays_ask fun s hs => h s hs).holding (within_toList hv)

/-- A change inside the region leaves only things inside without a reference. -/
theorem Stays.replacing {change : Evaluation Unit} (h : Stays R change fun _ => True) :
    Stays R (replacing change) fun _ => True := by
  intro held frame hframe
  have hleaves := h held frame hframe
  rw [run_replacing]
  revert hleaves
  rcases (change held).run.run frame with ⟨i | x, frame'⟩ <;> intro hleaves
  · exact hleaves
  · refine hleaves.letGo hframe held fun e he => ?_
    rcases List.mem_append.1 he with he | he
    · exact within_references.2 hframe.slots e he
    · exact within_lost hframe.store (hleaves.store.spares hframe.store) he

/-! ### Steps -/

theorem stays_readSlot (i : Nat) : Stays R (readSlot i) (Value.Within R) :=
  stays_get.bind fun _ hframe => stays_pure (hframe.slot i)

theorem stays_checkLink (optional : Bool) (target : Value) :
    Stays R (checkLink optional target) fun _ => True := by
  unfold checkLink
  refine (stays_question _).bind fun nullish _ => ?_
  split
  · exact stays_shortCircuit
  · exact stays_pure trivial

theorem stays_memberOf {target : Value} (htarget : target.Within R) (key : String) :
    Stays R (memberOf target key) (Value.Within R) :=
  (stays_ask (F := fun result => ∀ v, result = .ok v → v.Within R) fun _ hs _ hv =>
    within_getMember hs htarget hv).bind fun _ hresult => stays_ofExcept hresult

theorem stays_callMemberOf {receiver : Value} (hreceiver : receiver.Within R) (name : String)
    {args : List Value} (hargs : ∀ v ∈ args, v.Within R) (optional : Bool) :
    Stays R (callMemberOf receiver name args optional) (Value.Within R) := by
  refine (stays_attempt fun s hs => stays_callMember hs hreceiver name hargs optional).bind
    fun result hresult => ?_
  cases result with
  | none => exact stays_shortCircuit
  | some v => exact stays_pure (hresult v rfl)

theorem stays_callValue (callee : Expr) (f : Value) {args : List Value}
    (hargs : ∀ v ∈ args, v.Within R) : Stays R (callValue callee f args) (Value.Within R) := by
  unfold callValue
  split
  · exact stays_attempt fun s _ => stays_callFunction s _ hargs
  · exact stays_fail _

theorem stays_readPlace {place : Place} (hplace : place.Within R) :
    Stays R (readPlace place) (Value.Within R) := by
  cases place with
  | slot i => exact stays_readSlot i
  | unbound name => exact stays_fail _
  | property object key => exact stays_memberOf hplace key

theorem within_setSlot {frame : Frame} (hframe : frame.Within R) (i : Nat) {v : Value}
    (hv : v.Within R) : ∀ w ∈ (frame.setSlot i v).slots.toList, w.Within R := by
  intro w hw
  rw [Frame.setSlot, Array.toList_setIfInBounds] at hw
  rcases List.mem_or_eq_of_mem_set hw with hw | rfl
  · exact hframe.slots w hw
  · exact hv

theorem stays_fillSlot (i : Nat) {v : Value} (hv : v.Within R) :
    Stays R (fillSlot i v) fun _ => True :=
  Stays.replacing (stays_modify fun _ hframe => ⟨.refl _, within_setSlot hframe i hv⟩)

/-- A slot that holds a cell inside is written through to that cell. -/
theorem stays_writeSlot (i : Nat) {v : Value} (hv : v.Within R) :
    Stays R (modify fun frame => frame.writeSlot i v) fun _ => True := by
  refine stays_modify fun frame hframe => ?_
  have hslot := hframe.slot i
  unfold Frame.writeSlot
  split
  · next c hc =>
    split
    · rw [hc] at hslot
      exact ⟨confined_setCell _ (hslot _ rfl) (hframe.store.unwrap hv), hframe.slots⟩
    · exact ⟨.refl _, within_setSlot hframe i hv⟩
  · exact ⟨.refl _, within_setSlot hframe i hv⟩

theorem stays_writePlace {place : Place} (hplace : place.Within R) {v : Value} (hv : v.Within R) :
    Stays R (writePlace place v) fun _ => True := by
  refine Stays.replacing ?_
  cases place with
  | slot i => exact stays_writeSlot i hv
  | unbound name => exact stays_fail _
  | property object key =>
    exact stays_attempt fun _ hs => ⟨confined_setMember hs hplace key hv, fun _ _ => trivial⟩

end Evaluation

open Evaluation

/-! ### Expressions -/

/-- What a builtin name stands for. -/
theorem stays_global (g : Global) : Stays R (pure (globalValue g)) (Value.Within R) := by
  cases g with
  | math =>
    intro held frame hframe
    refine ⟨.refl _, hframe.slots, fun v hv => ?_, fun _ hv => nomatch hv⟩
    cases hv
    rintro e ⟨⟩
    exact hframe.math
  | _ => exact stays_pure (within_of_entity? rfl)

mutual

/-- Evaluating an expression stays inside the region and gives a value inside. -/
theorem stays_evalExpr (e : Expr) : Stays R (evalExpr e) (Value.Within R) := by
  cases e with
  | literal l =>
    refine stays_pure (within_of_entity? ?_)
    cases l <;> rfl
  | array items =>
    rw [evalExpr]
    exact (stays_evalList [] (by simp) items).bind fun vs hvs =>
      stays_act fun s hs => confined_newArrayValue hs hvs
  | object properties =>
    rw [evalExpr]
    refine (stays_evalProperties .empty (fun _ hv => nomatch hv) properties).bind
      fun b hb => stays_act fun s hs => ⟨Store.Confined.by (.newObject b) hb, fun e he => ?_⟩
    cases he
    exact hs.newObject (Nat.le_refl _)
  | param slot name => exact stays_readSlot slot
  | declared slot name => exact stays_readSlot slot
  | global g => exact stays_global g
  | unbound name => exact stays_fail _
  | member object property optional =>
    rw [evalExpr]
    refine (stays_evalExpr object).bind fun target htarget =>
      Stays.holding ?_ (within_toList htarget)
    exact (stays_checkLink optional target).bind fun _ _ => stays_memberOf htarget property
  | index object key optional =>
    rw [evalExpr]
    refine (stays_evalExpr object).bind fun target htarget =>
      Stays.holding ?_ (within_toList htarget)
    exact (stays_checkLink optional target).bind fun _ _ => (stays_evalExpr key).bind
      fun key hkey => (stays_askOf hkey (F := fun _ => True) fun _ _ => trivial).bind
        fun key _ => stays_memberOf htarget key
  | call callee args optional =>
    rw [evalExpr]
    -- a member call evaluates its receiver first, any other call its callee
    cases hreceiver : evalReceiver callee with
    | some receiver =>
      refine (stays_evalReceiver callee receiver hreceiver).bind fun receiver hreceiver => ?_
      refine Stays.holding ?_ (within_toList hreceiver)
      exact (stays_evalList [] (by simp) args).bind fun args hargs =>
        (stays_callMemberOf hreceiver receiver.2 hargs optional).holding
          (within_references.2 hargs)
    | none =>
      refine (stays_evalExpr callee).bind fun f hf =>
        (stays_askOf hf fun s hs => hs.unwrap hf).bind fun f hf => ?_
      refine Stays.holding ?_ (within_toList hf)
      have hcall : Stays R (do
          let args ← evalList [] args
          holding (references args) (callValue callee f args)) (Value.Within R) :=
        (stays_evalList [] (by simp) args).bind fun args hargs =>
          (stays_callValue callee f hargs).holding (within_references.2 hargs)
      split
      · exact (stays_shortCircuit (F := fun _ => True)).bind fun _ _ => hcall
      · exact hcall
  | optionalChain chain =>
    rw [evalExpr]
    refine (stays_evalExpr chain).tryCatch fun i hi => ?_
    cases i with
    | shortCircuit => exact stays_pure (within_of_entity? rfl)
    | failed e => exact stays_throw hi
    | returned v => exact stays_throw hi
  | unary op operand =>
    rw [evalExpr]
    split
    · exact stays_pure (within_of_entity? rfl)
    · exact (stays_evalExpr operand).bind fun v hv =>
        stays_askOf hv fun s _ => within_of_entity? (plain_unary s op v)
  | binary op left right =>
    rw [evalExpr]
    refine (stays_evalExpr left).bind fun left hleft => Stays.holding ?_ (within_toList hleft)
    exact (stays_evalExpr right).bind fun right hright =>
      stays_askOf hright fun s _ => within_of_entity? (plain_binary s op left right)
  | logical op left right =>
    rw [evalExpr]
    refine (stays_evalExpr left).bind fun left hleft => (stays_question _).bind fun stops _ => ?_
    split
    · exact stays_pure hleft
    · exact (stays_evalExpr right).holding (within_toList hleft)
  | conditional test consequent alternate =>
    rw [evalExpr]
    refine (stays_evalExpr test).bind fun test htest =>
      (stays_askOf htest (F := fun _ => True) fun _ _ => trivial).bind fun holds _ => ?_
    split
    · exact stays_evalExpr consequent
    · exact stays_evalExpr alternate
  | assign op target value =>
    rw [evalExpr]
    refine (stays_evalPlace target).bind fun place hplace =>
      Stays.bind (F := Value.Within R) (Stays.keeping ?_ hplace.entities) fun v hv =>
        (((stays_writePlace hplace hv).holding hplace.entities).keeping (within_toList hv)).bind
          fun _ _ => stays_pure hv
    cases op with
    | assign => exact stays_evalExpr value
    | compound op =>
      refine (stays_readPlace hplace).bind fun current hcurrent =>
        Stays.holding ?_ (within_toList hcurrent)
      exact (stays_evalExpr value).bind fun operand hoperand =>
        stays_askOf hoperand fun s _ => within_of_entity? (plain_binary s op current operand)
  | update op result target =>
    rw [evalExpr]
    refine (stays_evalPlace target).bind fun place hplace =>
      Stays.bind (F := fun _ => True) (Stays.keeping ?_ hplace.entities) fun old _ =>
        ((stays_writePlace hplace (within_of_entity? rfl)).holding hplace.entities).bind
          fun _ _ => stays_pure (within_of_entity? rfl)
    exact (stays_readPlace hplace).bind fun current hcurrent =>
      stays_askOf hcurrent fun _ _ => trivial

theorem stays_evalList (done : List Value) (hdone : ∀ v ∈ done, v.Within R) (es : List Expr) :
    Stays R (evalList done es) fun vs => ∀ v ∈ vs, v.Within R := by
  cases es with
  | nil => exact stays_pure hdone
  | cons e rest =>
    rw [evalList]
    refine ((stays_evalExpr e).keeping (within_references.2 hdone)).bind fun v hv =>
      stays_evalList _ (List.forall_mem_append.2 ⟨hdone, ?_⟩) rest
    simpa using hv

theorem stays_evalProperties (done : Bindings Value) (hdone : ∀ v ∈ done.values, v.Within R)
    (es : List (String × Expr)) :
    Stays R (evalProperties done es) fun b => ∀ v ∈ b.values, v.Within R := by
  match es with
  | [] => exact stays_pure hdone
  | (key, e) :: rest =>
    rw [evalProperties]
    refine ((stays_evalExpr e).keeping (within_references.2 hdone)).bind fun v hv => ?_
    have hnext := within_insert hdone key hv
    refine Stays.bind ((stays_letGo ?_).keeping (within_references.2 hnext)) fun _ _ =>
      stays_evalProperties _ hnext rest
    refine within_references.2 fun w hw => hdone w ?_
    exact Bindings.mem_values_of_find? (Option.mem_toList.1 hw)

theorem stays_evalPlace (e : Expr) : Stays R (evalPlace e) (Place.Within R) := by
  cases e with
  | param slot name => exact stays_pure trivial
  | declared slot name => exact stays_pure trivial
  | unbound name => exact stays_pure trivial
  | member object property optional =>
    rw [evalPlace]
    exact (stays_evalExpr object).bind fun _ hv => stays_pure hv
  | index object key optional =>
    rw [evalPlace]
    refine (stays_evalExpr object).bind fun object hobject =>
      Stays.bind (F := fun _ => True) (Stays.keeping ?_ (within_toList hobject)) fun _ _ =>
        stays_pure hobject
    exact (stays_evalExpr key).bind fun key hkey => stays_askOf hkey fun _ _ => trivial
  | _ => exact stays_fail _

theorem stays_evalReceiver (e : Expr) (receiver : Evaluation (Value × String))
    (h : evalReceiver e = some receiver) : Stays R receiver fun p => p.1.Within R := by
  cases e with
  | member object property optional =>
    rw [evalReceiver] at h
    cases h
    exact (stays_evalExpr object).bind fun receiver hreceiver =>
      ((stays_checkLink optional receiver).keeping (within_toList hreceiver)).bind fun _ _ =>
        stays_pure hreceiver
  | index object key optional =>
    rw [evalReceiver] at h
    cases h
    refine (stays_evalExpr object).bind fun receiver hreceiver =>
      Stays.bind (F := fun _ => True) (Stays.keeping ?_ (within_toList hreceiver)) fun _ _ =>
        stays_pure hreceiver
    exact (stays_checkLink optional receiver).bind fun _ _ => (stays_evalExpr key).bind
      fun key hkey => stays_askOf hkey fun _ _ => trivial
  | _ => cases h

end

/-! ### Statements -/

theorem stays_declareAll (declarators : List (Nat × Option Expr)) :
    Stays R (declareAll declarators) fun _ => True := by
  induction declarators with
  | nil => exact stays_pure trivial
  | cons declarator rest ih =>
    obtain ⟨slot, init⟩ := declarator
    unfold declareAll
    have hrest : ∀ v : Value, v.Within R →
        Stays R (do fillSlot slot v; declareAll rest) fun _ => True :=
      fun v hv => (stays_fillSlot slot hv).bind fun _ _ => ih
    cases init with
    | none => exact (stays_pure (within_of_entity? rfl)).bind hrest
    | some e => exact (stays_evalExpr e).bind hrest

mutual

/-- Executing a statement stays inside the region. -/
theorem stays_execStmt (s : Stmt) : Stays R (execStmt s) fun _ => True := by
  cases s with
  | empty => exact stays_pure trivial
  | expression e =>
    rw [execStmt]
    exact (stays_evalExpr e).bind fun v hv => stays_letGo (within_toList hv)
  | block statements =>
    rw [execStmt]
    exact stays_execList statements
  | declare declarators =>
    rw [execStmt]
    exact stays_declareAll declarators
  | conditional test consequent alternate =>
    rw [execStmt]
    refine (stays_evalExpr test).bind fun test htest =>
      (stays_askOf htest (F := fun _ => True) fun _ _ => trivial).bind fun holds _ => ?_
    split
    · exact stays_execStmt consequent
    · exact stays_execOption alternate
  | returns value =>
    unfold execStmt
    have hthrow : ∀ v : Value, v.Within R →
        Stays R (throw (.returned v) : Evaluation Unit) fun _ => True :=
      fun v hv => stays_throw fun w hw => by cases hw; exact hv
    cases value with
    | none => exact (stays_pure (within_of_entity? rfl)).bind hthrow
    | some e => exact (stays_evalExpr e).bind hthrow

theorem stays_execList (statements : List Stmt) : Stays R (execList statements) fun _ => True := by
  cases statements with
  | nil => exact stays_pure trivial
  | cons s rest =>
    rw [execList]
    exact (stays_execStmt s).bind fun _ _ => stays_execList rest

theorem stays_execOption (s : Option Stmt) : Stays R (execOption s) fun _ => True := by
  cases s with
  | none => exact stays_pure trivial
  | some s =>
    rw [execOption]
    exact stays_execStmt s

end

theorem stays_evalBody (body : Body) : Stays R (evalBody body) (Value.Within R) := by
  cases body with
  | expression e => exact stays_evalExpr e
  | statements statements =>
    exact (stays_execList statements).bind fun _ _ => stays_pure (within_of_entity? rfl)

/-! ### Functions -/

variable {s : Store}

/-- Calling a compiled function with values inside stays inside the region. -/
theorem stays_call (code : Code) {args : List Value} (hs : s.Encloses R)
    (hmath : R (.object mathObject)) (hargs : ∀ v ∈ args, v.Within R) :
    s.Stays R (code.call args s) (Value.Within R) := by
  have hframe : (code.frame args s).Within R := by
    refine ⟨hs, fun v hv => ?_, hmath⟩
    exact within_resized (fun w hw => hargs w (List.mem_of_mem_take hw)) code.slotCount v hv
  have hleaves := stays_evalBody code.body (references args) _ hframe
  unfold Code.call
  dsimp only
  revert hleaves
  rcases ((evalBody code.body) (references args)).run.run (code.frame args s) with
    ⟨outcome, frame⟩
  intro hleaves
  have hlost : ∀ e ∈ references frame.slots.toList, R e := within_references.2 hleaves.slots
  refine ⟨hleaves.store.trans (confined_letGo _ (hleaves.store.encloses hs) hlost), ?_⟩
  intro v hv
  cases outcome with
  | ok w =>
    cases hv
    exact hleaves.ok _ rfl
  | error i =>
    cases i with
    | failed e => cases hv
    | returned w =>
      cases hv
      exact hleaves.returned _ rfl
    | shortCircuit =>
      cases hv
      exact within_of_entity? rfl

end LiveMarkup.Eval

namespace LiveMarkup

open Syntax Eval

/-! ### The region of a run -/

variable {s t : Store} {roots : List Entity}

/-- What can be reached from the roots, and what is still to be made. -/
def Store.region (s : Store) (roots : List Entity) (e : Entity) : Prop :=
  s.Reaches roots e ∨ s.hasMade e = false

theorem encloses_region (s : Store) (roots : List Entity) : s.Encloses (s.region roots) where
  contents := by
    rintro e (hreaches | hunmade) f hf
    · exact .inl (hreaches.step hf)
    · rw [referents_of_unmade hunmade] at hf
      cases hf
  unmade := .inr

theorem within_region {vs : List Value} (h : ∀ e ∈ references vs, e ∈ roots) :
    ∀ v ∈ vs, v.Within (s.region roots) :=
  within_references.1 fun e he => .inl (.root (h e he))

/-- The thing is as it was: an array has the same elements, an object the same properties, a cell
the same state, and it is gone only if it was before. -/
def Store.Untouched (s t : Store) (e : Entity) : Prop :=
  t.isGone e = s.isGone e ∧
    match e with
    | .array r => t.items r = s.items r
    | .object r => t.properties r = s.properties r
    | .cell c => t.cellState c = s.cellState c

theorem Store.Spares.untouched {R : Entity → Prop} (h : s.Spares R t) {e : Entity} (he : ¬R e) :
    s.Untouched t e := by
  refine ⟨h.isGone he, ?_⟩
  cases e with
  | array r => exact h.items he
  | object r => exact h.properties he
  | cell c => exact h.cellState he

/-- A cell that has been given a pass can be reached, since no cells are made. -/
theorem reaches_of_region {c : CellRef} (h : s.Has c ∧ s.region roots (.cell c)) :
    s.Reaches roots (.cell c) := by
  refine h.2.resolve_right fun hunmade => ?_
  have hhas : s.hasMade (.cell c) = true := decide_eq_true h.1
  rw [hhas] at hunmade
  cases hunmade

namespace Interpreter

/-- What a text can reach when it is run over a context: the values of the context and of the
interpreter, the `Math` object, and everything that these lead to. -/
def Reachable (i : Interpreter) (s : Store) (context : Context) : Entity → Prop :=
  s.Reaches (.object mathObject :: references (i.contextOf context).values)

variable (i : Interpreter) (s : Store) (source : String) (context : Context) (mode : Mode)

/-- The region that a run stays inside. -/
def regionOf : Entity → Prop :=
  s.region (.object mathObject :: references (i.contextOf context).values)

theorem stays_run :
    s.Confined (i.regionOf s context) (i.run s source context mode).2.1 ∧
      ∀ v, (i.run s source context mode).2.2 = .ok v → v.Within (i.regionOf s context) := by
  unfold run
  dsimp only
  split
  · exact ⟨.refl s, fun _ hv => nomatch hv⟩
  · next j f _ =>
    have hvalues : ∀ v ∈ (i.contextOf context).values, v.Within (i.regionOf s context) :=
      within_region fun e he => List.mem_cons_of_mem _ he
    have hmath : i.regionOf s context (.object mathObject) := .inl (.root List.mem_cons_self)
    have hstays := stays_call f.code (encloses_region s _) hmath hvalues
    refine ⟨hstays.confined, fun v hv => hstays.result v ?_⟩
    cases hresult : (f.code.call (i.contextOf context).values s).2 with
    | ok w =>
      rw [hresult] at hv
      cases hv
      rfl
    | error e =>
      rw [hresult] at hv
      cases hv

theorem confined_runRead :
    s.Confined (i.regionOf s context) (i.runRead s source context mode).2.1 := by
  obtain ⟨hconfined, hresult⟩ := i.stays_run s source context mode
  refine hconfined.trans ?_
  unfold runRead
  dsimp only
  unfold letGoRead
  split
  · next c hc =>
    refine confined_letGo _ (hconfined.encloses (encloses_region s _)) fun e he => ?_
    obtain rfl := List.mem_singleton.1 he
    exact hresult _ hc _ rfl
  · exact .refl _

theorem confined_runIn (manner : Manner) :
    s.Confined (i.regionOf s context) (i.runIn s source context mode manner).2.1 := by
  cases manner with
  | raw => exact (i.stays_run s source context mode).1
  | read => exact i.confined_runRead s source context mode
  | absorbing => exact i.confined_runRead s source context mode

end Interpreter

/-- Whatever text is run over whatever context, every array, object and cell that was there and
that neither the context nor the `Math` object leads to is as it was, and only cells that they lead
to are given passes. -/
theorem unreachable_is_unchanged (i : Interpreter) (s : Store) (source : String)
    (context : Context) (mode : Mode) (manner : Manner) :
    let t := (i.runIn s source context mode manner).2.1
    (∀ e, s.hasMade e = true → ¬i.Reachable s context e → s.Untouched t e) ∧
      (∀ q, ∃ cs, t.queue q = s.queue q ++ cs ∧ ∀ c ∈ cs, i.Reachable s context (.cell c)) ∧
      ∃ cs, t.spawned = s.spawned ++ cs ∧ ∀ c ∈ cs, i.Reachable s context (.cell c) := by
  have hspares := (i.confined_runIn s source context mode manner).spares (encloses_region s _)
  refine ⟨fun e hmade hout => hspares.untouched ?_, fun q => ?_, ?_⟩
  · rintro (hreaches | hunmade)
    · exact hout hreaches
    · rw [hmade] at hunmade
      cases hunmade
  · obtain ⟨cs, heq, hcs⟩ := hspares.queue q
    exact ⟨cs, heq, fun c hc => reaches_of_region (hcs c hc)⟩
  · obtain ⟨cs, heq, hcs⟩ := hspares.spawned
    exact ⟨cs, heq, fun c hc => reaches_of_region (hcs c hc)⟩

end LiveMarkup
