import LiveMarkup.Proofs.CheckedEvaluation
import LiveMarkup.Proofs.Evaluation
import LiveMarkup.Proofs.Rebinding
import Mathlib

/-!
# No slot and no position is out of range

The parser gives parameters the slots below their number and variables those after, and counts on as
it declares; a frame has all the slots that have been counted.  So a compiled text reads and fills
only slots that there are.  The methods and writes compute only positions that there are.  Together:
the evaluator with checked slots and positions never fails, and does what the other one does.

## Main definitions

* `Expr.Fits`, `Stmt.Fits`, `Body.Fits` — trees whose slots are those of parameters and variables.
* `Checked.Covers` — a checked computation that does not fail, and does the same as another.

## Main results

* `covers_evalExpr`, `covers_execStmt` — expressions and statements whose slots are there.
* `fits_of_compile` — the slots of a compiled text are there.
* `no_position_out_of_range` — for any text, arguments and store.
-/

namespace LiveMarkup.Syntax

/-! ### Slots of trees -/

/-- A parameter has its slot among the first, a variable has it after those and before `n`. -/
def Expr.InRange (params n : Nat) : Expr → Prop
  | .param slot _ => slot < params
  | .declared slot _ => params ≤ slot ∧ slot < n
  | _ => True

/-- All slots in the expression are in range. -/
def Expr.Fits (params n : Nat) (e : Expr) : Prop := e.All (InRange params n)

/-- All slots in the statement are in range. -/
def Stmt.Fits (params n : Nat) (s : Stmt) : Prop :=
  s.All fun x => (∀ e ∈ x.expressions, e.Fits params n) ∧
    ∀ slot ∈ x.slots, params ≤ slot ∧ slot < n

/-- All slots are in range. -/
def Body.Fits (params n : Nat) : Body → Prop
  | .expression e => e.Fits params n
  | .statements list => ∀ s ∈ list, s.Fits params n

section

variable {ρ : Rebinding} {n : Nat}

theorem Expr.Placed.fits {e : Expr} (h : e.Placed ρ n) : e.Fits ρ.params.length n := by
  intro x hx
  have hplace := h x hx
  cases x with
  | param slot name => exact lt_of_lastPosition? hplace.2
  | declared slot name => exact hplace
  | _ => trivial

theorem Body.Placed.fits {body : Body} (h : body.Placed ρ n) : body.Fits ρ.params.length n := by
  cases body with
  | expression e => exact Expr.Placed.fits h
  | statements list =>
    exact fun s hs x hx => ⟨fun e he => ((h s hs x hx).1 e he).fits, (h s hs x hx).2⟩

end

end LiveMarkup.Syntax

namespace LiveMarkup.Eval

open Syntax

variable {α β : Type}

/-! ### Computations that do not fail -/

namespace Checked

variable {n : Nat}

/-- In a frame with `n` slots the computation does not fail, does the same as another, and leaves a
frame with `n` slots. -/
def Covers (n : Nat) (c : Checked α) (k : Evaluation α) : Prop :=
  ∀ (held : List Entity) (frame : Frame), frame.slots.size = n →
    (c held).run.run frame = some ((k held).run.run frame) ∧
      ((k held).run.run frame).2.slots.size = n

theorem run_bind (c : Checked α) (f : α → Checked β) (held : List Entity) (frame : Frame) :
    ((c >>= f) held).run.run frame =
      match (c held).run.run frame with
      | some (.ok x, frame) => (f x held).run.run frame
      | some (.error i, frame) => some (.error i, frame)
      | none => none := by
  simp only [bind, ReaderT.bind, ExceptT.bind, ExceptT.run, ExceptT.mk, StateT.bind, StateT.run]
  rcases c held frame with _ | ⟨_ | _, _⟩ <;> rfl

theorem run_tryCatch (c : Checked α) (f : Interrupt → Checked α) (held : List Entity)
    (frame : Frame) :
    ((tryCatch c f) held).run.run frame =
      match (c held).run.run frame with
      | some (.ok x, frame) => some (.ok x, frame)
      | some (.error i, frame) => (f i held).run.run frame
      | none => none := by
  simp only [tryCatch, tryCatchThe, MonadExceptOf.tryCatch, ExceptT.tryCatch, ExceptT.run,
    ExceptT.mk, bind, StateT.bind, StateT.run]
  rcases c held frame with _ | ⟨_ | _, _⟩ <;> rfl

theorem run_keeping (es : List Entity) (c : Checked α) (held : List Entity) (frame : Frame) :
    ((keeping? es c) held).run.run frame =
      match (c (es ++ held)).run.run frame with
      | some (.ok x, frame) => some (.ok x, frame)
      | some (.error i, frame) =>
        some (.error i, frame.letGo (Referring.entities i ++ held) es)
      | none => none := by
  show ((c (es ++ held)).run.run frame).bind _ = _
  rcases (c (es ++ held)).run.run frame with _ | ⟨_ | _, _⟩ <;> rfl

theorem covers_pure (x : α) : Covers n (pure x) (pure x) := fun _ _ hsize => ⟨rfl, hsize⟩

theorem covers_throw (i : Interrupt) : Covers n (throw i : Checked α) (throw i) :=
  fun _ _ hsize => ⟨rfl, hsize⟩

theorem Covers.bind {c : Checked α} {k : Evaluation α} {f : α → Checked β}
    {l : α → Evaluation β} (hc : Covers n c k) (hf : ∀ x, Covers n (f x) (l x)) :
    Covers n (c >>= f) (k >>= l) := by
  intro held frame hsize
  obtain ⟨hrun, hafter⟩ := hc held frame hsize
  rw [run_bind, Eval.run_bind, hrun]
  revert hafter
  rcases (k held).run.run frame with ⟨i | x, frame'⟩ <;> intro hafter
  · exact ⟨rfl, hafter⟩
  · exact hf x held frame' hafter

theorem Covers.tryCatch {c : Checked α} {k : Evaluation α} {f : Interrupt → Checked α}
    {l : Interrupt → Evaluation α} (hc : Covers n c k) (hf : ∀ i, Covers n (f i) (l i)) :
    Covers n (tryCatch c f) (tryCatch k l) := by
  intro held frame hsize
  obtain ⟨hrun, hafter⟩ := hc held frame hsize
  rw [run_tryCatch, Eval.run_tryCatch, hrun]
  revert hafter
  rcases (k held).run.run frame with ⟨i | x, frame'⟩ <;> intro hafter
  · exact hf i held frame' hafter
  · exact ⟨rfl, hafter⟩

/-! ### Steps that use no slots -/

theorem slots_letGo (frame : Frame) (kept lost : List Entity) :
    (frame.letGo kept lost).slots = frame.slots := by
  unfold Frame.letGo
  split <;> rfl

theorem covers_letGo (lost : List Entity) : Covers n (free (letGo lost)) (letGo lost) :=
  fun held frame hsize => ⟨rfl, (congrArg Array.size (slots_letGo frame held lost)).trans hsize⟩

theorem covers_ask (f : Store → α) : Covers n (free (ask f)) (ask f) :=
  fun _ _ hsize => ⟨rfl, hsize⟩

theorem covers_act (f : Store → Store × α) : Covers n (free (act f)) (act f) :=
  fun _ _ hsize => ⟨rfl, hsize⟩

theorem covers_fail (e : EvalError) : Covers n (free (fail e : Evaluation α)) (fail e) :=
  fun _ _ hsize => ⟨rfl, hsize⟩

theorem covers_ofExcept (result : Except EvalError α) :
    Covers n (free (ofExcept result)) (ofExcept result) := by
  cases result with
  | ok x => exact fun _ _ hsize => ⟨rfl, hsize⟩
  | error e => exact covers_fail e

theorem covers_checkLink (optional : Bool) (target : Value) :
    Covers n (free (checkLink optional target)) (checkLink optional target) := by
  refine fun held frame hsize => ⟨rfl, ?_⟩
  unfold checkLink
  rw [Eval.run_bind]
  show (((if _ then _ else _ : Evaluation Unit) held).run.run frame).2.slots.size = n
  split <;> exact hsize

theorem covers_memberOf (target : Value) (key : String) :
    Covers n (free (memberOf target key)) (memberOf target key) := by
  refine fun held frame hsize => ⟨rfl, ?_⟩
  unfold memberOf
  rw [Eval.run_bind]
  exact (covers_ofExcept (getMember frame.store target key) held frame hsize).2

theorem covers_askOf [Referring α] (v : Value) (f : Store → Value → α) :
    Covers n (free (askOf v f)) (askOf v f) :=
  fun _ frame hsize => ⟨rfl, (congrArg Array.size (slots_letGo frame _ _)).trans hsize⟩

/-! ### Held values -/

theorem Covers.holding [Referring α] {c : Checked α} {k : Evaluation α} (es : List Entity)
    (h : Covers n c k) : Covers n (holding? es c) (holding es k) := by
  intro held frame hsize
  obtain ⟨hrun, hafter⟩ := h (es ++ held) frame hsize
  refine ⟨?_, (congrArg Array.size (slots_letGo _ _ es)).trans hafter⟩
  exact congrArg (Option.bind · _) hrun

theorem Covers.keeping {c : Checked α} {k : Evaluation α} (es : List Entity) (h : Covers n c k) :
    Covers n (keeping? es c) (keeping es k) := by
  intro held frame hsize
  obtain ⟨hrun, hafter⟩ := h (es ++ held) frame hsize
  rw [run_keeping, Eval.run_keeping, hrun]
  revert hafter
  rcases (k (es ++ held)).run.run frame with ⟨i | x, frame'⟩ <;> intro hafter
  · exact ⟨rfl, (congrArg Array.size (slots_letGo frame' _ es)).trans hafter⟩
  · exact ⟨rfl, hafter⟩

theorem Covers.replacing {c : Checked Unit} {k : Evaluation Unit} (h : Covers n c k) :
    Covers n (replacing? c) (replacing k) := by
  have hget : Covers n (get : Checked Frame) get := fun _ _ hsize => ⟨rfl, hsize⟩
  exact hget.bind fun _ => h.bind fun _ => hget.bind fun _ => covers_letGo _

/-! ### Steps that use slots and positions -/

theorem covers_attempt {f : Store → Option (Outcome α)} {g : Store → Outcome α}
    (h : ∀ s, f s = some (g s)) : Covers n (attempt? f) (attempt g) := by
  intro held frame hsize
  have hrun : ((attempt? f) held).run.run frame = (f frame.store).bind fun x =>
      (free (ofExcept x.2) held).run.run { frame with store := x.1 } := by
    show ((f frame.store).map fun x => ((Except.ok x : Except Interrupt _), frame)).bind _ = _
    cases f frame.store <;> rfl
  -- the checked step gives what the plain one gives, and both go on with that
  rw [hrun, h, attempt, Eval.run_bind]
  exact covers_ofExcept _ held _ hsize

theorem covers_modify {f : Frame → Option Frame} {g : Frame → Frame}
    (h : ∀ frame : Frame, frame.slots.size = n →
      f frame = some (g frame) ∧ (g frame).slots.size = n) :
    Covers n (modify? f) (modify g) := by
  intro held frame hsize
  obtain ⟨hchange, hafter⟩ := h frame hsize
  refine ⟨?_, hafter⟩
  show ((f frame).map fun x => ((Except.ok x : Except Interrupt _), frame)).bind _ = _
  rw [hchange]
  rfl

theorem slot_eq_getElem {frame : Frame} {i : Nat} (hi : i < frame.slots.size) :
    frame.slots[i]? = some (frame.slot i) := by
  simp [Frame.slot, hi]

theorem covers_readSlot {i : Nat} (hi : i < n) : Covers n (readSlot? i) (readSlot i) := by
  intro held frame hsize
  refine ⟨?_, hsize⟩
  show ((frame.slots[i]?).map fun v => ((Except.ok v : Except Interrupt Value), frame)) = _
  rw [slot_eq_getElem (hsize ▸ hi)]
  rfl

theorem setSlot?_eq {frame : Frame} {i : Nat} (hi : i < frame.slots.size) (v : Value) :
    frame.setSlot? i v = some (frame.setSlot i v) := if_pos hi

theorem writeSlot?_eq {frame : Frame} {i : Nat} (hi : i < frame.slots.size) (v : Value) :
    frame.writeSlot? i v = some (frame.writeSlot i v) := by
  unfold Frame.writeSlot? Frame.writeSlot
  rw [slot_eq_getElem hi, setSlot?_eq hi]
  generalize frame.slot i = held
  split
  · next hlt => cases held <;> rfl
  · cases held <;> rfl

theorem size_setSlot (frame : Frame) (i : Nat) (v : Value) :
    (frame.setSlot i v).slots.size = frame.slots.size :=
  Array.size_setIfInBounds

theorem size_writeSlot (frame : Frame) (i : Nat) (v : Value) :
    (frame.writeSlot i v).slots.size = frame.slots.size := by
  unfold Frame.writeSlot
  split
  · split
    · rfl
    · exact size_setSlot frame i v
  · exact size_setSlot frame i v

theorem covers_fillSlot {i : Nat} (hi : i < n) (v : Value) :
    Covers n (fillSlot? i v) (fillSlot i v) :=
  (covers_modify fun frame hsize =>
    ⟨setSlot?_eq (hsize ▸ hi) v, (size_setSlot frame i v).trans hsize⟩).replacing

/-- The slot of a place is one of the first `n`. -/
def Within (n : Nat) : Place → Prop
  | .slot i => i < n
  | _ => True

theorem covers_readPlace {place : Place} (h : Within n place) :
    Covers n (readPlace? place) (readPlace place) := by
  cases place with
  | slot i => exact covers_readSlot h
  | unbound name => exact covers_fail _
  | property object key => exact covers_memberOf object key

theorem covers_writePlace {place : Place} (h : Within n place) (v : Value) :
    Covers n (writePlace? place v) (writePlace place v) := by
  refine Covers.replacing ?_
  cases place with
  | slot i =>
    exact covers_modify fun frame hsize =>
      ⟨writeSlot?_eq (hsize ▸ h) v, (size_writeSlot frame i v).trans hsize⟩
  | unbound name => exact covers_fail _
  | property object key => exact covers_attempt fun s => setMember?_eq s object key v

theorem covers_callMemberOf (receiver : Value) (name : String) (args : List Value)
    (optional : Bool) :
    Covers n (callMemberOf? receiver name args optional)
      (callMemberOf receiver name args optional) := by
  refine (covers_attempt fun s => callMember?_eq s receiver name args optional).bind
    fun result => ?_
  cases result with
  | none => exact covers_throw _
  | some v => exact covers_pure v

theorem covers_callValue (callee : Expr) (f : Value) (args : List Value) :
    Covers n (callValue? callee f args) (callValue callee f args) := by
  cases f with
  | function f => exact covers_attempt fun s => s.callFunction?_eq f args
  | _ => exact covers_fail _

end Checked

open Checked

/-! ### Expressions -/

section

variable {params n : Nat}

mutual

/-- An expression whose slots are there is evaluated without a failure. -/
theorem covers_evalExpr (hn : params ≤ n) (e : Expr) (he : e.Fits params n) :
    Covers n (evalExpr? e) (evalExpr e) := by
  cases e with
  | literal l =>
    rw [evalExpr?, evalExpr]
    exact covers_pure _
  | array items =>
    rw [evalExpr?, evalExpr]
    exact (covers_evalList hn [] items (all_array.1 he).2).bind fun _ => covers_act _
  | object properties =>
    rw [evalExpr?, evalExpr]
    exact (covers_evalProperties hn .empty properties (all_object.1 he).2).bind
      fun _ => covers_act _
  | param slot name =>
    rw [evalExpr?, evalExpr]
    exact covers_readSlot (Nat.lt_of_lt_of_le (all_param.1 he) hn)
  | declared slot name =>
    rw [evalExpr?, evalExpr]
    exact covers_readSlot (all_declared.1 he).2
  | global g =>
    rw [evalExpr?, evalExpr]
    exact covers_pure _
  | unbound name =>
    rw [evalExpr?, evalExpr]
    exact covers_fail _
  | member object property optional =>
    rw [evalExpr?, evalExpr]
    exact (covers_evalExpr hn object (all_member.1 he).2).bind fun target =>
      ((covers_checkLink optional target).bind fun _ => covers_memberOf target property).holding _
  | index object key optional =>
    rw [evalExpr?, evalExpr]
    obtain ⟨-, hobject, hkey⟩ := all_index.1 he
    exact (covers_evalExpr hn object hobject).bind fun target =>
      ((covers_checkLink optional target).bind fun _ => (covers_evalExpr hn key hkey).bind
        fun key => (covers_askOf key _).bind fun key => covers_memberOf target key).holding _
  | call callee args optional =>
    rw [evalExpr?, evalExpr]
    obtain ⟨-, hcallee, hargs⟩ := all_call.1 he
    have hreceiver := covers_evalReceiver hn callee hcallee
    -- a member call evaluates its receiver first, any other call its callee
    generalize evalReceiver? callee = checked, evalReceiver callee = receiver at hreceiver ⊢
    cases hreceiver with
    | some hreceiver =>
      exact hreceiver.bind fun receiver => ((covers_evalList hn [] args hargs).bind fun args =>
        (covers_callMemberOf receiver.1 receiver.2 args optional).holding _).holding _
    | none =>
      refine (covers_evalExpr hn callee hcallee).bind fun f => (covers_askOf f _).bind fun f =>
        Covers.holding _ ?_
      have hcall : Covers n
          (do
            let args ← evalList? [] args
            holding? (references args) (callValue? callee f args))
          (do
            let args ← evalList [] args
            holding (references args) (callValue callee f args)) :=
        (covers_evalList hn [] args hargs).bind fun args =>
          (covers_callValue callee f args).holding _
      split
      · exact (covers_throw _).bind fun _ => hcall
      · exact hcall
  | optionalChain chain =>
    rw [evalExpr?, evalExpr]
    refine (covers_evalExpr hn chain (all_optionalChain.1 he).2).tryCatch fun i => ?_
    cases i
    case shortCircuit => exact covers_pure _
    all_goals exact covers_throw _
  | unary op operand =>
    rw [evalExpr?, evalExpr]
    split
    · exact covers_pure _
    · exact (covers_evalExpr hn operand (all_unary.1 he).2).bind fun v => covers_askOf v _
  | binary op left right =>
    rw [evalExpr?, evalExpr]
    obtain ⟨-, hleft, hright⟩ := all_binary.1 he
    exact (covers_evalExpr hn left hleft).bind fun left =>
      ((covers_evalExpr hn right hright).bind fun right => covers_askOf right _).holding _
  | logical op left right =>
    rw [evalExpr?, evalExpr]
    obtain ⟨-, hleft, hright⟩ := all_logical.1 he
    refine (covers_evalExpr hn left hleft).bind fun left => (covers_ask _).bind fun stops => ?_
    split
    · exact covers_pure left
    · exact (covers_evalExpr hn right hright).holding _
  | conditional test consequent alternate =>
    rw [evalExpr?, evalExpr]
    obtain ⟨-, htest, hconsequent, halternate⟩ := all_conditional.1 he
    refine (covers_evalExpr hn test htest).bind fun test => (covers_askOf test _).bind
      fun holds => ?_
    split
    · exact covers_evalExpr hn consequent hconsequent
    · exact covers_evalExpr hn alternate halternate
  | assign op target value =>
    rw [evalExpr?, evalExpr]
    obtain ⟨-, htarget, hvalue⟩ := all_assign.1 he
    refine covers_evalPlace hn target htarget fun place hplace =>
      Covers.bind (Covers.keeping _ ?_) fun v =>
        (((covers_writePlace hplace v).holding _).keeping _).bind fun _ => covers_pure v
    cases op with
    | assign => exact covers_evalExpr hn value hvalue
    | compound op =>
      exact (covers_readPlace hplace).bind fun current =>
        ((covers_evalExpr hn value hvalue).bind fun operand => covers_askOf operand _).holding _
  | update op result target =>
    rw [evalExpr?, evalExpr]
    exact covers_evalPlace hn target (all_update.1 he).2 fun place hplace =>
      (((covers_readPlace hplace).bind fun current => covers_askOf current _).keeping _).bind
        fun old => ((covers_writePlace hplace _).holding _).bind fun _ => covers_pure _

theorem covers_evalList (hn : params ≤ n) (done : List Value) (es : List Expr)
    (hes : ∀ e ∈ es, e.Fits params n) : Covers n (evalList? done es) (evalList done es) := by
  cases es with
  | nil =>
    rw [evalList?, evalList]
    exact covers_pure done
  | cons e rest =>
    rw [evalList?, evalList]
    obtain ⟨he, hrest⟩ := List.forall_mem_cons.1 hes
    exact ((covers_evalExpr hn e he).keeping _).bind fun v =>
      covers_evalList hn (done ++ [v]) rest hrest

theorem covers_evalProperties (hn : params ≤ n) (done : Bindings Value) (es : List (String × Expr))
    (hes : ∀ p ∈ es, p.2.Fits params n) :
    Covers n (evalProperties? done es) (evalProperties done es) := by
  match es with
  | [] =>
    rw [evalProperties?, evalProperties]
    exact covers_pure done
  | (key, e) :: rest =>
    rw [evalProperties?, evalProperties]
    obtain ⟨he, hrest⟩ := List.forall_mem_cons.1 hes
    exact ((covers_evalExpr hn e he).keeping _).bind fun v => ((covers_letGo _).keeping _).bind
      fun _ => covers_evalProperties hn _ rest hrest

/-- What follows the search for a place begins with one whose slot is there. -/
theorem covers_evalPlace (hn : params ≤ n) (e : Expr) (he : e.Fits params n)
    {f : Place → Checked Value} {l : Place → Evaluation Value}
    (hf : ∀ place, Within n place → Covers n (f place) (l place)) :
    Covers n (evalPlace? e >>= f) (evalPlace e >>= l) := by
  cases e with
  | param slot name =>
    rw [evalPlace?, evalPlace]
    exact hf _ (Nat.lt_of_lt_of_le (all_param.1 he) hn)
  | declared slot name =>
    rw [evalPlace?, evalPlace]
    exact hf _ (all_declared.1 he).2
  | unbound name =>
    rw [evalPlace?, evalPlace]
    exact hf _ trivial
  | member object property optional =>
    rw [evalPlace?, evalPlace]
    simp only [bind_assoc, pure_bind]
    exact (covers_evalExpr hn object (all_member.1 he).2).bind fun _ => hf _ trivial
  | index object key optional =>
    rw [evalPlace?, evalPlace]
    obtain ⟨-, hobject, hkey⟩ := all_index.1 he
    simp only [bind_assoc, pure_bind]
    exact (covers_evalExpr hn object hobject).bind fun object =>
      (((covers_evalExpr hn key hkey).bind fun key => covers_askOf key _).keeping _).bind fun _ =>
        hf _ trivial
  | _ => exact fun _ _ hsize => ⟨rfl, hsize⟩

theorem covers_evalReceiver (hn : params ≤ n) (e : Expr) (he : e.Fits params n) :
    Option.Rel (Covers n) (evalReceiver? e) (evalReceiver e) := by
  cases e with
  | member object property optional =>
    rw [evalReceiver?, evalReceiver]
    exact .some <| (covers_evalExpr hn object (all_member.1 he).2).bind fun receiver =>
      ((covers_checkLink optional receiver).keeping _).bind fun _ => covers_pure _
  | index object key optional =>
    rw [evalReceiver?, evalReceiver]
    obtain ⟨-, hobject, hkey⟩ := all_index.1 he
    exact .some <| (covers_evalExpr hn object hobject).bind fun receiver =>
      Covers.bind (Covers.keeping _ ((covers_checkLink optional receiver).bind fun _ =>
        (covers_evalExpr hn key hkey).bind fun key => covers_askOf key _)) fun _ => covers_pure _
  | _ => exact .none

end

/-! ### Statements -/

theorem covers_declareAll (hn : params ≤ n) (declarators : List (Nat × Option Expr))
    (hslots : ∀ slot ∈ declarators.map Prod.fst, slot < n)
    (hinits : ∀ e ∈ declarators.filterMap Prod.snd, e.Fits params n) :
    Covers n (declareAll? declarators) (declareAll declarators) := by
  induction declarators with
  | nil => exact covers_pure ()
  | cons declarator rest ih =>
    obtain ⟨slot, init⟩ := declarator
    obtain ⟨hslot, hrest⟩ := List.forall_mem_cons.1 hslots
    unfold declareAll? declareAll
    cases init with
    | none =>
      exact (covers_pure _).bind fun v => (covers_fillSlot hslot v).bind fun _ => ih hrest hinits
    | some e =>
      obtain ⟨he, hinits⟩ := List.forall_mem_cons.1 hinits
      exact (covers_evalExpr hn e he).bind fun v =>
        (covers_fillSlot hslot v).bind fun _ => ih hrest hinits

mutual

/-- A statement whose slots are there is executed without a failure. -/
theorem covers_execStmt (hn : params ≤ n) (s : Stmt) (hs : s.Fits params n) :
    Covers n (execStmt? s) (execStmt s) := by
  cases s with
  | empty =>
    rw [execStmt?, execStmt]
    exact covers_pure ()
  | expression e =>
    rw [execStmt?, execStmt]
    exact (covers_evalExpr hn e ((Stmt.all_expression.1 hs).1 e List.mem_cons_self)).bind
      fun v => covers_letGo _
  | block statements =>
    rw [execStmt?, execStmt]
    exact covers_execList hn statements (Stmt.all_block.1 hs).2
  | declare declarators =>
    rw [execStmt?, execStmt]
    obtain ⟨hinits, hslots⟩ := Stmt.all_declare.1 hs
    exact covers_declareAll hn declarators (fun slot h => (hslots slot h).2) hinits
  | conditional test consequent alternate =>
    rw [execStmt?, execStmt]
    obtain ⟨⟨htest, -⟩, hconsequent, halternate⟩ := Stmt.all_conditional.1 hs
    refine (covers_evalExpr hn test (htest test List.mem_cons_self)).bind fun test =>
      (covers_askOf test _).bind fun holds => ?_
    split
    · exact covers_execStmt hn consequent hconsequent
    · exact covers_execOption hn alternate halternate
  | returns value =>
    unfold execStmt? execStmt
    cases value with
    | none => exact (covers_pure _).bind fun v => covers_throw _
    | some e =>
      exact (covers_evalExpr hn e ((Stmt.all_returns.1 hs).1 e List.mem_cons_self)).bind
        fun v => covers_throw _

theorem covers_execList (hn : params ≤ n) (statements : List Stmt)
    (h : ∀ s ∈ statements, s.Fits params n) :
    Covers n (execList? statements) (execList statements) := by
  cases statements with
  | nil =>
    rw [execList?, execList]
    exact covers_pure ()
  | cons s rest =>
    rw [execList?, execList]
    obtain ⟨hs, hrest⟩ := List.forall_mem_cons.1 h
    exact (covers_execStmt hn s hs).bind fun _ => covers_execList hn rest hrest

theorem covers_execOption (hn : params ≤ n) (s : Option Stmt) (h : ∀ x ∈ s, x.Fits params n) :
    Covers n (execOption? s) (execOption s) := by
  cases s with
  | none =>
    rw [execOption?, execOption]
    exact covers_pure ()
  | some s =>
    rw [execOption?, execOption]
    exact covers_execStmt hn s (h s rfl)

end

theorem covers_evalBody (hn : params ≤ n) (body : Body) (h : body.Fits params n) :
    Covers n (evalBody? body) (evalBody body) := by
  cases body with
  | expression e => exact covers_evalExpr hn e h
  | statements statements =>
    exact (covers_execList hn statements h).bind fun _ => covers_pure _

end

/-! ### Functions -/

/-- The slots of a compiled text are there. -/
theorem fits_of_compile {source : String} {params : List String} {mode : Mode} {code : Code}
    (h : Code.compile source params mode = .ok code) :
    code.body.Fits code.params.length code.slotCount ∧ code.params.length ≤ code.slotCount := by
  let ρ : Rebinding := ⟨params, params, sourceNames source, fun _ _ => Iff.rfl⟩
  unfold Code.compile at h
  cases hparse : parse source params mode with
  | error e =>
    rw [hparse] at h
    cases h
  | ok program =>
    rw [hparse] at h
    cases h
    obtain ⟨hplaced, hle⟩ := placed_of_parse (ρ := ρ) (List.Subset.refl _) hparse
    exact ⟨hplaced.fits, hle⟩

theorem size_frame (code : Code) (args : List Value) (s : Store) :
    (code.frame args s).slots.size = code.slotCount := by
  rw [Code.frame, List.size_toArray, length_resized]

/-- No text makes evaluation use a slot or a position that is not there.  If it compiles, every
parameter has its slot among those of the parameters, every variable has it between those and the
number of slots, a frame has so many slots, and no step with slots or positions fails, called with
any arguments in any store. -/
theorem no_position_out_of_range {source : String} {params : List String} {mode : Mode}
    {code : Code} (h : Code.compile source params mode = .ok code) (args : List Value)
    (s : Store) :
    code.body.Fits code.params.length code.slotCount ∧
      (code.frame args s).slots.size = code.slotCount ∧
      code.call? args s = some (code.call args s) := by
  obtain ⟨hfits, hle⟩ := fits_of_compile h
  have hsize := size_frame code args s
  obtain ⟨hrun, -⟩ := covers_evalBody hle code.body hfits (references args) _ hsize
  refine ⟨hfits, hsize, ?_⟩
  unfold Code.call? Code.call
  dsimp only
  rw [hrun]
  rfl

theorem compile_copied : Code.compile "let b = a; b" ["a"] .statement =
    .ok ⟨.statement, ["a"], .statements [.declare [(1, some (.param 0 "a"))],
      .expression (.declared 1 "b")], 2⟩ := by
  cbv

/-- A variable comes after the parameter that it is a copy of, also without an argument. -/
theorem copied_in_range :
    ∃ code, Code.compile "let b = a; b" ["a"] .statement = .ok code ∧
      code.body.Fits code.params.length code.slotCount ∧
      (code.frame [] .initial).slots.size = code.slotCount ∧
      code.call? [] .initial = some (code.call [] .initial) :=
  ⟨_, compile_copied, no_position_out_of_range compile_copied [] .initial⟩

end LiveMarkup.Eval
