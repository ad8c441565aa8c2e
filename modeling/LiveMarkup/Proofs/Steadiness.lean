import LiveMarkup.Eval.Evaluator
import LiveMarkup.Proofs.DeclaredSlots
import LiveMarkup.Proofs.Variables

/-!
# Steady runs

A name that is bound to a cell gives the cell, and what the cell holds is read where the value is
used.  A write in between shows there: the value is kept as an operand while the other one is
computed, or in a variable.  And a number that is written over an equal one does not count as a
change, so a zero stays when a zero of the other sign is written.

A run is steady if no write shows in a value that is kept, and none puts a number over one that is
equal but not the same.

## Main definitions

* `Expr.IsPlain`, `Stmt.IsPlain`, `Body.IsPlain` — what is made of literals, names, operators and
  assignments to names.
* `Frame.WritesSteadily` — a write that shows in no value that is kept.
* `Expr.Steady`, `Stmt.Steady`, `Body.Steady` — in the run that begins in a frame all writes are
  such.
-/

namespace LiveMarkup.Syntax

/-! ### Plain programs -/

/-- A name, other than that of a builtin. -/
def Expr.IsName : Expr → Prop
  | .param .. | .declared .. | .unbound _ => True
  | _ => False

instance : DecidablePred Expr.IsName
  | .param .. | .declared .. | .unbound _ => isTrue trivial
  | .literal _ | .array _ | .object _ | .global _ | .member .. | .index .. | .call .. => isFalse id
  | .optionalChain _ | .unary .. | .binary .. | .logical .. | .conditional .. => isFalse id
  | .assign .. | .update .. => isFalse id

/-- A literal primitive, a name, an operator or an assignment to a name. -/
def Expr.IsPlain : Expr → Prop
  | .literal _ | .param .. | .declared .. | .global _ | .unbound _ => True
  | .unary .. | .binary .. | .logical .. | .conditional .. => True
  | .assign _ target _ | .update _ _ target => target.IsName
  | _ => False

instance : DecidablePred Expr.IsPlain
  | .literal _ | .param .. | .declared .. | .global _ | .unbound _ => isTrue trivial
  | .unary .. | .binary .. | .logical .. | .conditional .. => isTrue trivial
  | .assign _ target _ | .update _ _ target => inferInstanceAs (Decidable target.IsName)
  | .array _ | .object _ | .member .. | .index .. | .call .. | .optionalChain _ => isFalse id

/-- A statement whose expressions are made of plain ones. -/
def Stmt.IsPlain (s : Stmt) : Prop := ∀ e ∈ s.expressions, e.All Expr.IsPlain

instance (e : Expr) : Decidable (e.All Expr.IsPlain) :=
  inferInstanceAs (Decidable (∀ x ∈ e.subterms, x.IsPlain))

instance : DecidablePred Stmt.IsPlain := fun s =>
  inferInstanceAs (Decidable (∀ e ∈ s.expressions, e.All Expr.IsPlain))

/-- What is made of plain expressions. -/
def Body.IsPlain : Body → Prop
  | .expression e => e.All Expr.IsPlain
  | .statements list => ∀ s ∈ list, s.All Stmt.IsPlain

instance : DecidablePred Body.IsPlain
  | .expression e => inferInstanceAs (Decidable (e.All Expr.IsPlain))
  | .statements list => inferInstanceAs (Decidable (∀ s ∈ list, ∀ x ∈ s.parts, x.IsPlain))

/-- The expression whose value an assignment to a name gives the name. -/
def AssignOp.value (op : AssignOp) (target operand : Expr) : Expr :=
  match op with
  | .assign => operand
  | .compound op => .binary op target operand

end LiveMarkup.Syntax

namespace LiveMarkup.Eval

open Syntax

/-! ### Writes -/

/-- Whatever the computation gives has the property in the frame that it leaves. -/
def Evaluation.Leads {α : Type} (k : Evaluation α) (held : List Entity) (f : Frame)
    (P : α → Frame → Prop) : Prop :=
  ∀ x g, (k held).run.run f = (.ok x, g) → P x g

/-- Writing `v` to a slot shows in no value that is `kept` and in no variable, and puts no number
over an equal one that is not the same. -/
structure Frame.WritesSteadily (f : Frame) (kept : List Value) (i : Nat) (v : Value) : Prop where
  kept : ∀ p ∈ kept, (f.writeSlot i v).store.unwrap p = f.store.unwrap p
  declared : ∀ j, f.params ≤ j →
    (f.writeSlot i v).store.unwrap (f.slot j) = f.store.unwrap (f.slot j)
  numbers : ∀ x y, i < f.params → f.store.unwrap (f.slot i) = .number x →
    f.store.unwrap v = .number y → (x == y) = true → x = y

/-- Assigning `v` to a name is a steady write, if the name is bound. -/
def Frame.AssignsSteadily (f : Frame) (kept : List Value) (target : Expr) (v : Value) : Prop :=
  match target with
  | .param i _ | .declared i _ => f.WritesSteadily kept i v
  | _ => True

/-- The value of an expression that may be missing. -/
def evalOption : Option Expr → Evaluation Value
  | some e => evalExpr e
  | none => pure .undefined

end LiveMarkup.Eval

namespace LiveMarkup.Syntax

open Eval

/-! ### Runs -/

/-- In the evaluation of a plain expression that begins in a frame, with certain things held around
it and values kept, all writes are steady. -/
def Expr.Steady : Expr → List Entity → List Value → Frame → Prop
  | .unary _ operand, held, kept, f => operand.Steady held kept f
  | .binary _ left right, held, kept, f =>
    left.Steady held kept f ∧
      (evalExpr left).Leads held f fun v g => right.Steady (v.entity?.toList ++ held) (v :: kept) g
  | .logical op left right, held, kept, f =>
    left.Steady held kept f ∧
      (evalExpr left).Leads held f fun v g =>
        stopsAt g.store op v = false → right.Steady (v.entity?.toList ++ held) kept g
  | .conditional test consequent alternate, held, kept, f =>
    test.Steady held kept f ∧
      Evaluation.Leads (do askOf (← evalExpr test) Store.isTruthy) held f fun b g =>
        (b = true → consequent.Steady held kept g) ∧ (b = false → alternate.Steady held kept g)
  | .assign op target operand, held, kept, f =>
    (match op with
      | .assign => operand.Steady held kept f
      | .compound _ => (evalExpr target).Leads held f fun v g =>
        operand.Steady (v.entity?.toList ++ held) (v :: kept) g) ∧
      (evalExpr (op.value target operand)).Leads held f fun v g => g.AssignsSteadily kept target v
  | .update op _ target, held, kept, f =>
    Evaluation.Leads (do askOf (← evalExpr target) Store.toNumber) held f fun x g =>
      g.AssignsSteadily kept target (.number (updated op x))
  | _, _, _, _ => True

/-- The same for an expression that may be missing. -/
def optionSteady : Option Expr → List Entity → Frame → Prop
  | some e, held, f => e.Steady held [] f
  | none, _, _ => True

/-- The same for the first values of a declaration. -/
def declaratorsSteady : List (Nat × Option Expr) → List Entity → Frame → Prop
  | [], _, _ => True
  | (slot, init) :: rest, held, f =>
    optionSteady init held f ∧
      Evaluation.Leads (do fillSlot slot (← evalOption init)) held f fun _ g =>
        declaratorsSteady rest held g

mutual

/-- In the execution of a statement that begins in a frame all writes are steady. -/
def Stmt.Steady : Stmt → List Entity → Frame → Prop
  | .empty, _, _ => True
  | .expression e, held, f => e.Steady held [] f
  | .block statements, held, f => statementsSteady statements held f
  | .declare declarators, held, f => declaratorsSteady declarators held f
  | .conditional test consequent alternate, held, f =>
    test.Steady held [] f ∧
      Evaluation.Leads (do askOf (← evalExpr test) Store.isTruthy) held f fun b g =>
        (b = true → consequent.Steady held g) ∧ (b = false → alternateSteady alternate held g)
  | .returns value, held, f => optionSteady value held f

/-- The same for statements one after another. -/
def statementsSteady : List Stmt → List Entity → Frame → Prop
  | [], _, _ => True
  | s :: rest, held, f =>
    s.Steady held f ∧ (execStmt s).Leads held f fun _ g => statementsSteady rest held g

/-- The same for a statement if there is one. -/
def alternateSteady : Option Stmt → List Entity → Frame → Prop
  | none, _, _ => True
  | some s, held, f => s.Steady held f

end

/-- In the run of a program all writes are steady. -/
def Body.Steady : Body → List Entity → Frame → Prop
  | .expression e, held, f => e.Steady held [] f
  | .statements list, held, f => statementsSteady list held f

end LiveMarkup.Syntax
