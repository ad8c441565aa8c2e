import LiveMarkup.Eval.Evaluator
import LiveMarkup.Proofs.Change

/-!
# The writes of a run

An assignment or an update computes a place and a value and then writes the value there.  The trace
of a run lists these writes in order, each with the frame as it is when the write is made.  It
follows the run: where that goes depends on the values that have been computed so far, and a run
that ends early makes no more writes.

What a write may change is read off it.  It puts a value into a cell, and then the value that it
writes, or if that is a cell the value held there; or it puts its value in place of a property.

## Main definitions

* `Write`, `Trace` — a write, and the writes of a computation.
* `Expr.writes`, `Stmt.writes`, `Code.writes` — the writes of an expression, a statement and a call.
* `Write.Replaces` — a write that puts its value in place of a property of an object.
* `making` — the permission to make the changes that come with given writes.
-/

namespace LiveMarkup.Eval

open Syntax

/-- A value on its way to a place, and the frame as it is then. -/
structure Write where
  frame : Frame
  place : Place
  value : Value

/-- The writes of a computation in order, from what is held around it and the frame in which it
begins. -/
abbrev Trace := List Entity → Frame → List Write

namespace Trace

/-- No writes. -/
def silent : Trace := fun _ _ => []

/-- One write. -/
def write (place : Place) (v : Value) : Trace := fun _ frame => [⟨frame, place, v⟩]

/-- The writes of a computation around which more is held. -/
def within (es : List Entity) (t : Trace) : Trace := fun held frame => t (es ++ held) frame

/-- The writes `t` of `k`, and then those that come after its result, if it has one. -/
def andThen {α : Type} (t : Trace) (k : Evaluation α) (next : α → Trace) : Trace :=
  fun held frame =>
    t held frame ++
      match (k held).run.run frame with
      | (.ok x, frame) => next x held frame
      | (.error _, _) => []

/-- The writes that come after the result of `k`, which makes none itself. -/
def after {α : Type} (k : Evaluation α) (next : α → Trace) : Trace := silent.andThen k next

end Trace

/-- The value that an assignment gives to a place. -/
def assigned (op : AssignOp) (place : Place) (value : Expr) : Evaluation Value :=
  match op with
  | .assign => evalExpr value
  | .compound op => do
    let current ← readPlace place
    holding current.entity?.toList do
      let operand ← evalExpr value
      askOf operand fun s operand => binary s op current operand

end LiveMarkup.Eval

namespace LiveMarkup.Syntax

open Eval

/-! ### Expressions -/

mutual

/-- The writes of an expression. -/
def Expr.writes : Expr → Trace
  | .literal _ | .param .. | .declared .. | .global _ | .unbound _ => .silent
  | .array items => listWrites [] items
  | .object properties => propertiesWrites .empty properties
  | .member object _ _ => object.writes
  | .index object key optional =>
    object.writes.andThen (evalExpr object) fun target =>
      (Trace.after (checkLink optional target) fun _ => key.writes).within target.entity?.toList
  | .call callee args optional =>
    match evalReceiver callee with
    | some receiver =>
      callee.receiverWrites.andThen receiver fun receiver =>
        (listWrites [] args).within receiver.1.entity?.toList
    | none =>
      callee.writes.andThen (evalExpr callee) fun f =>
        .after (askOf f Store.unwrap) fun f =>
          (if optional && f.isNullish then Trace.silent else listWrites [] args).within
            f.entity?.toList
  | .optionalChain chain => chain.writes
  | .unary op operand => if isUnboundTypeOf op operand then .silent else operand.writes
  | .binary _ left right =>
    left.writes.andThen (evalExpr left) fun v => right.writes.within v.entity?.toList
  | .logical op left right =>
    left.writes.andThen (evalExpr left) fun v =>
      .after (ask fun s => stopsAt s op v) fun stops =>
        if stops then .silent else right.writes.within v.entity?.toList
  | .conditional test consequent alternate =>
    test.writes.andThen (evalExpr test) fun test =>
      .after (askOf test Store.isTruthy) fun holds =>
        if holds then consequent.writes else alternate.writes
  | .assign op target value =>
    target.placeWrites.andThen (evalPlace target) fun place =>
      Trace.andThen
        (match op with
          | .assign => value.writes.within place.entities
          | .compound _ =>
            (Trace.after (readPlace place) fun current =>
              value.writes.within current.entity?.toList).within place.entities)
        (keeping place.entities (assigned op place value)) (.write place)
  | .update op _ target =>
    target.placeWrites.andThen (evalPlace target) fun place =>
      .after (keeping place.entities do askOf (← readPlace place) Store.toNumber) fun old =>
        .write place (.number (updated op old))

/-- The writes of expressions from left to right, after those that are `done`. -/
def listWrites (done : List Value) : List Expr → Trace
  | [] => .silent
  | e :: rest =>
    (e.writes.within (references done)).andThen (keeping (references done) (evalExpr e)) fun v =>
      listWrites (done ++ [v]) rest

/-- The writes of the properties of an object literal from left to right, after those that are
`done`. -/
def propertiesWrites (done : Bindings Value) : List (String × Expr) → Trace
  | [] => .silent
  | (key, e) :: rest =>
    (e.writes.within (references done.values)).andThen
      (keeping (references done.values) (evalExpr e)) fun v =>
        .after (keeping (references (done.insert key v).values)
          (letGo (references (done.find? key).toList))) fun _ =>
            propertiesWrites (done.insert key v) rest

/-- The writes on the way to a place. -/
def Expr.placeWrites : Expr → Trace
  | .member object _ _ => object.writes
  | .index object key _ =>
    object.writes.andThen (evalExpr object) fun object => key.writes.within object.entity?.toList
  | _ => .silent

/-- The writes on the way to the receiver of a member call and the name of the member. -/
def Expr.receiverWrites : Expr → Trace
  | .member object _ _ => object.writes
  | .index object key optional =>
    object.writes.andThen (evalExpr object) fun receiver =>
      (Trace.after (checkLink optional receiver) fun _ => key.writes).within
        receiver.entity?.toList
  | _ => .silent

end

/-! ### Statements and functions -/

/-- The writes of a declaration. -/
def declarationWrites : List (Nat × Option Expr) → Trace
  | [] => .silent
  | (slot, some e) :: rest =>
    e.writes.andThen (evalExpr e) fun v =>
      .after (fillSlot slot v) fun _ => declarationWrites rest
  | (slot, none) :: rest => .after (fillSlot slot .undefined) fun _ => declarationWrites rest

mutual

/-- The writes of a statement. -/
def Stmt.writes : Stmt → Trace
  | .empty | .returns none => .silent
  | .expression e | .returns (some e) => e.writes
  | .block statements => statementsWrites statements
  | .declare declarators => declarationWrites declarators
  | .conditional test consequent alternate =>
    test.writes.andThen (evalExpr test) fun test =>
      .after (askOf test Store.isTruthy) fun holds =>
        if holds then consequent.writes else alternateWrites alternate

/-- The writes of statements one after another. -/
def statementsWrites : List Stmt → Trace
  | [] => .silent
  | s :: rest => s.writes.andThen (execStmt s) fun _ => statementsWrites rest

/-- The writes of a statement if there is one. -/
def alternateWrites : Option Stmt → Trace
  | none => .silent
  | some s => s.writes

end

/-- The writes of what a function says to do. -/
def Body.writes : Body → Trace
  | .expression e => e.writes
  | .statements list => statementsWrites list

end LiveMarkup.Syntax

namespace LiveMarkup.Eval

open Syntax

/-- The writes of a call of a function. -/
def Code.writes (code : Code) (args : List Value) (s : Store) : List Write :=
  code.body.writes (references args) (code.frame args s)

/-! ### What a write changes -/

/-- A write puts its value in place of a property of an object: it goes to an object where no cell
is in the property, or past a cell to the object that is held, whatever is in the property. -/
def Write.Replaces (w : Write) (r : ObjectRef) (key : String) : Prop :=
  match w.place with
  | .property (.object o) name =>
    o = r ∧ name = key ∧ ∀ c, (w.frame.store.properties r).find? key ≠ some (.cell c)
  | .property (.cell c) name => name = key ∧ name ≠ "value" ∧ w.frame.store.held c = .object r
  | _ => False

/-- The permission to make the changes that come with given writes, each in the store in which it is
made, and those that come without one. -/
def making (ws : List Write) (s : Store) : Change → Prop
  | .write _ v => ∃ w ∈ ws, w.frame.store = s ∧ v = s.unwrap w.value
  | .setProperties r properties => ∃ w ∈ ws, w.frame.store = s ∧
      ∃ key, w.Replaces r key ∧ properties = (s.properties r).insert key w.value
  | x => x.IsHandling

theorem making_mono {ws ws' : List Write} (hsub : ws ⊆ ws') {s : Store} {x : Change}
    (h : making ws s x) : making ws' s x := by
  cases x
  case write =>
    obtain ⟨w, hw, hmade⟩ := h
    exact ⟨w, hsub hw, hmade⟩
  case setProperties =>
    obtain ⟨w, hw, hmade⟩ := h
    exact ⟨w, hsub hw, hmade⟩
  all_goals exact h

end LiveMarkup.Eval
