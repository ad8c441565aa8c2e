import LiveMarkup.Proofs.OptionalLinks
import LiveMarkup.Proofs.SeenThrough

/-!
# Members that are read and members that are called

Reading a member and calling one look at the receiver in different ways.  Reading asks a cell for
its own members first; calling looks through the cell at once.  Reading finds functions among the
properties of an object and the elements of an array; calling finds them only among the properties.

So a function that can be read is the function that is called if it is a property of an object, or
of an object that a cell holds.  It is not called if it is an element of an array, or what a cell
itself answers.

## Main definitions

* `Value.answers` — the members that a cell has itself.
* `calling` — the call of a member, when its receiver and its arguments have been computed.

## Main results

* `read_function_is_called` — what the call of a member does where reading it gives a function.
* `readable_functions_are_not_called` — functions that can be read and are not called.
-/

namespace LiveMarkup

open Eval Syntax

/-! ### Reading -/

/-- Whether a value is a cell that answers a member itself. -/
def Value.answers (v : Value) (name : String) : Bool :=
  match v with
  | .cell _ => ["value", "previousValue", "hasPreviousValue"].contains name
  | _ => false

namespace Store

variable {s : Store} {r m v : Value} {name : String} {fn : Function}

/-- A value that holds no cell in a cell comes at once to the end of its chain. -/
theorem resolve_of_unwrap (h : ¬(s.unwrap v).IsCell) : s.resolve v = s.unwrap v := by
  rw [← s.followCells_eq_resolve (n := s.cells.size + 2) (by omega)]
  cases v with
  | cell c =>
    show s.followCells (s.cells.size + 1) (s.held c) = s.held c
    have hheld : ¬(s.held c).IsCell := h
    cases hvalue : s.held c with
    | cell d => exact absurd ⟨d, hvalue⟩ hheld
    | _ => rfl
  | _ => rfl

/-- A member that no cell answers is read from what is held. -/
theorem getMember_of_not_answers (hheld : ¬(s.unwrap r).IsCell) (h : r.answers name = false) :
    getMember s r name = plainMember s (s.unwrap r) name := by
  cases r with
  | cell c =>
    rw [← s.resolve_of_unwrap hheld]
    simp only [Value.answers, List.contains_cons, List.contains_nil, Bool.or_false,
      Bool.or_eq_false_iff, beq_eq_false_iff_ne, ne_eq] at h
    obtain ⟨hvalue, hprevious, hhas⟩ := h
    simp only [getMember]
  | _ => rfl

/-- A function is read from an object or an array only. -/
theorem plainMember_function (hread : plainMember s v name = .ok m)
    (hm : s.unwrap m = .function fn) :
    (∃ o, v = .object o ∧ (s.properties o).find? name = some m) ∨
      ∃ a, v = .array a ∧ (indexOfKey? name).isSome := by
  cases v with
  | undefined | null => cases hread
  | object o =>
    cases hread
    cases hfind : (s.properties o).find? name with
    | some found => exact .inl ⟨o, rfl, by simp [ownProperty, hfind]⟩
    | none => simp [ownProperty, hfind, unwrap] at hm
  | array a =>
    cases hread
    refine .inr ⟨a, rfl, ?_⟩
    by_contra hindex
    have hnone : indexOfKey? name = none := by simpa using hindex
    rw [ownProperty, hnone] at hm
    split at hm <;> cases hm
  | string t =>
    cases hread
    simp only [ownProperty] at hm
    split at hm
    · cases hm
    · split at hm <;> cases hm
  | function f =>
    cases hread
    split at hm <;> cases hm
  | _ =>
    cases hread
    cases hm

end Store

/-! ### Calling -/

namespace Store

variable {s : Store} {r m : Value} {name : String} {fn : Function} {args : List Value}
  {optional : Bool}

/-- A function that is a property of an object is called. -/
theorem callMember_object {o : ObjectRef} (hr : s.unwrap r = .object o)
    (hfind : (s.properties o).find? name = some m) (hm : s.unwrap m = .function fn) :
    callMember s r name args optional = callMemberFunction s fn args := by
  unfold callMember
  have hmember : ownMember? s (.object o) name = some m := hfind
  simp only [hr, hmember, hm, Value.nullishName?]

/-- No method of an array is named like an index. -/
theorem callBuiltin_index (a : ArrayRef) (args : List Value) (h : (indexOfKey? name).isSome) :
    s.callBuiltin (.array a) name args = none := by
  have hmethods : ∀ found ∈ "toString" :: "valueOf" :: ArrayMethod.named.map Prod.fst,
      indexOfKey? found = none := by
    decide
  have hname : name ∉ "toString" :: "valueOf" :: ArrayMethod.named.map Prod.fst := by
    intro hmem
    rw [hmethods name hmem] at h
    cases h
  rw [List.mem_cons, List.mem_cons, not_or, not_or] at hname
  obtain ⟨htext, hself, hown⟩ := hname
  have hlookup : ArrayMethod.named.lookup name = none := by
    refine List.lookup_eq_none_iff.2 fun entry hentry => ?_
    have hne : name ≠ entry.1 := fun heq => hown (heq ▸ List.mem_map_of_mem hentry)
    simpa using hne
  have hcommon : s.commonMethod? (.array a) name = none := by
    unfold commonMethod?
    split
    · contradiction
    · contradiction
    · rfl
  rw [callBuiltin, ownMethod?, hlookup, hcommon]
  rfl

/-- Nothing is called where the member is an element of an array. -/
theorem callMember_element {a : ArrayRef} (hr : s.unwrap r = .array a)
    (h : (indexOfKey? name).isSome) :
    callMember s r name args optional =
      (s, if optional then .ok none else .error (.notCallable ("object." ++ name))) := by
  unfold callMember callBuiltinMember
  simp only [hr, Value.nullishName?, ownMember?, callBuiltin_index a args h]
  split <;> rfl

/-- No member that cells answer is a method that changes an array. -/
theorem mutatesArray_of_answers (h : r.answers name = true) : mutatesArray name = false := by
  cases r with
  | cell c =>
    have hnames : ∀ found ∈ ["value", "previousValue", "hasPreviousValue"],
        mutatesArray found = false := by
      decide
    exact hnames name (List.contains_iff_mem.1 h)
  | _ => cases h

/-- A call does not ask a cell for its own members, but what the cell holds. -/
theorem callMember_of_answers (hheld : ¬(s.unwrap r).IsCell) (h : r.answers name = true) :
    callMember s r name args optional = callMember s (s.unwrap r) name args optional := by
  have hend : s.unwrap (s.unwrap r) = s.unwrap r := unwrap_of_not_isCell hheld
  have hafter (t : Store) (receiver : Value) :
      afterMethod t receiver (s.unwrap r) name = t := by
    unfold afterMethod
    split
    · rw [mutatesArray_of_answers h]
      rfl
    · rfl
  unfold callMember callBuiltinMember
  simp only [hend, hafter]

end Store

/-- Calls a member, when its receiver and its arguments have been computed: the receiver is held
during the call, and so are the arguments. -/
def calling (receiver : Value) (args : List Value) (call : Evaluation Value) : Evaluation Value :=
  holding receiver.entity?.toList (holding (references args) call)

section Outcomes

variable {r : Value} {name : String} {vs : List Value} {held : List Entity} {frame f g : Frame}

/-- A call of a member computes its receiver and its arguments, and then calls. -/
theorem outcome_call {callee : Expr} {args : List Expr} {optional : Bool}
    {receiver : Evaluation (Value × String)} (hreceiver : evalReceiver callee = some receiver)
    (hrun : receiver.outcome held frame = (.ok (r, name), f))
    (hargs : (evalList [] args).outcome (r.entity?.toList ++ held) f = (.ok vs, g)) :
    (evalExpr (.call callee args optional)).outcome held frame =
      (calling r vs (callMemberOf r name vs optional)).outcome held g := by
  rw [evalExpr, hreceiver]
  refine (Evaluation.outcome_bind_ok hrun).trans ?_
  have hinner := Evaluation.outcome_bind_ok
    (f := fun args => holding (references args) (callMemberOf r name args optional)) hargs
  exact (Evaluation.outcome_holding hinner).trans (Evaluation.outcome_holding rfl).symm

/-- What is called decides how the call ends. -/
theorem outcome_calling_congr {k l : Evaluation Value}
    (h : ∀ held, k.outcome held g = l.outcome held g) :
    (calling r vs k).outcome held g = (calling r vs l).outcome held g := by
  have hinner : (holding (references vs) k).outcome (r.entity?.toList ++ held) g =
      (holding (references vs) l).outcome (r.entity?.toList ++ held) g :=
    (Evaluation.outcome_holding (h _)).trans (Evaluation.outcome_holding rfl).symm
  exact (Evaluation.outcome_holding hinner).trans (Evaluation.outcome_holding rfl).symm

/-- How the call of a member ends. -/
def Eval.ofCall : Except EvalError (Option Value) → Except Interrupt Value
  | .ok (some v) => .ok v
  | .ok none => .error .shortCircuit
  | .error e => .error (.failed e)

theorem outcome_callMemberOf_eq (r : Value) (name : String) (vs : List Value) (optional : Bool)
    (held : List Entity) (g : Frame) :
    (callMemberOf r name vs optional).outcome held g =
      (ofCall (callMember g.store r name vs optional).2,
        { g with store := (callMember g.store r name vs optional).1 }) := by
  rcases hcall : callMember g.store r name vs optional with ⟨t, result⟩
  have hattempt : (attempt fun s => callMember s r name vs optional).outcome held g =
      (result.mapError .failed, { g with store := t }) := Evaluation.outcome_attempt hcall
  cases result with
  | error e => exact Evaluation.outcome_bind_error hattempt
  | ok found =>
    refine (Evaluation.outcome_bind_ok hattempt).trans ?_
    cases found <;> rfl

theorem outcome_callFunction (fn : Function) (vs : List Value) (held : List Entity) (g : Frame) :
    (attempt fun s => s.callFunction fn vs).outcome held g =
      (ofCall (callMemberFunction g.store fn vs).2,
        { g with store := (callMemberFunction g.store fn vs).1 }) := by
  rcases hcall : g.store.callFunction fn vs with ⟨t, result⟩
  refine (Evaluation.outcome_attempt hcall).trans ?_
  unfold callMemberFunction
  rw [hcall]
  cases result <;> rfl

end Outcomes

/-- The call of a member whose reading gives a function, or a cell that holds one.  If the receiver
is an object, or a cell that holds one, and no cell answers the member itself, then the call is the
call of that function with the arguments.

Otherwise it is not.  For a member that a cell answers itself, the call is the call of the member of
that name of what the cell holds.  For an element of an array nothing is called: the call ends the
chain if it is optional, and fails if not. -/
theorem read_function_is_called {callee : Expr} {args : List Expr} {optional : Bool}
    {held : List Entity} {frame f g : Frame} {receiver : Evaluation (Value × String)}
    {r m : Value} {name : String} {vs : List Value} {fn : Function}
    (hreceiver : evalReceiver callee = some receiver)
    (hrun : receiver.outcome held frame = (.ok (r, name), f))
    (hargs : (evalList [] args).outcome (r.entity?.toList ++ held) f = (.ok vs, g))
    (hheld : ¬(g.store.unwrap r).IsCell) (hread : getMember g.store r name = .ok m)
    (hm : g.store.unwrap m = .function fn) :
    let result := (evalExpr (.call callee args optional)).outcome held frame
    let ends (call : Evaluation Value) := result = (calling r vs call).outcome held g
    (r.answers name = true → ends (callMemberOf (g.store.unwrap r) name vs optional)) ∧
      (r.answers name = false →
        (∃ o, g.store.unwrap r = .object o) ∧ ends (attempt fun s => s.callFunction fn vs) ∨
        (∃ a, g.store.unwrap r = .array a) ∧
          ends (if optional then throw .shortCircuit
            else fail (.notCallable ("object." ++ name)))) := by
  intro result ends
  have hends {call : Evaluation Value} (h : ∀ held,
      (callMemberOf r name vs optional).outcome held g = call.outcome held g) : ends call :=
    (outcome_call hreceiver hrun hargs).trans (outcome_calling_congr h)
  refine ⟨fun hanswers => hends fun held => ?_, fun hplain => ?_⟩
  · rw [outcome_callMemberOf_eq, outcome_callMemberOf_eq,
      Store.callMember_of_answers hheld hanswers]
  · rw [Store.getMember_of_not_answers hheld hplain] at hread
    obtain ⟨o, ho, hfind⟩ | ⟨a, ha, hindex⟩ := Store.plainMember_function hread hm
    · refine .inl ⟨⟨o, ho⟩, hends fun held => ?_⟩
      rw [outcome_callMemberOf_eq, outcome_callFunction, Store.callMember_object ho hfind hm]
    · refine .inr ⟨⟨a, ha⟩, hends fun held => ?_⟩
      rw [outcome_callMemberOf_eq, Store.callMember_element ha hindex]
      cases optional <;> rfl

/-- A cell that holds an object, with a cell that holds a function in a property. -/
def handlerStore : Store where
  objects := #[Bindings.ofList [("f", .cell ⟨1⟩)]]
  cells := #[{ held := .object ⟨0⟩ }, { held := .function (.host .echo 0) }]

/-- The function is called through both cells. -/
theorem handler_is_called :
    let frame : Frame := ⟨#[.cell ⟨0⟩, .bool true], 2, handlerStore⟩
    getMember handlerStore (.cell ⟨0⟩) "f" = .ok (.cell ⟨1⟩) ∧
      ((evalExpr (.call (.member (.param 0 "o") "f" false) [.param 1 "x"] false)).outcome []
        frame).1 = .ok (.bool true) := by
  intro frame
  have hcall := (@read_function_is_called (.member (.param 0 "o") "f" false) [.param 1 "x"] false []
    frame frame frame _ _ _ _ _ (.host .echo 0) rfl rfl rfl (by rintro ⟨_, ⟨⟩⟩) rfl rfl).2 rfl
  refine ⟨rfl, ?_⟩
  obtain ⟨-, hends⟩ | ⟨⟨_, harray⟩, -⟩ := hcall
  · rw [hends]
    rfl
  · cases harray

/-- A cell that holds a function, an object with another function, and an array with a function. -/
def unheardStore : Store where
  objects := #[Bindings.ofList [("previousValue", .function (.host .argc 1))]]
  arrays := #[[.function (.host .echo 0)]]
  cells := #[{ held := .function (.host .echo 0) }]

/-- The expression `c.previousValue`. -/
def previousRead : Expr := .member (.param 0 "c") "previousValue" false

/-- The statements `c = o; return e`. -/
def afterReplacing (e : Expr) : Code where
  mode := .statement
  params := ["c", "o", "x"]
  body := .statements
    [.expression (.assign .assign (.param 0 "c") (.param 1 "o")), .returns (some e)]
  slotCount := 3

/-- The expression `list[k]`. -/
def elementRead : Expr := .index (.param 0 "list") (.param 1 "k") false

/-- A frame in which the element is a function. -/
def elementFrame : Frame := ⟨#[.array ⟨0⟩, .string "0", .bool true], 3, unheardStore⟩

/-- Functions that can be read and are not called.  The previous value of a cell that has been given
an object is what the cell held before, and its call is the call of the object's property of that
name, which counts its arguments.  The element of an array is a function, and its call fails. -/
theorem readable_functions_are_not_called :
    let args : List Value := [.cell ⟨0⟩, .object ⟨0⟩, .bool true]
    (unheardStore.callFunction (.host .echo 0) [.bool true]).2 = .ok (.bool true) ∧
      Code.compile "c = o; return c.previousValue(x)" ["c", "o", "x"] .statement =
        .ok (afterReplacing (.call previousRead [.param 2 "x"] false)) ∧
      ((afterReplacing previousRead).call args unheardStore).2 =
        .ok (.function (.host .echo 0)) ∧
      ((afterReplacing (.call previousRead [.param 2 "x"] false)).call args unheardStore).2 =
        .ok (.number (Number.ofNat 1)) ∧
      Code.compile "list[k](x)" ["list", "k", "x"] .expression =
        .ok ⟨.expression, ["list", "k", "x"],
          .expression (.call elementRead [.param 2 "x"] false), 3⟩ ∧
      ((evalExpr elementRead).outcome [] elementFrame).1 = .ok (.function (.host .echo 0)) ∧
      ((evalExpr (.call elementRead [.param 2 "x"] false)).outcome [] elementFrame).1 =
        .error (.failed (.notCallable "object.0")) := by
  refine ⟨rfl, ?_, rfl, rfl, ?_, rfl, rfl⟩
  · cbv
  · cbv

end LiveMarkup
