import LiveMarkup.Proofs.Confinement
import LiveMarkup.Proofs.Mirroring

/-!
# Every write through a cell notifies or changes nothing

There are five ways to change what is seen through a cell: the gated write, the write of a property
of the held value, the assignment to a name that is bound to the cell, the assignment to a member of
the cell, and the call of a method.  The first four end in a request for a pass wherever they have
changed something.  Methods change the array they are called on without knowing of any cell; which
of them do is told by a list of their names, and the call requests a pass for those on the list.

## Main definitions

* `Store.seen` — what is seen through a cell.
* `BoundName`, `CellWrite`, `CellWrite.run` — the ways to write through a cell.

## Main results

* `Store.callBuiltin_spares` — only the methods on the list change an array.
* `CellWrite.told_run` — what every way to write through a cell does.
* `cell_writes_notify` — whatever the way, a failure changes nothing, and a change is requested to
  be told.
-/

namespace LiveMarkup

open Eval

variable {s t u : Store} {c : CellRef}

/-! ### What is seen through a cell -/

namespace Store

/-- What is seen through a cell: the value it holds, and the contents of what that refers to. -/
def seen (s : Store) (c : CellRef) : Value × Option Contents :=
  (s.held c, (s.held c).entity?.map s.contents)

/-- After `s` has become `t` the same is seen through the cell, or a pass of the cell is queued. -/
def Noted (s t : Store) (c : CellRef) : Prop :=
  t.seen c = s.seen c ∨ (t.cellState c).scheduled = true

/-- What is seen through a cell changes with the cells, the objects and the elements of the array it
holds only. -/
theorem seen_eq (hcells : t.cells = s.cells) (hobjects : t.objects = s.objects)
    (hitems : ∀ r, s.held c = .array r → t.items r = s.items r) : t.seen c = s.seen c := by
  have hstate (d : CellRef) : t.cellState d = s.cellState d := by rw [cellState, cellState, hcells]
  have hheld : t.held c = s.held c := by rw [held, held, hstate]
  rw [seen, seen, hheld]
  refine congrArg _ ?_
  cases hv : s.held c with
  | array r => simp only [Value.entity?, Option.map_some, contents, hitems r hv]
  | object r => simp only [Value.entity?, Option.map_some, contents, properties, hobjects]
  | cell d => simp only [Value.entity?, Option.map_some, contents, held, hstate]
  | _ => rfl

/-- Through a cell that has not been made nothing is seen. -/
theorem seen_of_not_has (h : ¬s.Has c) : s.seen c = (.undefined, none) := by
  simp [seen, held, cellState_of_not_has h, Value.entity?]

theorem noted_of_eq (h : t.seen c = s.seen c) : s.Noted t c := .inl h

/-- Whatever has changed, a request afterwards sees to it that it is told. -/
theorem noted_trigger (h : t.Has c ↔ s.Has c) : s.Noted (t.trigger c) c := by
  by_cases hc : t.Has c
  · right
    rw [cellState_trigger, if_pos ⟨rfl, hc⟩, CellState.request]
  · left
    rw [seen_of_not_has fun htrigger => hc (has_trigger.1 htrigger),
      seen_of_not_has fun hs => hc (h.2 hs)]

/-- What nobody sees makes no difference. -/
theorem Noted.of_sameContents (h : s.Noted t c) (hsame : u.SameContents t) : s.Noted u c := by
  have hseen : u.seen c = t.seen c :=
    seen_eq hsame.cells hsame.objects fun r _ => by rw [items, items, hsame.arrays]
  have hstate : u.cellState c = t.cellState c := by rw [cellState, cellState, hsame.cells]
  rw [Noted, hseen, hstate]
  exact h

/-! ### The gated write and properties -/

theorem noted_setCell (s : Store) (c : CellRef) (v : Value) : s.Noted (s.setCell c v).1 c := by
  unfold setCell
  split
  · exact noted_trigger has_modifyCell
  · exact noted_of_eq rfl

/-- Texts make no cells. -/
theorem Evaluates.has (h : s.Evaluates t) : t.Has c ↔ s.Has c := by
  refine h.relates (R := fun s t => t.Has c ↔ s.Has c) (fun _ => Iff.rfl)
    (fun _ _ _ hst htu => Iff.trans htu hst) fun u x hx => ?_
  cases x with
  | trigger d => exact has_trigger
  | write d v => exact has_trigger.trans has_modifyCell
  | setItems | setProperties | newArray | newObject | notice | leave | detach => exact Iff.rfl
  | _ => exact hx.elim

theorem noted_setCellProperty {key : String} {v : Value}
    (h : s.setCellProperty c key v = .ok t) : s.Noted t c := by
  unfold setCellProperty at h
  cases hwrite : s.setProperty (s.held c) key v with
  | error e => rw [hwrite] at h; cases h
  | ok u =>
    rw [hwrite] at h
    cases h
    exact noted_trigger (evaluates_setProperty hwrite).has

/-! ### Methods -/

/-- What a builtin method leaves alone: all cells and objects, and all arrays that have been made,
unless it is called on an array and on the list of those that change it. -/
structure Spared (s t : Store) (changes : Bool) : Prop where
  cells : t.cells = s.cells
  objects : t.objects = s.objects
  items (r : ArrayRef) (hmade : s.hasMade (.array r)) (hquiet : changes = false) :
    t.items r = s.items r

theorem Spared.refl (s : Store) (changes : Bool) : s.Spared s changes :=
  ⟨rfl, rfl, fun _ _ _ => rfl⟩

/-- A new array leaves alone all that there are. -/
theorem spared_newArrayValue (s : Store) (vs : List Value) (changes : Bool) :
    s.Spared (s.newArrayValue vs).1 changes where
  cells := rfl
  objects := rfl
  items r hmade _ := by
    have hlt : r.id < s.arrays.size := of_decide_eq_true hmade
    exact (s.items_newArray vs r).trans (if_neg (Nat.ne_of_lt hlt))

theorem spared_stringMethod (s : Store) (m : StringMethod) (text : String) (args : List Value)
    (changes : Bool) : s.Spared (m.apply text args s).1 changes := by
  cases m
  case split => exact s.spared_newArrayValue _ changes
  all_goals exact .refl s changes

/-- The methods of arrays that are not on the list leave the array as it is. -/
theorem spared_arrayMethod (s : Store) (m : ArrayMethod) (r : ArrayRef) (args : List Value) :
    s.Spared (m.apply r args s).1 m.mutates := by
  cases m
  case push | pop | shift | unshift | reverse | splice => exact ⟨rfl, rfl, nofun⟩
  case slice | concat => exact s.spared_newArrayValue _ _
  all_goals exact .refl s _

/-- A method of a string that fails does nothing. -/
theorem stringMethod_failed {m : StringMethod} {text : String} {args : List Value} {e : EvalError}
    (h : m.apply text args s = (t, .error e)) : t = s := by
  cases m
  case split => cases h
  all_goals exact (congrArg Prod.fst h).symm

/-- Whether the list of the methods that change what they are called on has a method for a value. -/
def editedBy (name : String) : Value → Bool
  | .array _ => mutatesArray name
  | _ => false

/-- A builtin method changes an array only if its name is on the list, and one that fails does
nothing. -/
theorem callBuiltin_spares {receiver : Value} {name : String} {args : List Value}
    {result : Except EvalError Value} (h : s.callBuiltin receiver name args = some (t, result)) :
    s.Spared t (editedBy name receiver) ∧
      (∀ e, result = .error e → t = s) := by
  unfold callBuiltin at h
  cases hown : s.ownMethod? receiver name args with
  | none =>
    rw [hown, Option.none_or, Option.map_eq_some_iff] at h
    obtain ⟨v, -, hv⟩ := h
    cases hv
    exact ⟨.refl s _, fun _ _ => rfl⟩
  | some outcome =>
    rw [hown, Option.some_or] at h
    cases h
    cases receiver <;> simp only [ownMethod?, Option.map_eq_some_iff, reduceCtorEq] at hown
    case string text =>
      obtain ⟨m, -, hm⟩ := hown
      have hspared := s.spared_stringMethod m text args false
      rw [hm] at hspared
      exact ⟨hspared, fun e he => stringMethod_failed (he ▸ hm)⟩
    case array r =>
      obtain ⟨m, hlookup, hm⟩ := hown
      have hspared := s.spared_arrayMethod m r args
      cases hm
      have hlisted : mutatesArray name = m.mutates := by rw [mutatesArray, hlookup, Option.any_some]
      exact ⟨by rwa [editedBy, hlisted], by rintro _ ⟨⟩⟩
    case number x =>
      obtain ⟨_, -, hresult⟩ := hown
      cases hresult
      exact ⟨.refl s _, fun _ _ => rfl⟩

end Store

/-! ### The ways to write -/

/-- A name in an expression that is bound to a cell: the slots of the call, and the parameter that
the name stands for. -/
structure BoundName (c : CellRef) where
  slots : Array Value
  params : Nat
  slot : Nat
  isParam : slot < params
  bound : slots[slot]? = some (.cell c)

/-- The frame of the call over a store. -/
def BoundName.frame (name : BoundName c) (s : Store) : Frame :=
  { slots := name.slots, params := name.params, store := s }

/-- A write through a cell. -/
inductive CellWrite (c : CellRef)
  /-- A host writes the cell. -/
  | set (v : Value)
  /-- A host writes a property of the held value. -/
  | setProperty (key : String) (v : Value)
  /-- An assignment to a name that is bound to the cell, or an update of it, has computed the new
  value while `held` is held. -/
  | assign (name : BoundName c) (v : Value) (held : List Entity)
  /-- An expression writes a member of the cell. -/
  | setMember (key : String) (v : Value)
  /-- An expression calls a method of the cell. -/
  | callMethod (name : String) (args : List Value) (optional : Bool)

namespace CellWrite

/-- The store after the write, and whether the write has succeeded. -/
def run (s : Store) : CellWrite c → Store × Bool
  | .set v => ((s.setCell c v).1, true)
  | .setProperty key v =>
    match s.setCellProperty c key v with
    | .ok t => (t, true)
    | .error _ => (s, false)
  | .assign name v held =>
    let (outcome, frame) := ((writePlace (.slot name.slot) v) held).run.run (name.frame s)
    (frame.store, outcome.isOk)
  | .setMember key v =>
    let (t, outcome) := Eval.setMember s (.cell c) key v
    (t, outcome.isOk)
  | .callMethod name args optional =>
    let (t, outcome) := callMember s (.cell c) name args optional
    (t, outcome.isOk)

/-- What a write does: one that fails leaves the store as it was, and what is seen
through the cell does not change without a pass of the cell being queued. -/
structure Told (s : Store) (c : CellRef) (after : Store × Bool) : Prop where
  failed (h : after.2 = false) : after.1 = s
  noted : s.Noted after.1 c

theorem Told.succeeded (h : s.Noted t c) : Told s c (t, true) := ⟨nofun, h⟩

theorem Told.refl (s : Store) (c : CellRef) (succeeded : Bool) : Told s c (s, succeeded) :=
  ⟨fun _ => rfl, Store.noted_of_eq rfl⟩

theorem Told.of_eq (h : t = s) (succeeded : Bool) : Told s c (t, succeeded) :=
  h ▸ .refl t c succeeded

theorem told_setMember (s : Store) (key : String) (v : Value) :
    Told s c ((setMember key v : CellWrite c).run s) := by
  simp only [run, Eval.setMember, Value.nullishName?]
  split
  · -- the member `value` stands for the cell itself
    exact .succeeded (s.noted_setCell c _)
  · split
    · exact .refl s c false
    · cases hwrite : s.setCellProperty c key v with
      | ok t => exact .succeeded (Store.noted_setCellProperty hwrite)
      | error e => exact .refl s c false

/-- A name that is bound to a cell is written by writing the cell, and then references are given up.
-/
theorem told_assign (s : Store) (name : BoundName c) (v : Value) (held : List Entity) :
    Told s c ((assign name v held).run s) := by
  have hslot : (name.frame s).slot name.slot = .cell c := by
    rw [Frame.slot, Array.getD_eq_getD_getElem?, BoundName.frame, name.bound, Option.getD_some]
  have hwrite : ((name.frame s).writeSlot name.slot v).store = (s.setCell c (s.unwrap v)).1 := by
    unfold Frame.writeSlot
    rw [hslot]
    exact congrArg Frame.store (if_pos name.isParam)
  have hsame := ((name.frame s).writeSlot name.slot v).sameValues_letGo held
    ((name.frame s).lost ((name.frame s).writeSlot name.slot v))
  refine .succeeded ((s.noted_setCell c (s.unwrap v)).of_sameContents ?_)
  exact hwrite ▸ hsame.store

/-- A function leaves all cells and contents alone, and one that fails does nothing. -/
theorem told_callMemberFunction (s : Store) (c : CellRef) (f : Function) (args : List Value) :
    Told s c ((callMemberFunction s f args).1, (callMemberFunction s f args).2.isOk) := by
  cases f with
  | builtin f => exact .refl s c true
  | host f id =>
    cases f with
    | record => exact .succeeded (Store.noted_of_eq (Store.seen_eq rfl rfl fun _ _ => rfl))
    | _ => exact .refl s c _

/-- The call requests a pass after the methods on the list. -/
theorem afterMethod_eq (t : Store) (held : Value) (name : String) :
    afterMethod t (.cell c) held name =
      if Store.editedBy name held then t.trigger c else t := by
  cases held <;> rfl

/-- A builtin method that may have changed the array in the cell is on the list, and so it is told.
-/
theorem noted_afterMethod {name : String} (hspared : s.Spared t (Store.editedBy name (s.held c)))
    (hmade : ∀ r, s.held c = .array r → s.hasMade (.array r)) :
    s.Noted (afterMethod t (.cell c) (s.held c) name) c := by
  rw [afterMethod_eq]
  -- what is on the list is told whatever it has done; what is not has changed no array
  split
  · exact Store.noted_trigger (by rw [Store.Has, Store.Has, hspared.cells])
  · next hquiet =>
    exact Store.noted_of_eq (Store.seen_eq hspared.cells hspared.objects fun r hr =>
      hspared.items r (hmade r hr) (Bool.eq_false_iff.2 hquiet))

theorem told_callBuiltinMember (s : Store)
    (hmade : ∀ r, s.held c = .array r → s.hasMade (.array r)) (name : String) (args : List Value)
    (optional : Bool) :
    Told s c ((callBuiltinMember s (.cell c) name args optional).1,
      (callBuiltinMember s (.cell c) name args optional).2.isOk) := by
  unfold callBuiltinMember
  dsimp only [Store.unwrap]
  split
  · next t v hcall =>
    exact .succeeded (noted_afterMethod (Store.callBuiltin_spares hcall).1 hmade)
  · next t e hcall => exact .of_eq ((Store.callBuiltin_spares hcall).2 e rfl) false
  · -- there is no such method
    exact .of_eq (by rw [apply_ite Prod.fst, ite_self]) _

theorem told_callMethod (s : Store) (hmade : ∀ r, s.held c = .array r → s.hasMade (.array r))
    (name : String) (args : List Value) (optional : Bool) :
    Told s c ((callMethod name args optional : CellWrite c).run s) := by
  show Told s c ((callMember s (.cell c) name args optional).1,
    (callMember s (.cell c) name args optional).2.isOk)
  unfold callMember
  dsimp only [Store.unwrap]
  split
  · exact .refl s c false
  · split
    · exact told_callBuiltinMember s hmade name args optional
    · split
      · next f _ => exact told_callMemberFunction s c f args
      · -- what is bound to the name is no function
        exact .of_eq (by rw [apply_ite Prod.fst, ite_self]) _

/-- Every write through a cell is told, if what the cell holds is in the store. -/
theorem told_run (s : Store) (hmade : ∀ r, s.held c = .array r → s.hasMade (.array r))
    (write : CellWrite c) : Told s c (write.run s) := by
  cases write with
  | set v => exact .succeeded (s.noted_setCell c v)
  | setProperty key v =>
    simp only [run]
    split
    · next t hwrite => exact .succeeded (Store.noted_setCellProperty hwrite)
    · exact .refl s c false
  | assign name v held => exact told_assign s name v held
  | setMember key v => exact told_setMember s key v
  | callMethod name args optional => exact told_callMethod s hmade name args optional

end CellWrite

/-- Every write through a cell notifies or changes nothing: the gated write, the write of a property
of the held value, the assignment to a name bound to the cell or its update, the assignment to a
member, and the call of a method.  If it fails the store and all queues are as they were.  If
something else is seen through the cell afterwards — another value held, or other elements or
properties of the array or object it holds — a pass of the cell is queued.  The array that the cell
holds has to be one that has been made. -/
theorem cell_writes_notify (s : Store) (c : CellRef)
    (hmade : ∀ r, s.held c = .array r → s.hasMade (.array r)) (write : CellWrite c) :
    ((write.run s).2 = false → (write.run s).1 = s) ∧
      ((write.run s).1.seen c ≠ s.seen c →
        ((write.run s).1.cellState c).scheduled = true) := by
  obtain ⟨hfailed, hnoted⟩ := write.told_run s hmade
  exact ⟨hfailed, fun hseen => hnoted.resolve_left hseen⟩

/-- A cell with an empty list. -/
def emptyListInCell : Store where
  arrays := #[[]]
  cells := #[{ held := .array ⟨0⟩ }]

/-- An element is pushed through it. -/
def pushThrough : CellWrite ⟨0⟩ := .callMethod "push" [.null] false

/-- What is pushed through a cell is seen, and told. -/
theorem push_is_told :
    (pushThrough.run emptyListInCell).1.seen ⟨0⟩ ≠ emptyListInCell.seen ⟨0⟩ ∧
      ((pushThrough.run emptyListInCell).1.cellState ⟨0⟩).scheduled = true := by
  have hmade : ∀ r, emptyListInCell.held ⟨0⟩ = .array r → emptyListInCell.hasMade (.array r) := by
    rintro r ⟨⟩
    rfl
  have hseen : (pushThrough.run emptyListInCell).1.seen ⟨0⟩ ≠ emptyListInCell.seen ⟨0⟩ := by
    have hafter : (pushThrough.run emptyListInCell).1.seen ⟨0⟩ =
        (.array ⟨0⟩, some (.array [.null])) := rfl
    rw [hafter]
    rintro ⟨⟩
  exact ⟨hseen, (cell_writes_notify emptyListInCell ⟨0⟩ hmade pushThrough).2 hseen⟩

end LiveMarkup
