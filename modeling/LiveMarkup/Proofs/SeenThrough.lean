import LiveMarkup.Eval.Evaluator
import LiveMarkup.Proofs.Chains

/-!
# Operators see through cells

The values that operators compute, and the builtins that have a name, are no arrays and no cells.
Of such a value nothing is read in the store: two stores take it for the same number, text and truth
value.  A cell that holds it is taken for it.  So an operator gives the same for operands that show
the same values, each of them a value or a cell that holds it, whatever the two stores are.

## Main definitions

* `Value.IsScalar` — a value of which nothing is read in the store.
* `Store.Shows` — a scalar value, or a cell that holds it.

## Main results

* `Store.Shows.unary`, `Store.Shows.binary`, `Store.Shows.stopsAt` — what operators compute.
* `Store.eq_or_equal_of_unchanged` — what the gate of a cell lets pass for no change.
* `Store.held_setCell` — what a cell holds after a write.
-/

namespace LiveMarkup

open Syntax

/-- A value that is no array and no cell; the only object is the one that every store has. -/
def Value.IsScalar : Value → Prop
  | .array _ | .cell _ => False
  | .object r => r = mathObject
  | _ => True

instance : DecidablePred Value.IsScalar
  | .array _ | .cell _ => isFalse id
  | .object r => inferInstanceAs (Decidable (r = mathObject))
  | .undefined | .null | .bool _ | .number _ | .string _ | .function _ => isTrue trivial

theorem isScalar_literal (l : Literal) : l.value.IsScalar := by cases l <;> trivial

theorem isScalar_globalValue (g : Global) : (Eval.globalValue g).IsScalar := by
  cases g <;> first | rfl | trivial

theorem isScalar_unary (s : Store) (op : UnaryOp) (v : Value) : (Eval.unary s op v).IsScalar := by
  cases op <;> trivial

theorem isScalar_binary (s : Store) (op : BinaryOp) (v w : Value) :
    (Eval.binary s op v w).IsScalar := by
  cases op with
  | add =>
    show (Eval.add s v w).IsScalar
    unfold Eval.add
    split <;> trivial
  | _ => trivial

namespace Store

/-- The value is `w`, a scalar, or a cell that holds it. -/
structure Shows (s : Store) (v w : Value) : Prop where
  unwrap : s.unwrap v = w
  scalar : w.IsScalar

namespace Shows

variable {s : Store} {v v' w w' : Value}

theorem self (s : Store) (hw : w.IsScalar) : s.Shows w w := by
  refine ⟨?_, hw⟩
  cases w with
  | cell c => exact hw.elim
  | _ => rfl

/-- A chain of cells comes to what its first value shows. -/
theorem resolve (h : s.Shows v w) : s.resolve v = w := by
  obtain ⟨hunwrap, hscalar⟩ := h
  rw [← s.followCells_eq_resolve (n := s.cells.size + 2) (by omega)]
  cases v with
  | cell c =>
    show s.followCells (s.cells.size + 1) (s.held c) = w
    rw [show s.held c = w from hunwrap]
    cases w with
    | cell d => exact hscalar.elim
    | _ => rfl
  | _ => exact hunwrap

theorem display (h : s.Shows v w) (t : Store) : s.display v = t.display w := by
  obtain ⟨hunwrap, hscalar⟩ := h
  rw [← s.displayWithin_eq_display (n := s.displayDepth + 2) (by omega),
    ← t.displayWithin_eq_display (n := t.displayDepth + 1) (by omega)]
  cases v with
  | cell c =>
    show s.displayWithin (s.displayDepth + 1) [] (s.held c) = _
    rw [show s.held c = w from hunwrap]
    cases w with
    | array r | cell d => exact hscalar.elim
    | _ => rfl
  | array r =>
    subst hunwrap
    exact hscalar.elim
  | _ =>
    subst hunwrap
    rfl

variable (t : Store)

theorem isTruthy (h : s.Shows v w) : s.isTruthy v = t.isTruthy w := by
  unfold Store.isTruthy
  rw [h.resolve, (self t h.scalar).resolve]

theorem typeName (h : s.Shows v w) : s.typeName v = t.typeName w := by
  unfold Store.typeName
  rw [h.resolve, (self t h.scalar).resolve]

theorem toNumber (h : s.Shows v w) : s.toNumber v = t.toNumber w := by
  have hscalar := h.scalar
  unfold Store.toNumber
  rw [h.resolve, (self t h.scalar).resolve]
  cases w with
  | array r => exact hscalar.elim
  | _ => rfl

theorem toPrimitive (h : s.Shows v w) :
    s.toPrimitive v = t.toPrimitive w ∧ (t.toPrimitive w).IsScalar := by
  have hscalar := h.scalar
  unfold Store.toPrimitive
  rw [h.resolve, (self t h.scalar).resolve]
  cases w with
  | array r | cell c => exact hscalar.elim
  | object r => exact ⟨congrArg Value.string ((self s hscalar).display t), trivial⟩
  | _ => exact ⟨rfl, trivial⟩

/-! ### Operators -/

theorem unary (op : UnaryOp) (h : s.Shows v w) : Eval.unary s op v = Eval.unary t op w := by
  unfold Eval.unary
  rw [h.isTruthy t, h.toNumber t, h.typeName t]

theorem compareValues (h : s.Shows v w) (h' : s.Shows v' w') :
    Eval.compareValues s v v' = Eval.compareValues t w w' := by
  obtain ⟨heq, hscalar⟩ := h.toPrimitive t
  obtain ⟨heq', hscalar'⟩ := h'.toPrimitive t
  unfold Eval.compareValues
  rw [heq, heq']
  generalize t.toPrimitive w = a at hscalar
  generalize t.toPrimitive w' = b at hscalar'
  have hnumbers : Eval.compareNumbers (s.toNumber a) (s.toNumber b) =
      Eval.compareNumbers (t.toNumber a) (t.toNumber b) := by
    rw [(self s hscalar).toNumber t, (self s hscalar').toNumber t]
  cases a with
  | string x =>
    cases b with
    | string y => rfl
    | _ => exact hnumbers
  | _ => exact hnumbers

theorem add (h : s.Shows v w) (h' : s.Shows v' w') : Eval.add s v v' = Eval.add t w w' := by
  obtain ⟨heq, hscalar⟩ := h.toPrimitive t
  obtain ⟨heq', hscalar'⟩ := h'.toPrimitive t
  unfold Eval.add
  rw [heq, heq']
  generalize t.toPrimitive w = a at hscalar
  generalize t.toPrimitive w' = b at hscalar'
  have hnumbers : Value.number (s.toNumber a + s.toNumber b) =
      .number (t.toNumber a + t.toNumber b) := by
    rw [(self s hscalar).toNumber t, (self s hscalar').toNumber t]
  cases a with
  | string x => exact congrArg (fun y => Value.string (x ++ y)) ((self s hscalar').display t)
  | _ =>
    cases b with
    | string y => exact congrArg (fun x => Value.string (x ++ y)) ((self s hscalar).display t)
    | _ => exact hnumbers

theorem looseEqualsWithin (fuel : Nat) (h : s.Shows v w) (h' : s.Shows v' w') :
    s.looseEqualsWithin fuel v v' = t.looseEqualsWithin fuel w w' := by
  induction fuel generalizing v v' w w' with
  | zero => rfl
  | succ fuel ih =>
    have hself := self s h.scalar
    have hself' := self s h'.scalar
    have hnumber (x : Float) : s.Shows (.number x) (.number x) := self s trivial
    have hstring (x : String) : s.Shows (.string x) (.string x) := self s trivial
    simp only [Store.looseEqualsWithin, h.unwrap, h'.unwrap, (self t h.scalar).unwrap,
      (self t h'.scalar).unwrap, hself.toNumber t, hself'.toNumber t, hself.display t,
      hself'.display t, ih (hnumber _) hself', ih hself (hnumber _), ih (hstring _) hself',
      ih hself (hstring _)]

theorem binary (op : BinaryOp) (h : s.Shows v w) (h' : s.Shows v' w') :
    Eval.binary s op v v' = Eval.binary t op w w' := by
  unfold Eval.binary Store.looseEquals
  rw [h.add t h', h.toNumber t, h'.toNumber t, h.compareValues t h', h.looseEqualsWithin t 4 h',
    h.unwrap, h'.unwrap, (self t h.scalar).unwrap, (self t h'.scalar).unwrap]

theorem stopsAt (op : LogicalOp) (h : s.Shows v w) :
    Eval.stopsAt s op v = Eval.stopsAt t op w := by
  unfold Eval.stopsAt Eval.holdsNullish
  rw [h.isTruthy t, h.unwrap, (self t h.scalar).unwrap]

end Shows

/-! ### Writes -/

/-- Of scalar values the gate of a cell lets pass for no change the value held, and a number that is
equal to the one held: a zero, for the zero of the other sign. -/
theorem eq_or_equal_of_unchanged {s : Store} {current next : Value} (hcurrent : current.IsScalar)
    (hnext : next.IsScalar) (h : s.hasChanged current next = false) :
    current = next ∨ ∃ x y, current = .number x ∧ next = .number y ∧ (x == y) = true := by
  unfold hasChanged at h
  split at h
  · next hequal =>
    cases current <;> cases next <;> simp_all [Value.strictEquals]
  · next hdiffer =>
    split at h
    · cases h
    · cases current with
      | array r | cell c => exact hcurrent.elim
      | object r =>
        cases next with
        | object q =>
          obtain rfl : r = mathObject := hcurrent
          obtain rfl : q = mathObject := hnext
          exact .inl rfl
        | _ => cases h
      | _ => cases h

theorem has_setCell {s : Store} {c d : CellRef} {v : Value} :
    (s.setCell c v).1.Has d ↔ s.Has d := by
  unfold setCell
  split
  · exact has_trigger.trans has_modifyCell
  · exact Iff.rfl

/-- What cells hold after a write that may not count. -/
theorem held_setCell (s : Store) (c d : CellRef) (v : Value) :
    (s.setCell c v).1.held d =
      if d = c ∧ s.Has d ∧ s.hasChanged (s.held c) v = true then v else s.held d := by
  unfold setCell
  split
  · next hchanged =>
    rw [held_trigger, held, commit, cellState_modifyCell]
    by_cases hd : d = c ∧ s.Has d
    · rw [if_pos hd, if_pos ⟨hd.1, hd.2, hchanged⟩]
    · rw [if_neg hd, if_neg fun h => hd ⟨h.1, h.2.1⟩, held]
  · next hchanged => rw [if_neg fun h => hchanged h.2.2]

end Store

end LiveMarkup
