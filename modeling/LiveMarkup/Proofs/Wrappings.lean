import LiveMarkup.Proofs.NestedTexts

/-!
# Cells in place of what they hold

A cell is taken for the text, number, truth value, type name, primitive and key of what it holds,
whatever it holds.  Where a nullish value is asked for as such, a cell that holds one is not: there
it counts as the word for that value.  So there are two ways in which a cell can stand in place of a
value.

## Main definitions

* `Store.Wraps` — the same value, or a cell that holds it.
* `Value.worded` — a value, but the word for a nullish one.
* `Store.Spells` — the same value, or a cell in place of what it holds, put in words if nullish.

## Main results

* `Store.Wraps.coercions` — a cell is taken for what it holds.
* `Store.Wraps.spells` — both ways are the same for what is not nullish.
-/

namespace LiveMarkup

/-- The value itself, or the word for it if it is nullish. -/
def Value.worded (v : Value) : Value :=
  match v.nullishName? with
  | some name => .string name
  | none => v

theorem Value.isNullish_worded (v : Value) : v.worded.isNullish = false := by cases v <;> rfl

theorem Value.worded_of_not_nullish {v : Value} (h : v.isNullish = false) : v.worded = v := by
  cases v with
  | undefined | null => cases h
  | _ => rfl

namespace Store

/-- A value and the same value, or a cell that holds it. -/
inductive Wraps (s : Store) : Value → Value → Prop
  | self (v : Value) : s.Wraps v v
  | cell (c : CellRef) : s.Wraps (s.held c) (.cell c)

/-- A value and the same value, or a cell that holds it, or a cell that holds a nullish value for
which it is the word. -/
inductive Spells (s : Store) : Value → Value → Prop
  | self (v : Value) : s.Spells v v
  | cell (c : CellRef) : s.Spells (s.held c).worded (.cell c)

variable {s : Store} {v w : Value}

theorem Wraps.spells (h : s.Wraps v w) (hv : v.isNullish = false) : s.Spells v w := by
  cases h with
  | self => exact .self _
  | cell c => exact Value.worded_of_not_nullish hv ▸ .cell c

/-! ### Coercions -/

theorem resolve_cell (s : Store) (c : CellRef) : s.resolve (.cell c) = s.resolve (s.held c) := by
  rw [← followCells_eq_resolve (Nat.lt_succ_of_lt (Nat.lt_succ_self s.cells.size)) (.cell c)]
  rfl

theorem display_cell (s : Store) (c : CellRef) : s.display (.cell c) = s.display (s.held c) := by
  rw [← textWithin_nil, textWithin_cell]

/-- All that a value can be taken for is the same for a cell that holds it. -/
theorem Wraps.coercions (h : s.Wraps v w) :
    s.display w = s.display v ∧ s.toNumber w = s.toNumber v ∧ s.isTruthy w = s.isTruthy v ∧
      s.typeName w = s.typeName v ∧ s.toPrimitive w = s.toPrimitive v ∧
        s.propertyKey w = s.propertyKey v := by
  cases h with
  | self => exact ⟨rfl, rfl, rfl, rfl, rfl, rfl⟩
  | cell c =>
    refine ⟨s.display_cell c, ?_, ?_, ?_, ?_, ?_⟩
    · unfold toNumber
      rw [resolve_cell]
    · unfold isTruthy
      rw [resolve_cell]
    · unfold typeName
      rw [resolve_cell]
    · unfold toPrimitive
      rw [resolve_cell]
    · unfold propertyKey
      rw [resolve_cell]

/-! ### Words for nullish values -/

theorem textWithin_worded (s : Store) (joining : List ArrayRef) (v : Value) :
    s.textWithin joining v.worded = s.textWithin joining v := by
  rw [← displayWithin_eq_textWithin (Nat.le_succ _) v,
    ← displayWithin_eq_textWithin (Nat.le_succ _) v.worded]
  cases v <;> rfl

namespace Spells

theorem isNullish (h : s.Spells v w) : w.isNullish = v.isNullish := by
  cases h with
  | self => rfl
  | cell c => exact (Value.isNullish_worded _).symm

theorem display (h : s.Spells v w) : s.display w = s.display v := by
  cases h with
  | self => rfl
  | cell c => rw [← textWithin_nil, textWithin_cell, textWithin_worded]

end Spells

end Store

end LiveMarkup
