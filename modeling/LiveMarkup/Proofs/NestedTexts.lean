import LiveMarkup.Proofs.Chains

/-!
# Texts of nested values

A value inside arrays that are being written has one text, for every bound that is large enough.  So
its text goes by what it is: a cell is written as what it holds, an array as the texts of its
elements inside one array more, an array that is being written as nothing, and what is neither is
written the same everywhere.  An induction over texts follows these cases; it goes on below an array
because fewer arrays are left to be entered, and below a cell because the chain of cells has an end.
A chain without an end writes nothing.

## Main definitions

* `Value.IsLeaf`, `Value.leafText` — a value that is neither an array nor a cell, and its text.
* `Store.textWithin` — the text of a value inside arrays that are being written.
* `Store.elementText` — the text of an element there.

## Main results

* `Store.textWithin_cell`, `Store.textWithin_array`, `Store.textWithin_of_mem`,
  `Store.textWithin_of_isLeaf` — the cases.
* `Store.text_induction` — the induction that follows them.
-/

namespace LiveMarkup

/-- A value that is neither an array nor a cell. -/
def Value.IsLeaf : Value → Prop
  | .array _ | .cell _ => False
  | _ => True

/-- The text of a value that is neither an array nor a cell. -/
def Value.leafText : Value → String
  | .undefined => "undefined"
  | .null => "null"
  | .bool b => if b then "true" else "false"
  | .number x => Number.written x
  | .string t => t
  | .object _ => "[object Object]"
  | .function f => f.display
  | .array _ | .cell _ => ""

namespace Store

variable {s : Store} {v : Value} {r : ArrayRef} {joining : List ArrayRef}

/-- The text of a value inside the arrays `joining`, which are being written. -/
def textWithin (s : Store) (joining : List ArrayRef) (v : Value) : String :=
  s.displayWithin (s.enough joining) joining v

/-- The text of an element of an array, inside arrays that are being written; a nullish element
writes nothing. -/
def elementText (s : Store) (joining : List ArrayRef) (v : Value) : String :=
  if v.isNullish then "" else s.textWithin joining v

/-! ### The cases -/

theorem displayWithin_eq_textWithin {n : Nat} (hn : s.enough joining ≤ n) (v : Value) :
    s.displayWithin n joining v = s.textWithin joining v :=
  displayWithin_eq hn (Nat.le_refl _) v

theorem textWithin_nil (s : Store) : s.textWithin [] = s.display := by
  funext v
  have hle : s.displayDepth ≤ s.displayDepth + s.enough [] := Nat.le_add_right _ _
  rw [← displayWithin_eq_textWithin (Nat.le_add_left _ s.displayDepth) v,
    displayWithin_eq_display hle]

/-- A cell is written as what it holds. -/
theorem textWithin_cell (c : CellRef) :
    s.textWithin joining (.cell c) = s.textWithin joining (s.held c) :=
  (displayWithin_eq_textWithin (Nat.le_succ _) (.cell c)).symm

/-- An array that is being written writes nothing. -/
theorem textWithin_of_mem (h : r ∈ joining) : s.textWithin joining (.array r) = "" := by
  rw [← displayWithin_eq_textWithin (Nat.le_succ _)]
  exact if_pos h

/-- Any other array is written as the texts of its elements, inside one array more. -/
theorem textWithin_array (h : r ∉ joining) :
    s.textWithin joining (.array r) =
      String.intercalate "," ((s.items r).map (s.elementText (r :: joining))) := by
  have hhere : s.enough joining ≤ s.enough joining + s.enough (r :: joining) + 1 := by omega
  have hinside : s.enough (r :: joining) ≤ s.enough joining + s.enough (r :: joining) := by omega
  rw [← displayWithin_eq_textWithin hhere]
  refine (if_neg h).trans ?_
  simp only [displayWithin_eq_textWithin hinside]
  rfl

/-- What is neither an array nor a cell is written the same everywhere. -/
theorem textWithin_of_isLeaf (hv : v.IsLeaf) : s.textWithin joining v = v.leafText := by
  rw [← displayWithin_eq_textWithin (Nat.le_succ _)]
  cases v with
  | array | cell => exact hv.elim
  | _ => rfl

theorem textWithin_of_endless (h : ∀ k, (s.unwrap^[k] v).IsCell) : s.textWithin joining v = "" :=
  displayWithin_of_endless _ joining h

/-! ### The induction -/

/-- To show something of every value inside arrays that are being written it is enough to show it of
chains of cells that never end, of leaves, of arrays that are being written, of cells if it holds of
what they hold, and of other arrays if it holds of their elements inside them. -/
theorem text_induction {motive : List ArrayRef → Value → Prop}
    (endless : ∀ joining v, (∀ k, (s.unwrap^[k] v).IsCell) → motive joining v)
    (leaf : ∀ joining v, v.IsLeaf → motive joining v)
    (again : ∀ joining r, r ∈ joining → motive joining (.array r))
    (cell : ∀ joining c, motive joining (s.held c) → motive joining (.cell c))
    (array : ∀ joining r, r ∉ joining → (∀ v ∈ s.items r, motive (r :: joining) v) →
      motive joining (.array r))
    (joining : List ArrayRef) (v : Value) : motive joining v := by
  induction hfree : s.unjoined joining using Nat.strong_induction_on generalizing joining v with
  | _ free ih =>
  have hvalue (v : Value) (hv : ¬v.IsCell) : motive joining v := by
    cases v with
    | cell c => exact absurd ⟨c, rfl⟩ hv
    | array r =>
      by_cases hr : r ∈ joining
      · exact again joining r hr
      · refine array joining r hr fun v hv => ?_
        rcases Nat.lt_or_ge r.id s.arrays.size with hlt | hge
        · exact ih _ (hfree ▸ unjoined_cons_lt hr hlt) (r :: joining) v rfl
        · rw [items_of_size_le hge] at hv
          cases hv
    | _ => exact leaf joining _ trivial
  rcases em (∀ k, (s.unwrap^[k] v).IsCell) with hnever | hsome
  · exact endless joining v hnever
  · obtain ⟨k, hk⟩ := not_forall.1 hsome
    clear hsome
    -- along the chain, from its first link to its end
    induction k generalizing v with
    | zero => exact hvalue v hk
    | succ k ihk =>
      rcases em v.IsCell with ⟨c, rfl⟩ | hv
      · exact cell joining c (ihk (s.held c) hk)
      · exact hvalue v hv

end Store

end LiveMarkup
