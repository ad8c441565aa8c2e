import LiveMarkup.Proofs.StoreLaws
import Mathlib.Data.Finset.Card
import Mathlib.Data.Finset.Range
import Mathlib.Data.Nat.Find
import Mathlib.Logic.Function.Iterate

/-!
# Chains of cells and nested texts

A cell can hold a cell, and an array can have arrays and cells among its elements.  Following a
chain of cells and writing a value as a text are bounded by the size of the store, and the bounds
are large enough: nothing else is found, and nothing else is written, with more.  A chain of cells
that is longer than there are cells meets one of them again, and then never ends; a reference to no
cell ends it, since nothing is held there.  Between two arrays that are being written there is one
chain, and no array is entered twice.

## Main definitions

* `Value.IsCell` — a value that is a cell.
* `Store.Acyclic` — no chain of cells comes back to one of them.
* `Store.unjoined`, `Store.enough` — how many arrays can still be entered, and how much that takes.

## Main results

* `Store.chain_ends` — a chain ends within as many steps as there are cells, or never.
* `Store.acyclic_iff` — none comes back to one of its cells exactly if all end.
* `Store.followCells_eq_resolve`, `Store.displayWithin_eq_display` — the bounds are large enough.
-/

namespace LiveMarkup

/-- The value is a cell. -/
def Value.IsCell (v : Value) : Prop := ∃ c, v = .cell c

namespace Store

variable {s : Store} {v : Value}

/-! ### Chains of cells -/

theorem unwrap_of_not_isCell (h : ¬v.IsCell) : s.unwrap v = v := by
  cases v with
  | cell c => exact absurd ⟨c, rfl⟩ h
  | _ => rfl

/-- The end of a chain stays where it is. -/
theorem iterate_unwrap_of_le {k n : Nat} (hk : ¬(s.unwrap^[k] v).IsCell) (hn : k ≤ n) :
    s.unwrap^[n] v = s.unwrap^[k] v := by
  obtain ⟨d, rfl⟩ := Nat.exists_eq_add_of_le hn
  rw [Nat.add_comm, Function.iterate_add_apply]
  exact Function.iterate_fixed (unwrap_of_not_isCell hk) d

/-- A chain that comes to the same value twice, a cell before, never ends. -/
theorem isCell_of_repeat {i j : Nat} (hlt : i < j) (hcell : (s.unwrap^[i] v).IsCell)
    (heq : s.unwrap^[i] v = s.unwrap^[j] v) (n : Nat) : (s.unwrap^[n] v).IsCell := by
  by_contra hend
  -- the period, gone through often enough, leads past the end
  have hfixed : s.unwrap^[j - i] (s.unwrap^[i] v) = s.unwrap^[i] v := by
    rw [← Function.iterate_add_apply, Nat.sub_add_cancel hlt.le, heq]
  have hround : s.unwrap^[(j - i) * n + i] v = s.unwrap^[i] v := by
    rw [Function.iterate_add_apply, Function.iterate_mul]
    exact Function.iterate_fixed hfixed n
  have hle : n ≤ (j - i) * n + i :=
    (Nat.le_mul_of_pos_left n (Nat.sub_pos_of_lt hlt)).trans (Nat.le_add_right _ _)
  rw [← hround, iterate_unwrap_of_le hend hle] at hcell
  exact hend hcell

/-- A chain that stays among the cells there are comes to one of them twice. -/
theorem exists_repeat {c : Nat → CellRef}
    (hc : ∀ k ≤ s.cells.size, s.unwrap^[k] v = .cell (c k) ∧ s.Has (c k)) :
    ∃ i j, i < j ∧ i ≤ s.cells.size ∧ s.unwrap^[i] v = s.unwrap^[j] v := by
  have hle : ∀ {k}, k ∈ Finset.range (s.cells.size + 1) → k ≤ s.cells.size :=
    fun hk => Nat.le_of_lt_succ (Finset.mem_range.1 hk)
  obtain ⟨i, hi, j, hj, hne, heq⟩ :=
    Finset.exists_ne_map_eq_of_card_lt_of_maps_to (s := Finset.range (s.cells.size + 1))
      (t := Finset.range s.cells.size) (f := fun k => (c k).id) (by simp)
      (fun k hk => Finset.mem_coe.2 <| Finset.mem_range.2 <| (hc k (hle hk)).2)
  have hsame : s.unwrap^[i] v = s.unwrap^[j] v := by
    rw [(hc i (hle hi)).1, (hc j (hle hj)).1]
    exact congrArg Value.cell (congrArg CellRef.mk heq)
  rcases Nat.lt_or_gt_of_ne hne with hlt | hlt
  · exact ⟨i, j, hlt, hle hi, hsame⟩
  · exact ⟨j, i, hlt, hle hj, hsame.symm⟩

theorem unwrap_of_not_has {c : CellRef} (h : ¬s.Has c) : s.unwrap (.cell c) = .undefined :=
  congrArg CellState.held (cellState_of_not_has h)

/-- A chain of cells ends within as many steps as there are cells, or one step later where there is
no cell, or never. -/
theorem chain_ends (s : Store) (v : Value) :
    (∀ n, (s.unwrap^[n] v).IsCell) ∨ ¬(s.unwrap^[s.cells.size] v).IsCell ∨
      s.unwrap^[s.cells.size + 1] v = .undefined := by
  refine or_iff_not_imp_right.2 fun h => ?_
  obtain ⟨hlong, hheld⟩ := not_or.1 h
  rw [not_not] at hlong
  have hcells : ∀ k ≤ s.cells.size, (s.unwrap^[k] v).IsCell := by
    intro k hk
    by_contra hend
    exact hend (iterate_unwrap_of_le hend hk ▸ hlong)
  choose! c hc using hcells
  have hin : ∀ k ≤ s.cells.size, s.Has (c k) := by
    intro k hk
    by_contra hout
    have hnext : s.unwrap^[k + 1] v = .undefined := by
      rw [Function.iterate_succ_apply', hc k hk, unwrap_of_not_has hout]
    have hend : ¬(s.unwrap^[k + 1] v).IsCell := by
      rw [hnext]
      rintro ⟨_, ⟨⟩⟩
    exact hheld ((iterate_unwrap_of_le hend (Nat.succ_le_succ hk)).trans hnext)
  obtain ⟨i, j, hlt, hi, hsame⟩ := exists_repeat fun k hk => ⟨hc k hk, hin k hk⟩
  exact isCell_of_repeat hlt ⟨_, hc i hi⟩ hsame

/-- No chain of cells that hold cells comes back to one of them. -/
def Acyclic (s : Store) : Prop := ∀ c k, s.unwrap^[k + 1] (.cell c) ≠ .cell c

/-- No chain comes back to one of its cells exactly if all chains end. -/
theorem acyclic_iff : s.Acyclic ↔ ∀ v, ∃ k, ¬(s.unwrap^[k] v).IsCell := by
  constructor
  · intro h v
    by_contra hnever
    have hcells : ∀ k, (s.unwrap^[k] v).IsCell := fun k => not_not.1 (not_exists.1 hnever k)
    choose c hc using hcells
    have hin (k : Nat) : s.Has (c k) := by
      by_contra hout
      have hnext := hc (k + 1)
      rw [Function.iterate_succ_apply', hc k, unwrap_of_not_has hout] at hnext
      cases hnext
    obtain ⟨i, j, hlt, -, hsame⟩ := exists_repeat fun k _ => ⟨hc k, hin k⟩
    obtain ⟨d, rfl⟩ := Nat.exists_eq_add_of_lt hlt
    rw [show i + d + 1 = d + 1 + i by omega, Function.iterate_add_apply, hc i] at hsame
    exact h (c i) d hsame.symm
  · intro h c k heq
    obtain ⟨n, hn⟩ := h (.cell c)
    exact hn (isCell_of_repeat (Nat.succ_pos k) ⟨c, rfl⟩ heq.symm n)

/-! ### Following -/

/-- Where a chain has led to after so many steps, if it has ended there. -/
theorem followCells_succ (s : Store) (n : Nat) (v : Value) :
    s.followCells (n + 1) v =
      match s.unwrap^[n] v with
      | .cell _ => .undefined
      | w => w := by
  induction n generalizing v with
  | zero => cases v <;> rfl
  | succ n ih =>
    cases v with
    | cell c => exact ih (s.held c)
    | _ =>
      rw [iterate_unwrap_of_le (k := 0) (by rintro ⟨_, ⟨⟩⟩) (Nat.zero_le _)]
      rfl

theorem followCells_of_isCell {n : Nat} (h : (s.unwrap^[n] v).IsCell) :
    s.followCells (n + 1) v = .undefined := by
  obtain ⟨c, hc⟩ := h
  rw [followCells_succ, hc]

theorem followCells_of_not_isCell {n : Nat} (h : ¬(s.unwrap^[n] v).IsCell) :
    s.followCells (n + 1) v = s.unwrap^[n] v := by
  rw [followCells_succ]
  split
  · next c hc => exact absurd ⟨c, hc⟩ h
  · rfl

/-- The end of a chain is no cell. -/
theorem not_isCell_resolve (s : Store) (v : Value) : ¬(s.resolve v).IsCell := by
  unfold resolve
  by_cases h : (s.unwrap^[s.cells.size] v).IsCell
  · rw [followCells_of_isCell h]
    rintro ⟨_, ⟨⟩⟩
  · rwa [followCells_of_not_isCell h]

/-- Nothing else is found at the end of a chain with more steps. -/
theorem followCells_eq_resolve {n : Nat} (hn : s.cells.size < n) (v : Value) :
    s.followCells n v = s.resolve v := by
  obtain ⟨m, rfl⟩ := Nat.exists_eq_add_of_lt hn
  have hle : s.cells.size ≤ s.cells.size + m := Nat.le_add_right _ _
  show s.followCells (s.cells.size + m + 1) v = s.followCells (s.cells.size + 1) v
  rcases chain_ends s v with hnever | hend | hnone
  · rw [followCells_of_isCell (hnever _), followCells_of_isCell (hnever _)]
  · have heq := iterate_unwrap_of_le hend hle
    rw [followCells_of_not_isCell hend, followCells_of_not_isCell (heq ▸ hend), heq]
  · -- one step before the end there is nothing yet, and then nothing is what there is
    have hundefined : ∀ k, s.cells.size ≤ k → s.followCells (k + 1) v = .undefined := by
      intro k hk
      by_cases hcell : (s.unwrap^[k] v).IsCell
      · exact followCells_of_isCell hcell
      · have hend : ¬(s.unwrap^[s.cells.size + 1] v).IsCell := by
          rw [hnone]
          rintro ⟨_, ⟨⟩⟩
        rw [followCells_of_not_isCell hcell]
        rcases Nat.eq_or_lt_of_le hk with rfl | hlt
        · rw [← hnone]
          exact (iterate_unwrap_of_le hcell (Nat.le_succ _)).symm
        · exact (iterate_unwrap_of_le hend hlt).trans hnone
    rw [hundefined _ hle, hundefined _ (Nat.le_refl _)]

/-! ### Writing -/

/-- A chain of cells is written as what it leads to. -/
theorem displayWithin_chain {k : Nat} (n : Nat) (joining : List ArrayRef)
    (h : ∀ j < k, (s.unwrap^[j] v).IsCell) :
    s.displayWithin (n + k) joining v = s.displayWithin n joining (s.unwrap^[k] v) := by
  induction k generalizing v with
  | zero => rfl
  | succ k ih =>
    obtain ⟨c, rfl⟩ := h 0 (Nat.succ_pos k)
    exact ih fun j hj => h (j + 1) (Nat.succ_lt_succ hj)

/-- A chain that never ends writes nothing. -/
theorem displayWithin_of_endless (n : Nat) (joining : List ArrayRef)
    (h : ∀ k, (s.unwrap^[k] v).IsCell) : s.displayWithin n joining v = "" := by
  have hchain := displayWithin_chain 0 joining (k := n) fun j _ => h j
  rwa [Nat.zero_add] at hchain

/-- How many arrays there are that are not being written. -/
def unjoined (s : Store) (joining : List ArrayRef) : Nat :=
  ((Finset.range s.arrays.size).filter fun i => (⟨i⟩ : ArrayRef) ∉ joining).card

theorem unjoined_cons_lt {r : ArrayRef} {joining : List ArrayRef} (hr : r ∉ joining)
    (hlt : r.id < s.arrays.size) : s.unjoined (r :: joining) < s.unjoined joining := by
  refine Finset.card_lt_card (Finset.ssubset_iff_subset_ne.2 ⟨fun i hi => ?_, fun heq => ?_⟩)
  · obtain ⟨hi, hnot⟩ := Finset.mem_filter.1 hi
    exact Finset.mem_filter.2 ⟨hi, fun hmem => hnot (List.mem_cons_of_mem r hmem)⟩
  · have hmem : r.id ∈ (Finset.range s.arrays.size).filter fun i => (⟨i⟩ : ArrayRef) ∉ joining :=
      Finset.mem_filter.2 ⟨Finset.mem_range.2 hlt, hr⟩
    rw [← heq] at hmem
    exact (Finset.mem_filter.1 hmem).2 List.mem_cons_self

theorem items_of_size_le {r : ArrayRef} (h : s.arrays.size ≤ r.id) : s.items r = [] := by
  unfold items
  rw [Array.getD_eq_getD_getElem?, Array.getElem?_eq_none h]
  rfl

/-- How much is enough to write a value while the given arrays are being written. -/
def enough (s : Store) (joining : List ArrayRef) : Nat :=
  (s.unjoined joining + 1) * (s.cells.size + 2)

/-- Nothing else is written at the end of a chain with more than is enough. -/
theorem displayWithin_end {joining : List ArrayRef} {n m : Nat} (hv : ¬v.IsCell)
    (hitems : ∀ r, r ∉ joining → r.id < s.arrays.size → ∀ w,
      s.displayWithin n (r :: joining) w = s.displayWithin m (r :: joining) w) :
    s.displayWithin (n + 1) joining v = s.displayWithin (m + 1) joining v := by
  cases v with
  | cell c => exact absurd ⟨c, rfl⟩ hv
  | array r =>
    simp only [displayWithin]
    split
    · rfl
    · next hr =>
      rcases Nat.lt_or_ge r.id s.arrays.size with hlt | hge
      · simp only [hitems r hr hlt]
      · rw [items_of_size_le hge]
        rfl
  | _ => rfl

/-- Nothing else is written with more than is enough. -/
theorem displayWithin_eq {joining : List ArrayRef} {n m : Nat} (hn : s.enough joining ≤ n)
    (hm : s.enough joining ≤ m) (v : Value) :
    s.displayWithin n joining v = s.displayWithin m joining v := by
  induction hfree : s.unjoined joining using Nat.strong_induction_on generalizing joining n m v with
  | _ free ih =>
  rcases em (∀ k, (s.unwrap^[k] v).IsCell) with hnever | hsome
  · rw [displayWithin_of_endless n joining hnever, displayWithin_of_endless m joining hnever]
  · -- the chain ends, and leaves enough for the elements of an array at its end
    have hend : ∃ k, ¬(s.unwrap^[k] v).IsCell := not_forall.1 hsome
    classical
    let k := Nat.find hend
    have hk : ¬(s.unwrap^[k] v).IsCell := Nat.find_spec hend
    have hbefore : ∀ j < k, (s.unwrap^[j] v).IsCell := fun j hj => not_not.1 (Nat.find_min hend hj)
    have hle : k ≤ s.cells.size + 1 := by
      rcases chain_ends s v with hnever | hshort | hnone
      · exact absurd hnever hsome
      · exact (Nat.find_min' hend hshort).trans (Nat.le_succ _)
      · refine Nat.find_min' hend ?_
        rw [hnone]
        rintro ⟨_, ⟨⟩⟩
    have hrest : ∀ l, s.enough joining ≤ l →
        ∃ l', l = l' + 1 + k ∧ free * (s.cells.size + 2) ≤ l' := by
      intro l hl
      unfold enough at hl
      rw [hfree, Nat.succ_mul] at hl
      exact ⟨l - 1 - k, by omega, by omega⟩
    obtain ⟨n', rfl, hn'⟩ := hrest n hn
    obtain ⟨m', rfl, hm'⟩ := hrest m hm
    rw [displayWithin_chain (n' + 1) joining hbefore, displayWithin_chain (m' + 1) joining hbefore]
    refine displayWithin_end hk fun r hr hlt w => ?_
    have hfewer := unjoined_cons_lt hr hlt
    rw [hfree] at hfewer
    have hless : s.enough (r :: joining) ≤ free * (s.cells.size + 2) :=
      Nat.mul_le_mul_right _ hfewer
    exact ih _ hfewer (hless.trans hn') (hless.trans hm') w rfl

/-- Nothing else is written with more. -/
theorem displayWithin_eq_display {n : Nat} (hn : s.displayDepth ≤ n) (v : Value) :
    s.displayWithin n [] v = s.display v := by
  have henough : s.enough [] ≤ s.displayDepth := by
    unfold enough displayDepth unjoined
    refine Nat.mul_le_mul_right _ (Nat.succ_le_succ ?_)
    exact (Finset.card_filter_le _ _).trans_eq (Finset.card_range _)
  exact displayWithin_eq (henough.trans hn) henough v

end Store

end LiveMarkup
