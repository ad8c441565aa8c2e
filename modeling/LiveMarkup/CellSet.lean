import LiveMarkup.Store.Cell

/-!
# Sets of cells

Cells collected one after another, each once, in the order in which they first came in.  A collector
of reads and the dependencies of an expression are such sets.

## Main definitions

* `CellSet`, `CellSet.insert` — the sets, and adding a cell.
* `Store.readTracked` — reading a cell, which takes it down.
-/

namespace LiveMarkup

/-- Distinct cells in order. -/
structure CellSet where
  cells : List CellRef := []
  nodup : cells.Nodup := by exact List.nodup_nil
  deriving DecidableEq

namespace CellSet

instance : Inhabited CellSet := ⟨{}⟩

/-- Whether a cell is in the set. -/
def contains (set : CellSet) (c : CellRef) : Bool := set.cells.contains c

/-- Adds a cell at the end unless it is there. -/
def insert (set : CellSet) (c : CellRef) : CellSet :=
  if h : c ∈ set.cells then set
  else
    { cells := set.cells ++ [c]
      nodup := by
        rw [List.nodup_append]
        exact ⟨set.nodup, by simp, by rintro a ha b hb rfl; simp at hb; exact h (hb ▸ ha)⟩ }

/-- The number of cells. -/
def size (set : CellSet) : Nat := set.cells.length

/-- Whether there are no cells. -/
def isEmpty (set : CellSet) : Bool := set.cells.isEmpty

/-- A cell is in the set after an insertion exactly if it was, or is the one inserted. -/
theorem mem_insert (set : CellSet) (c d : CellRef) :
    d ∈ (set.insert c).cells ↔ d ∈ set.cells ∨ d = c := by
  unfold insert
  split
  · next h =>
    constructor
    · exact Or.inl
    · rintro (h' | rfl)
      · exact h'
      · exact h
  · simp

end CellSet

/-- Reads a cell and takes it down in a set. -/
def Store.readTracked (s : Store) (set : CellSet) (c : CellRef) : CellSet × Value :=
  (set.insert c, s.held c)

end LiveMarkup
