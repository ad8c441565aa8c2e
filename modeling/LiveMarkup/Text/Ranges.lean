/-!
# Sets of characters as ranges

Character classes are written as increasing lists of code point ranges.
-/

namespace LiveMarkup.Text

/-- Whether `n` lies in one of the ranges, which are given in increasing order. -/
def inRanges (n : Nat) : List (Nat × Nat) → Bool
  | [] => false
  | (first, last) :: rest => if n < first then false else n ≤ last || inRanges n rest

/-- A number in a range of the list is found only between the ends of some range. -/
theorem exists_range_of_inRanges {n : Nat} {ranges : List (Nat × Nat)}
    (h : inRanges n ranges = true) : ∃ r ∈ ranges, r.1 ≤ n ∧ n ≤ r.2 := by
  induction ranges with
  | nil => simp [inRanges] at h
  | cons r rest ih =>
    obtain ⟨first, last⟩ := r
    rw [inRanges] at h
    split at h
    · simp at h
    · simp only [Bool.or_eq_true, decide_eq_true_eq] at h
      rcases h with h | h
      · exact ⟨(first, last), by simp, by simp only; omega, h⟩
      · obtain ⟨r, hr, hle⟩ := ih h
        exact ⟨r, by simp [hr], hle⟩

end LiveMarkup.Text
