import LiveMarkup.Builtin.Method
import LiveMarkup.Proofs.ExactValues
import LiveMarkup.Proofs.Naming
import LiveMarkup.Proofs.WholeNumbers

/-!
# Elements taken out and put in

`splice` cuts an array in three: what stays in front, what is taken out, and what stays behind.  Its
arguments are values of any kind, which are taken for numbers; the numbers may have fractions, be
negative or infinite, or be none at all.  Both cuts are made inside the array for all of them, and
no element is lost or doubled.

## Main definitions

* `clamped`, `fromEnd` — integers as positions.
* `reach` — how far into a number of elements a double reaches.

## Main results

* `reach_fromEnd`, `reach_id` — positions and counts that are computed as integers of the machine.
* `splice_keeps_elements` — what the array and the result are.
-/

namespace LiveMarkup

open Number

/-! ### Where cuts are made -/

/-- An integer, moved to the nearest end if it is outside of `0 .. n`. -/
def clamped (n : Nat) (z : ℤ) : Nat := min z.toNat n

/-- A position among `n` elements, counted from the end if it is negative. -/
def fromEnd (n : Nat) (z : ℤ) : ℤ := if z < 0 then n + z else z

/-- How far into `n` elements a double reaches: its fraction is cut off, what is left is counted in
the given way, and moved to the nearest end.  Infinity reaches to the end.  Minus infinity and what
is not a number reach nowhere. -/
def reach (n : Nat) (count : ℤ → ℤ) (x : Float) : Nat :=
  match value? x with
  | some q => clamped n (count (truncated q))
  | none => if Exact.ofFloat x = .infinite false then n else 0

variable {n : Nat} {x : Float}

theorem reach_le (n : Nat) (count : ℤ → ℤ) (x : Float) : reach n count x ≤ n := by
  unfold reach
  split
  · exact Nat.min_le_right _ n
  · split <;> omega

/-- Positions are integers of the machine, which infinity is beyond. -/
theorem reach_fromEnd (hn : n < 2 ^ 64) (x : Float) :
    reach n (fromEnd n) x =
      if toInteger x < 0 then (n + toInteger x).toNat else min (toInteger x).toNat n := by
  unfold reach
  cases hx : value? x with
  | some q =>
    rw [toInteger_eq_truncated hx]
    dsimp only
    unfold clamped fromEnd
    split <;> omega
  | none =>
    dsimp only
    obtain hexact | ⟨negative, hexact⟩ := exact_of_value?_none hx
    · have hzero : toInteger x = 0 := by rw [toInteger, hexact]
      rw [hexact, hzero, if_neg (by decide), if_neg (by decide)]
      exact (Nat.zero_min n).symm
    · have hlarge : toInteger x = if negative then -2 ^ 64 else 2 ^ 64 := by
        rw [toInteger, hexact]
        rfl
      rw [hexact, hlarge]
      cases negative with
      | true =>
        rw [if_neg (by decide), if_pos rfl, if_pos (by decide)]
        omega
      | false =>
        rw [if_pos rfl, if_neg Bool.false_ne_true, if_neg (by decide)]
        omega

theorem reach_id (hn : n < 2 ^ 64) (x : Float) : reach n id x = min (toIndex x) n := by
  have hword : n ≤ maxWord := Nat.le_sub_one_of_lt hn
  unfold reach
  cases hx : value? x with
  | some q =>
    rw [toIndex_eq_truncated hx]
    show min (truncated q).toNat n = _
    omega
  | none =>
    dsimp only
    rw [toIndex, saturate]
    obtain hexact | ⟨negative, hexact⟩ := exact_of_value?_none hx
    · rw [hexact, if_neg (by decide)]
      exact (Nat.zero_min n).symm
    · rw [hexact]
      cases negative with
      | true =>
        rw [if_neg (by decide)]
        exact (Nat.zero_min n).symm
      | false =>
        rw [if_pos rfl]
        exact (Nat.min_eq_right hword).symm

/-- A nullish position is the first one, which it is also taken for as a number. -/
theorem Store.relativeIndex_eq_reach (s : Store) (v : Value) (hn : n < 2 ^ 64) :
    s.relativeIndex v n 0 = reach n (fromEnd n) (s.toNumber v) := by
  rw [reach_fromEnd hn]
  by_cases hnullish : v.isNullish = true
  · have hzero : toInteger (s.toNumber v) = 0 := by
      cases v with
      | undefined => exact (rfl : toInteger nan = 0)
      | null => exact isNatural_zero.value
      | _ => cases hnullish
    rw [Store.relativeIndex, if_pos hnullish, hzero, if_neg (by decide)]
    exact (Nat.zero_min n).symm
  · rw [Store.relativeIndex, if_neg hnullish]

theorem removedCount_eq_reach (s : Store) (v : Option Value) (hn : n < 2 ^ 64) :
    ArrayMethod.removedCount s v n =
      match v with
      | none => n
      | some v => reach n id (s.toNumber v) := by
  cases v with
  | none => rfl
  | some v => exact (reach_id hn _).symm

/-! ### The cuts -/

/-- A list as three parts of it, between two places it is cut at. -/
theorem parts_append {α : Type} (xs : List α) (start count : Nat) :
    xs.take start ++ (xs.drop start).take count ++ xs.drop (start + count) = xs := by
  rw [List.append_assoc, ← List.drop_drop, List.take_append_drop, List.take_append_drop]

/-- An array is edited, and another one is made. -/
theorem Store.edit_and_make (s : Store) {r : ArrayRef} (hmade : s.hasMade (.array r) = true)
    (xs ys : List Value) : ∃ t copy, (s.setItems r xs).newArrayValue ys = (t, .array copy) ∧
      t.items r = xs ∧ s.hasMade (.array copy) = false ∧ t.items copy = ys ∧
      t.hasMade (.array copy) = true ∧ s.Keeps [.array r] t := by
  have hkeeps := s.keeps_setItems r xs
  have hnew : r.id ≠ (s.setItems r xs).arrays.size :=
    Nat.ne_of_lt (of_decide_eq_true (hkeeps.made hmade))
  have hsize : (s.setItems r xs).arrays.size = s.arrays.size := Array.size_setIfInBounds
  refine ⟨((s.setItems r xs).newArray ys).1, _, rfl, ?_, ?_, ?_, ?_,
    hkeeps.trans (keeps_newArray _ ys)⟩
  · rw [items_newArray, if_neg hnew, items_setItems, if_pos ⟨rfl, hmade⟩]
  · exact decide_eq_false (Nat.not_lt.mpr hsize.ge)
  · rw [items_newArray, if_pos rfl]
  · exact decide_eq_true (Nat.lt_of_lt_of_eq (Nat.lt_succ_self _) (Array.size_push ..).symm)

/-- After `splice`, for every list of arguments and any values in it, and for every array that
exists and has a length that is a word of the machine:

* The array was what stays in front, what is taken out, and what stays behind.  It has become the
  front, the arguments from the third on, and the back.
* The result is a new array of what has been taken out.  Everything else is as it was.
* The front ends where the first argument says, which counts from the end if it is negative.  As
  many elements are taken out as the second argument says, or all that remain if there is none. -/
theorem splice_keeps_elements (s : Store) {r : ArrayRef} (hmade : s.hasMade (.array r) = true)
    (hlength : (s.items r).length < 2 ^ 64) (args : List Value) :
    ∃ front taken back t copy, s.items r = front ++ taken ++ back ∧
      s.callBuiltin (.array r) "splice" args = some (t, .ok (.array copy)) ∧
      t.items r = front ++ args.drop 2 ++ back ∧
      s.hasMade (.array copy) = false ∧ t.hasMade (.array copy) = true ∧ t.items copy = taken ∧
      s.Keeps [.array r] t ∧
      front.length = reach (s.items r).length (fromEnd (s.items r).length)
        (s.toNumber (argument args 0)) ∧
      taken.length = match args[1]? with
        | none => (s.items r).length - front.length
        | some v => reach ((s.items r).length - front.length) id (s.toNumber v) := by
  -- what was there gets a name, since the array holds other elements afterwards
  obtain ⟨old, hold⟩ : ∃ old, s.items r = old := ⟨_, rfl⟩
  obtain ⟨start, hstart⟩ : ∃ start, s.relativeIndex (argument args 0) old.length 0 = start :=
    ⟨_, rfl⟩
  obtain ⟨count, hcount⟩ : ∃ count,
    ArrayMethod.removedCount s args[1]? (old.length - start) = count := ⟨_, rfl⟩
  obtain ⟨t, copy, hedited, hitems, hnew, htaken, hthere, hkeeps⟩ := s.edit_and_make hmade
    (old.take start ++ args.drop 2 ++ old.drop (start + count)) ((old.drop start).take count)
  have happly : ArrayMethod.splice.apply r args s = (t, .array copy) := by
    subst hcount hstart hold
    exact hedited
  have hcall : s.callBuiltin (.array r) "splice" args = some (t, .ok (.array copy)) := by
    have hmethod : s.callBuiltin (.array r) "splice" args =
      some ((ArrayMethod.splice.apply r args s).1, .ok (ArrayMethod.splice.apply r args s).2) := rfl
    rw [hmethod, happly]
  rw [hold] at hlength ⊢
  have hposition : start = reach old.length (fromEnd old.length) (s.toNumber (argument args 0)) :=
    hstart.symm.trans (s.relativeIndex_eq_reach (argument args 0) hlength)
  have hcut : start ≤ old.length := hposition.trans_le (reach_le ..)
  have hfront : (old.take start).length = start := List.length_take_of_le hcut
  have hremoved := hcount.symm.trans (removedCount_eq_reach s args[1]? (n := old.length - start)
    (Nat.lt_of_le_of_lt (Nat.sub_le ..) hlength))
  have hremaining : count ≤ (old.drop start).length := by
    rw [List.length_drop, hremoved]
    split
    · exact Nat.le_refl _
    · exact reach_le ..
  refine ⟨old.take start, (old.drop start).take count, old.drop (start + count), t, copy,
    (parts_append old start count).symm, hcall, hitems, hnew, hthere, htaken, hkeeps,
    hfront.trans hposition, ?_⟩
  rw [hfront, List.length_take_of_le hremaining, hremoved]

/-- A store with an array of four elements. -/
def fourElementsStore : Store where
  arrays := #[[.bool true, .bool false, .bool true, .undefined]]

/-- Half an element from the end counts as none, and so does most of one to be taken out. -/
theorem fractions_are_cut_off :
    fourElementsStore.hasMade (.array ⟨0⟩) = true ∧ (fourElementsStore.items ⟨0⟩).length < 2 ^ 64 ∧
      ∃ front taken back t copy, fourElementsStore.items ⟨0⟩ = front ++ taken ++ back ∧
        fourElementsStore.callBuiltin (.array ⟨0⟩) "splice"
          [.number (-2.5), .string "1.9", .null] = some (t, .ok (.array copy)) ∧
        t.items ⟨0⟩ = front ++ [.null] ++ back ∧ t.items copy = taken ∧
        front.length = 2 ∧ taken.length = 1 := by
  have hmade : fourElementsStore.hasMade (.array ⟨0⟩) = true := rfl
  have hlength : (fourElementsStore.items ⟨0⟩).length < 2 ^ 64 := by decide
  obtain ⟨front, taken, back, t, copy, hold, hcall, hitems, -, -, hcopy, -, hfront, htaken⟩ :=
    splice_keeps_elements fourElementsStore hmade hlength [.number (-2.5), .string "1.9", .null]
  have hposition : reach (fourElementsStore.items ⟨0⟩).length
      (fromEnd (fourElementsStore.items ⟨0⟩).length)
      (fourElementsStore.toNumber (.number (-2.5))) = 2 := by
    decide +kernel
  have hcount : reach 2 id (fourElementsStore.toNumber (.string "1.9")) = 1 := by
    decide +kernel
  rw [hfront.trans hposition] at htaken
  exact ⟨hmade, hlength, front, taken, back, t, copy, hold, hcall, hitems, hcopy,
    hfront.trans hposition, htaken.trans hcount⟩

end LiveMarkup
