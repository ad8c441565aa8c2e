import LiveMarkup.Proofs.StoreLaws
import Mathlib.Tactic.Common

/-!
# How far an array grows

A write to an array asks for an element at an index, or for a number of elements.  What lies between
the old end and the element, or the new end, is filled up with `undefined`.  One bound keeps the
highest slot of an array, another the padding; a write that oversteps one of them is refused and
changes nothing.

Both bounds are checked at the highest slot that is asked for.  For an element this slot is not
padding, for a number of elements it is.  So a write of the length may add one slot of padding more
than the write of an element.

## Main definitions

* `Extent` — what a write asks of an array.
* `Extent.after` — the elements afterwards.
* `Extent.Fits` — both bounds.
* `ArrayWrite` — the ways to write to an array.

## Main results

* `Extent.perform_of_fits`, `Extent.perform_of_not_fits` — what comes of it.
* `Extent.getElem?_after_element` — the elements after the write of one of them.
* `array_growth_is_bounded` — every way to write stays inside the bounds, or changes nothing.
* `length_write_pads_one_more` — a write of the length that pads more than an element may.
-/

namespace LiveMarkup

/-- What a write asks of an array. -/
inductive Extent
  /-- An element at an index. -/
  | element (index : Nat) (v : Value)
  /-- So many elements. -/
  | elements (count : Nat)

theorem checkGrowth_eq (old index : Nat) :
    checkGrowth old index =
      if index ≤ maxArrayIndex ∧ index - old ≤ maxArrayGrowth then .ok ()
      else .error (.outOfRange index old) := by
  unfold checkGrowth
  by_cases hbounds : index ≤ maxArrayIndex ∧ index - old ≤ maxArrayGrowth
  · rw [if_pos hbounds, if_neg (by omega)]
  · rw [if_neg hbounds, if_pos (by omega)]

namespace Extent

variable {s t : Store} {r : ArrayRef} {e : Extent} {items : List Value} {old : Nat}

/-! ### What is asked for -/

/-- What becomes of the elements that there are. -/
def kept (items : List Value) : Extent → List Value
  | .element i v => items.set i v
  | .elements n => items.take n

/-- The number of slots past the old end that are filled up with `undefined`. -/
def padding (old : Nat) : Extent → Nat
  | .element i _ => i - old
  | .elements n => n - old

/-- What comes after the padding. -/
def last (old : Nat) : Extent → List Value
  | .element i v => if old ≤ i then [v] else []
  | .elements _ => []

/-- The elements after the write. -/
def after (items : List Value) (e : Extent) : List Value :=
  e.kept items ++ (List.replicate (e.padding items.length) .undefined ++ e.last items.length)

/-- The highest slot that is asked for. -/
def top : Extent → Nat
  | .element i _ => i
  | .elements n => n - 1

/-- Whether there is no such slot yet. -/
def Grows (old : Nat) : Extent → Prop
  | .element i _ => old ≤ i
  | .elements n => old < n

/-- The most padding that is added. -/
def room : Extent → Nat
  | .element _ _ => maxArrayGrowth
  | .elements _ => maxArrayGrowth + 1

/-- The bounds on what an array of a length takes. -/
structure Fits (old : Nat) (e : Extent) : Prop where
  padding : e.padding old ≤ e.room
  top : e.Grows old → e.top ≤ maxArrayIndex

/-- Makes the write. -/
def perform (s : Store) (r : ArrayRef) : Extent → Except PropertyError Store
  | .element i v => s.setItem r i v
  | .elements n => s.setLength r n

/-! ### What comes of it -/

theorem after_element_of_lt {i : Nat} {v : Value} (h : i < items.length) :
    (element i v).after items = items.set i v := by
  simp [after, kept, padding, last, Nat.sub_eq_zero_of_le (Nat.le_of_lt h), Nat.not_le_of_lt h]

theorem after_element_of_le {i : Nat} {v : Value} (h : items.length ≤ i) :
    (element i v).after items = resized items i ++ [v] := by
  simp [after, kept, padding, last, resized, h, List.set_eq_of_length_le, List.take_of_length_le]

theorem after_elements (items : List Value) (n : Nat) :
    (elements n).after items = resized items n := by
  simp [after, kept, padding, last, resized]

/-- What fits is done. -/
theorem perform_of_fits (h : e.Fits (s.items r).length) :
    e.perform s r = .ok (s.setItems r (e.after (s.items r))) := by
  obtain ⟨hpadding, htop⟩ := h
  cases e with
  | element i v =>
    simp only [perform, Store.setItem]
    split
    · next hlt => rw [after_element_of_lt hlt]
    · next hle =>
      have hle := Nat.le_of_not_lt hle
      rw [after_element_of_le hle, checkGrowth_eq, if_pos ⟨htop hle, hpadding⟩]
      rfl
  | elements n =>
    simp only [perform, Store.setLength, after_elements]
    split
    · next hlt =>
      simp only [padding, room] at hpadding
      rw [checkGrowth_eq, if_pos ⟨htop hlt, by omega⟩]
      rfl
    · rfl

/-- What does not fit is refused. -/
theorem perform_of_not_fits (h : ¬e.Fits (s.items r).length) :
    e.perform s r = .error (.outOfRange e.top (s.items r).length) := by
  cases e with
  | element i v =>
    have hle : ¬i < (s.items r).length := fun hlt => h
      ⟨by simp only [padding, room]; omega, fun hgrows => absurd hgrows (Nat.not_le_of_lt hlt)⟩
    have hbounds : ¬(i ≤ maxArrayIndex ∧ i - (s.items r).length ≤ maxArrayGrowth) :=
      fun hbounds => h ⟨hbounds.2, fun _ => hbounds.1⟩
    simp only [perform, Store.setItem]
    rw [if_neg hle, checkGrowth_eq, if_neg hbounds]
    rfl
  | elements n =>
    have hlt : (s.items r).length < n := by
      by_contra hle
      exact h ⟨by simp only [padding, room]; omega, fun hgrows => absurd hgrows hle⟩
    have hbounds : ¬(n - 1 ≤ maxArrayIndex ∧ n - 1 - (s.items r).length ≤ maxArrayGrowth) := by
      rintro ⟨htop, hroom⟩
      exact h ⟨by simp only [padding, room]; omega, fun _ => htop⟩
    simp only [perform, Store.setLength]
    rw [if_pos hlt, checkGrowth_eq, if_neg hbounds]
    rfl

/-- A write that succeeds leaves the elements that were asked for. -/
theorem eq_of_perform (h : e.perform s r = .ok t) : t = s.setItems r (e.after (s.items r)) := by
  by_cases hfits : e.Fits (s.items r).length
  · rw [perform_of_fits hfits] at h
    exact (Except.ok.inj h).symm
  · rw [perform_of_not_fits hfits] at h
    cases h

/-! ### Elements afterwards -/

/-- The element is where it was asked for, the others are as they were, and what has come between is
`undefined`. -/
theorem getElem?_after_element (items : List Value) (i k : Nat) (v : Value) :
    ((element i v).after items)[k]? =
      if k = i then some v else if k < items.length then items[k]?
      else if k < i then some .undefined else none := by
  rcases Nat.lt_or_ge i items.length with hlt | hle
  · rw [after_element_of_lt hlt, List.getElem?_set]
    by_cases hk : k = i
    · rw [if_pos hk.symm, if_pos hk, if_pos (hk ▸ hlt)]
    · rw [if_neg (Ne.symm hk), if_neg hk]
      split
      · rfl
      · next hpast =>
        rw [if_neg (by omega)]
        exact List.getElem?_eq_none (Nat.le_of_not_lt hpast)
  · have hlength : (resized items i).length = i := length_resized items i
    rw [after_element_of_le hle]
    rcases Nat.lt_trichotomy k i with hk | rfl | hk
    · rw [List.getElem?_append_left (by omega), if_neg (Nat.ne_of_lt hk), resized,
        List.take_of_length_le hle]
      split
      · next hold => rw [List.getElem?_append_left hold]
      · next hnew =>
        rw [List.getElem?_append_right (by omega), List.getElem?_replicate, if_pos (by omega)]
    · rw [List.getElem?_append_right (by omega), hlength, Nat.sub_self, if_pos rfl]
      rfl
    · rw [if_neg (by omega), if_neg (by omega), if_neg (by omega)]
      exact List.getElem?_eq_none (by simp [hlength]; omega)

/-- What lies past the end reads like the padding, so all but the element reads as before. -/
theorem getD_after_element_of_ne (items : List Value) {i k : Nat} (v : Value) (h : k ≠ i) :
    ((element i v).after items)[k]?.getD .undefined = items[k]?.getD .undefined := by
  rw [getElem?_after_element, if_neg h]
  split
  · rfl
  · next hpast =>
    rw [List.getElem?_eq_none (Nat.le_of_not_lt hpast)]
    split <;> rfl

theorem length_after_element (items : List Value) (i : Nat) (v : Value) :
    ((element i v).after items).length = max items.length (i + 1) := by
  rcases Nat.lt_or_ge i items.length with hlt | hle
  · rw [after_element_of_lt hlt, List.length_set]
    omega
  · rw [after_element_of_le hle, List.length_append, length_resized, List.length_singleton]
    omega

/-- Every new slot is asked for, and none is above the highest that is. -/
theorem le_top {k : Nat} (hold : items.length ≤ k) (hk : k < (e.after items).length) :
    e.Grows items.length ∧ k ≤ e.top := by
  cases e with
  | element i v =>
    rw [length_after_element] at hk
    simp only [Grows, top]
    omega
  | elements n =>
    rw [after_elements, length_resized] at hk
    simp only [Grows, top]
    omega

end Extent

/-! ### Every way to write -/

/-- A single write to an array. -/
inductive ArrayWrite
  /-- An element is put at an index. -/
  | item (index : Nat) (v : Value)
  /-- The array is cut or filled up. -/
  | length (count : Nat)
  /-- A property is written, under any key. -/
  | property (key : String) (v : Value)

/-- Why a write is refused that asks for a slot beyond the bounds. -/
def PropertyError.IsOutOfRange (error : PropertyError) : Prop :=
  ∃ index length, error = .outOfRange index length

namespace ArrayWrite

variable {s t : Store} {r : ArrayRef} {w : ArrayWrite} {e : Extent}

/-- What a write asks for; nothing if it has no index and no length. -/
def extent? (s : Store) : ArrayWrite → Option Extent
  | .item i v => some (.element i v)
  | .length n => some (.elements n)
  | .property key v =>
    if key = "length" then (s.lengthAsked? v).map .elements
    else (indexOfKey? key).map (.element · v)

/-- Makes the write. -/
def attempt (s : Store) (r : ArrayRef) : ArrayWrite → Except PropertyError Store
  | .item i v => s.setItem r i v
  | .length n => s.setLength r n
  | .property key v => s.setProperty (.array r) key v

/-- The store after the write, and why it has been refused if it has. -/
def run (s : Store) (r : ArrayRef) (w : ArrayWrite) : Store × Option PropertyError :=
  match w.attempt s r with
  | .ok t => (t, none)
  | .error error => (s, some error)

theorem attempt_of_extent (h : w.extent? s = some e) : w.attempt s r = e.perform s r := by
  cases w with
  | item i v => cases h; rfl
  | length n => cases h; rfl
  | property key v =>
    simp only [extent?] at h
    simp only [attempt, Store.setProperty]
    split at h
    · next hkey =>
      obtain ⟨n, hn, rfl⟩ := Option.map_eq_some_iff.1 h
      rw [if_pos hkey, hn]
      rfl
    · next hkey =>
      obtain ⟨i, hi, rfl⟩ := Option.map_eq_some_iff.1 h
      rw [if_neg hkey, hi]
      rfl

/-- Without an index or a length a write is refused for that. -/
theorem attempt_of_no_extent (h : w.extent? s = none) :
    ∃ error, w.attempt s r = .error error ∧ ¬error.IsOutOfRange := by
  cases w with
  | item i v => cases h
  | length n => cases h
  | property key v =>
    simp only [extent?] at h
    simp only [attempt, Store.setProperty]
    split at h
    · next hkey =>
      rw [if_pos hkey, Option.map_eq_none_iff.1 h]
      exact ⟨_, rfl, nofun⟩
    · next hkey =>
      rw [if_neg hkey, Option.map_eq_none_iff.1 h]
      exact ⟨_, rfl, nofun⟩

/-- A write that succeeds has asked for something, and that is there. -/
theorem exists_extent (h : w.attempt s r = .ok t) :
    ∃ e, w.extent? s = some e ∧ t = s.setItems r (e.after (s.items r)) := by
  cases hextent : w.extent? s with
  | none =>
    obtain ⟨error, hattempt, -⟩ := attempt_of_no_extent (r := r) hextent
    rw [hattempt] at h
    cases h
  | some e => exact ⟨e, rfl, Extent.eq_of_perform ((attempt_of_extent hextent).symm.trans h)⟩

end ArrayWrite

/-- No write lets an array grow beyond the bounds, and one that is refused changes nothing.  Whether
an element is put at an index, the array is cut or filled up, or a property is written under any
key:

* After a write that succeeds, the array has the elements asked for.  The padding is at most
  `maxArrayGrowth` slots before an element, and one more if a number of elements was asked for; no
  new slot is above `maxArrayIndex`.
* After one that is refused, all is as it was.  It is refused as out of range exactly if it asks for
  an element or a number of elements, and that oversteps one of the two bounds. -/
theorem array_growth_is_bounded (s : Store) {r : ArrayRef} (hmade : s.hasMade (.array r))
    (w : ArrayWrite) :
    let old := (s.items r).length
    (∀ t, w.run s r = (t, none) → ∃ e, w.extent? s = some e ∧
      t.items r = e.after (s.items r) ∧ e.padding old ≤ e.room ∧
        ∀ k, old ≤ k → k < (t.items r).length → k ≤ maxArrayIndex) ∧
      ∀ t error, w.run s r = (t, some error) → t = s ∧
        (error.IsOutOfRange ↔ ∃ e, w.extent? s = some e ∧ ¬e.Fits old) := by
  intro old
  unfold ArrayWrite.run
  cases hextent : w.extent? s with
  | none =>
    obtain ⟨error, hattempt, herror⟩ := ArrayWrite.attempt_of_no_extent (r := r) hextent
    rw [hattempt]
    refine ⟨fun _ h => (nomatch h), fun t error hrun => ?_⟩
    cases hrun
    exact ⟨rfl, fun h => absurd h herror, fun ⟨_, h, _⟩ => nomatch h⟩
  | some e =>
    rw [ArrayWrite.attempt_of_extent hextent]
    by_cases hfits : e.Fits old
    · rw [Extent.perform_of_fits hfits]
      refine ⟨fun t hrun => ?_, fun _ _ h => nomatch h⟩
      cases hrun
      have hitems := (s.items_setItems r r (e.after (s.items r))).trans (if_pos ⟨rfl, hmade⟩)
      refine ⟨e, rfl, hitems, hfits.padding, fun k hold hk => ?_⟩
      rw [hitems] at hk
      obtain ⟨hgrows, htop⟩ := Extent.le_top hold hk
      exact Nat.le_trans htop (hfits.top hgrows)
    · rw [Extent.perform_of_not_fits hfits]
      refine ⟨fun _ h => (nomatch h), fun t error hrun => ?_⟩
      cases hrun
      exact ⟨rfl, fun _ => ⟨e, rfl, hfits⟩, fun _ => ⟨_, _, rfl⟩⟩

/-- A store with an empty array. -/
def emptyArrayStore : Store where
  arrays := #[[]]

/-- An element beyond the bound is refused, and the array stays empty. -/
theorem far_element_is_refused :
    emptyArrayStore.hasMade (.array ⟨0⟩) ∧
      ((ArrayWrite.item 65537 .null).run emptyArrayStore ⟨0⟩).1.items ⟨0⟩ = [] ∧
        ∃ error, ((ArrayWrite.item 65537 .null).run emptyArrayStore ⟨0⟩).2 = some error ∧
          error.IsOutOfRange := by
  have hmade : emptyArrayStore.hasMade (.array ⟨0⟩) := rfl
  have hrun : (ArrayWrite.item 65537 .null).run emptyArrayStore ⟨0⟩ =
      (emptyArrayStore, some (.outOfRange 65537 0)) := rfl
  obtain ⟨hsame, hrange⟩ := (array_growth_is_bounded emptyArrayStore hmade _).2 _ _ hrun
  refine ⟨hmade, by rw [hrun]; rfl, _, by rw [hrun], hrange.2 ⟨_, rfl, fun hfits => ?_⟩⟩
  exact absurd hfits.padding (by decide)

/-- A write of the length adds one slot more than the bound on the growth by a single write. -/
theorem length_write_pads_one_more :
    ∃ t, emptyArrayStore.setProperty (.array ⟨0⟩) "length" (.number 65537.0) = .ok t ∧
      t.items ⟨0⟩ = List.replicate (maxArrayGrowth + 1) .undefined := by
  have hasked : emptyArrayStore.lengthAsked? (.number 65537.0) = some (maxArrayGrowth + 1) := by
    decide
  have hfits : (Extent.elements (maxArrayGrowth + 1)).Fits (emptyArrayStore.items ⟨0⟩).length :=
    ⟨by decide, fun _ => by decide⟩
  have hwrite : emptyArrayStore.setProperty (.array ⟨0⟩) "length" (.number 65537.0) =
      emptyArrayStore.setLength ⟨0⟩ (maxArrayGrowth + 1) := by
    rw [Store.setProperty, if_pos rfl, hasked]
  refine ⟨_, hwrite.trans (Extent.perform_of_fits hfits), ?_⟩
  rw [Store.items_setItems, if_pos ⟨rfl, rfl⟩, Extent.after_elements]
  rfl

end LiveMarkup
