import LiveMarkup.Proofs.ExactArithmetic
import LiveMarkup.Proofs.IndexedElements

/-!
# Positions in texts

`indexOf` computes a position in a text, and `slice`, `substring`, `charAt`, `at` and `[]` are given
one.  All of them count the same things from the same end, so that what has been found is cut out
again.  Positions are doubles on the way, and those are exact up to `2 ^ 53`.

## Main definitions

* `Text.FirstAt` — a position at which a text occurs for the first time in another.
* `Store.TextGives` — what a method of a text gives.

## Main results

* `Text.firstAt_of_position?`, `Text.position?_eq_zero_iff` — the position that is searched for.
* `Store.relativeIndex_number`, `Store.clampedIndex_number`, `Store.elementIndex?_number` — the
  positions that are given.
* `text_positions_agree` — where texts are found, and what is at each position.
-/

namespace LiveMarkup

open Number Eval

/-! ### Searching -/

namespace Text

/-- The text occurs at the position, and at none before it. -/
structure FirstAt (t cs : List Char) (i : Nat) : Prop where
  occurs : t <+: cs.drop i
  fits : i + t.length ≤ cs.length
  first : ∀ j < i, ¬t <+: cs.drop j

theorem firstAt_of_position? {t cs : List Char} {i : Nat} (h : position? t cs = some i) :
    FirstAt t cs i := by
  induction cs generalizing i with
  | nil =>
    unfold position? at h
    split at h
    · next hempty =>
      cases h
      rw [List.isEmpty_iff.1 hempty]
      refine ⟨?_, le_rfl, nofun⟩
      exact List.nil_prefix
    · cases h
  | cons c cs ih =>
    unfold position? at h
    split at h
    · next hfront =>
      cases h
      have hoccurs := List.isPrefixOf_iff_prefix.1 hfront
      exact ⟨hoccurs, (Nat.zero_add _).trans_le hoccurs.length_le, nofun⟩
    · next hfront =>
      -- the first occurrence is the first in what follows the first character
      obtain ⟨k, hk, rfl⟩ := Option.map_eq_some_iff.1 h
      obtain ⟨hoccurs, hfits, hfirst⟩ := ih hk
      refine ⟨hoccurs, ?_, fun j hj => ?_⟩
      · rw [List.length_cons]
        omega
      · cases j with
        | zero => exact fun hoccurs => hfront (List.isPrefixOf_iff_prefix.2 hoccurs)
        | succ j => exact hfirst j (Nat.lt_of_succ_lt_succ hj)

theorem position?_eq_zero_iff {t cs : List Char} : position? t cs = some 0 ↔ t <+: cs := by
  refine ⟨fun h => (firstAt_of_position? h).occurs, fun h => ?_⟩
  cases cs with
  | nil =>
    rw [List.prefix_nil.1 h]
    rfl
  | cons c cs => rw [position?, if_pos (List.isPrefixOf_iff_prefix.2 h)]

end Text

/-! ### Cutting -/

section Cutting

variable {α : Type} (xs : List α)

/-- A part is at the front of what follows its position. -/
theorem between_prefix (start stop : Nat) : between xs start stop <+: xs.drop start := by
  rw [between, List.drop_take]
  exact List.take_prefix ..

theorem between_add (start count : Nat) :
    between xs start (start + count) = (xs.drop start).take count := by
  rw [between, List.drop_take, Nat.add_sub_cancel_left]

/-- From one position to the next there is one element. -/
theorem between_succ {i : Nat} {x : α} (h : xs[i]? = some x) : between xs i (i + 1) = [x] := by
  obtain ⟨hi, rfl⟩ := List.getElem?_eq_some_iff.1 h
  rw [between_add, List.drop_eq_getElem_cons hi, List.take_succ_cons, List.take_zero]

end Cutting

/-! ### Positions that are given -/

namespace Store

variable {s : Store} {x : Float} {i : Nat} (hx : value? x = some (i : ℚ)) (length default : Nat)

include hx

theorem relativeIndex_number : s.relativeIndex (.number x) length default = min i length := by
  have hinteger : toInteger (s.toNumber (.number x)) = i := (isNatural_of_value? hx).value
  have hnullish : ¬(Value.number x).isNullish = true := Bool.false_ne_true
  rw [relativeIndex, if_neg hnullish, hinteger, if_neg (by omega)]
  rfl

theorem clampedIndex_number (hlength : length ≤ maxWord) :
    s.clampedIndex (.number x) length default = min i length := by
  have hindex : toIndex (s.toNumber (.number x)) = min maxWord i := by
    refine (toIndex_eq_truncated hx).trans ?_
    rw [show truncated i = i from truncated_intCast i]
    rfl
  have hnullish : ¬(Value.number x).isNullish = true := Bool.false_ne_true
  rw [clampedIndex, if_neg hnullish, hindex]
  omega

theorem elementIndex?_number {length : Nat} (hi : i < length) :
    s.elementIndex? (.number x) length = some i := by
  have hinteger : toInteger (s.toNumber (.number x)) = i := (isNatural_of_value? hx).value
  have hnonneg : ¬(i : Int) < 0 := by omega
  have hinside : (0 : Int) ≤ i ∧ (i : Int) < length := by omega
  simp only [elementIndex?, hinteger, if_neg hnonneg, if_pos hinside]
  rfl

end Store

/-! ### Methods of texts -/

/-- A method of a text gives the value, and changes nothing. -/
def Store.TextGives (s : Store) (text method : String) (args : List Value) (v : Value) : Prop :=
  s.callBuiltin (.string text) method args = some (s, .ok v)

section Methods

variable {s : Store} {text t : String}

theorem textGives_iff {method : String} {args : List Value} {cs : List Char}
    (hcall : s.callBuiltin (.string text) method args = some (s, .ok (.ofChars cs))) :
    s.TextGives text method args (.string t) ↔ cs = t.toList := by
  rw [Store.TextGives, hcall]
  constructor
  · intro h
    have htext : String.ofList cs = t :=
      Value.string.inj (Except.ok.inj (Prod.mk.inj (Option.some.inj h)).2)
    rw [← htext, String.toList_ofList]
  · rintro rfl
    rw [Value.ofChars, String.ofList_toList]

theorem textGives_slice {start stop : Value} :
    s.TextGives text "slice" [start, stop] (.string t) ↔
      between text.toList (s.relativeIndex start text.toList.length 0)
        (s.relativeIndex stop text.toList.length text.toList.length) = t.toList :=
  textGives_iff rfl

/-- Positions that cross are taken the other way round. -/
theorem textGives_substring {start stop : Value} :
    s.TextGives text "substring" [start, stop] (.string t) ↔
      let a := s.clampedIndex start text.toList.length 0
      let b := s.clampedIndex stop text.toList.length text.toList.length
      between text.toList (min a b) (max a b) = t.toList :=
  textGives_iff rfl

theorem textGives_bool_iff {method : String} {args : List Value} {b b' : Bool}
    (hcall : s.callBuiltin (.string text) method args = some (s, .ok (.bool b))) :
    s.TextGives text method args (.bool b') ↔ b = b' := by
  rw [Store.TextGives, hcall]
  exact ⟨fun h => Value.bool.inj (Except.ok.inj (Prod.mk.inj (Option.some.inj h)).2),
    fun h => h ▸ rfl⟩

/-- The number that `indexOf` gives tells whether the text occurs, and whether it does in front. -/
theorem textGives_indexOf (s : Store) (text t : String) :
    ∃ x, s.TextGives text "indexOf" [.string t] (.number x) ∧
      (value? x = some (-1) ↔ Text.position? t.toList text.toList = none) ∧
      (value? x = some 0 ↔ Text.position? t.toList text.toList = some 0) ∧
      ∀ i, Text.position? t.toList text.toList = some i → x = ofNat i := by
  have hshown : (s.display (argument [.string t] 0)).toList = t.toList := rfl
  cases hposition : Text.position? t.toList text.toList with
  | none =>
    have hcall : s.TextGives text "indexOf" [.string t] (.number (-1.0)) := by
      show some (StringMethod.indexOf.apply text [.string t] s) = _
      simp only [StringMethod.apply, hshown, hposition]
    have hminus : value? (-1.0) = some (-1) := by decide +kernel
    refine ⟨_, hcall, iff_of_true hminus rfl, iff_of_false (fun hzero => ?_) nofun, nofun⟩
    rw [hminus, Option.some_inj] at hzero
    norm_num at hzero
  | some i =>
    have hcall : s.TextGives text "indexOf" [.string t] (.number (ofNat i)) := by
      show some (StringMethod.indexOf.apply text [.string t] s) = _
      simp only [StringMethod.apply, hshown, hposition]
    refine ⟨_, hcall, iff_of_false (fun hminus => ?_) nofun, ?_, ?_⟩
    · have hnonneg := (closest_of_value?_ofNat hminus).1
      norm_num at hnonneg
    · rw [value?_ofNat_eq_zero_iff, Option.some_inj]
    · rintro _ ⟨⟩
      rfl

variable {i : Nat} {x z : Float} (hlength : text.toList.length ≤ 2 ^ 53)

include hlength

/-- A text that has been found is cut out from where it was found up to where it ends. -/
theorem found_is_cut_out (hfound : Text.FirstAt t.toList text.toList i)
    (hx : value? x = some (i : ℚ)) (hz : value? z = some ((i + t.toList.length : Nat) : ℚ)) :
    ∀ method ∈ ["slice", "substring"],
      s.TextGives text method [.number x, .number z] (.string t) := by
  have hfits := hfound.fits
  have hword : text.toList.length ≤ maxWord := hlength.trans (by decide)
  have hpart : between text.toList i (i + t.toList.length) = t.toList := by
    rw [between_add]
    exact (List.prefix_iff_eq_take.1 hfound.occurs).symm
  simp only [List.mem_cons, List.not_mem_nil, or_false, forall_eq_or_imp, forall_eq]
  constructor
  · rw [textGives_slice, Store.relativeIndex_number hx, Store.relativeIndex_number hz,
      Nat.min_eq_left (by omega), Nat.min_eq_left hfits]
    exact hpart
  · rw [textGives_substring, Store.clampedIndex_number hx _ _ hword,
      Store.clampedIndex_number hz _ _ hword, Nat.min_eq_left (by omega), Nat.min_eq_left hfits]
    show between _ (min i (i + _)) (max i (i + _)) = _
    rw [Nat.min_eq_left (Nat.le_add_right ..), Nat.max_eq_right (Nat.le_add_right ..)]
    exact hpart

/-- No part that starts before the position is the text, wherever the part ends. -/
theorem no_part_before (hfound : Text.FirstAt t.toList text.toList i) {j : Nat} (hj : j < i)
    (hz : value? z = some (j : ℚ)) (stop : Value) :
    ∀ method ∈ ["slice", "substring"],
      ¬s.TextGives text method [.number z, stop] (.string t) := by
  have hword : text.toList.length ≤ maxWord := hlength.trans (by decide)
  -- a part that is the text would be an occurrence where it starts
  have hpart {a b : Nat} (ha : a ≤ j) : ¬between text.toList a b = t.toList := fun h =>
    hfound.first a (Nat.lt_of_le_of_lt ha hj) (h ▸ between_prefix text.toList a b)
  simp only [List.mem_cons, List.not_mem_nil, or_false, forall_eq_or_imp, forall_eq]
  constructor
  · rw [textGives_slice, Store.relativeIndex_number hz]
    exact hpart (Nat.min_le_left ..)
  · -- the end may come before the start, and then the part starts even earlier
    rw [textGives_substring, Store.clampedIndex_number hz _ _ hword]
    exact hpart ((Nat.min_le_left ..).trans (Nat.min_le_left ..))

/-- The character at a position, in all the ways there are to read it. -/
theorem character_is_read (hz : value? z = some (i : ℚ)) {c : Char}
    (hc : text.toList[i]? = some c) :
    getMember s (.string text) (s.propertyKey (.number z)) = .ok (.ofChars [c]) ∧
      (∀ method ∈ ["charAt", "at"], s.TextGives text method [.number z] (.ofChars [c])) ∧
        s.TextGives text "slice" [.number z, binary s .add (.number z) (.number 1.0)]
          (.ofChars [c]) := by
  obtain ⟨hi, -⟩ := List.getElem?_eq_some_iff.1 hc
  have hnatural := isNatural_of_value? hz
  have hone : value? 1.0 = some ((1 : Nat) : ℚ) := by decide +kernel
  have hnext := value?_add_natCast hz hone (by omega)
  refine ⟨?_, ?_, ?_⟩
  · have hkey := hnatural.foundUnder (by omega)
    show Except.ok (s.ownProperty (.string text) (written z)) = _
    simp only [Store.ownProperty, if_neg hkey.ne_length, hkey.index, Option.bind_some, hc]
  · simp only [List.mem_cons, List.not_mem_nil, or_false, forall_eq_or_imp, forall_eq]
    constructor
    · have hinteger : toInteger (s.toNumber (.number z)) = i := hnatural.value
      have hnonneg : ¬(i : Int) < 0 := by omega
      show some (s, Except.ok (Value.ofChars (if toInteger (s.toNumber (.number z)) < 0 then []
        else text.toList[(toInteger (s.toNumber (.number z))).toNat]?.toList))) = _
      rw [hinteger, if_neg hnonneg, Int.toNat_natCast, hc]
      rfl
    · have hargument : argument [.number z] 0 = .number z := rfl
      show some (StringMethod.at.apply text [.number z] s) = _
      simp only [StringMethod.apply, hargument, Store.elementIndex?_number hz hi,
        Option.bind_some, hc]
  · refine textGives_slice.2 ?_
    show between _ _ (s.relativeIndex (.number (z + 1.0)) _ _) = _
    rw [Store.relativeIndex_number hz, Store.relativeIndex_number hnext, Nat.min_eq_left hi.le,
      Nat.min_eq_left hi, between_succ _ hc, String.toList_ofList]

end Methods

/-- Searching and cutting count the same positions, for all texts:

* `indexOf` gives -1 exactly if `includes` gives false, and zero exactly if `startsWith` gives true.
* What has been found is cut out by `slice` and `substring` from there up to its length further on.
  No part that starts at a position before is the same, wherever the part ends.
* At each position there is a character, which `[]`, `charAt`, `at` and `slice` up to the next
  position all read.

Positions are read as doubles, which count as far as `2 ^ 53`. -/
theorem text_positions_agree (s : Store) (text t : String) :
    ∃ x y, s.TextGives text "indexOf" [.string t] (.number x) ∧
      getMember s (.string t) "length" = .ok (.number y) ∧
      (value? x = some (-1) ↔ s.TextGives text "includes" [.string t] (.bool false)) ∧
      (value? x = some 0 ↔ s.TextGives text "startsWith" [.string t] (.bool true)) ∧
      (text.toList.length ≤ 2 ^ 53 →
        (value? x ≠ some (-1) → ∃ i : Nat, value? x = some (i : ℚ) ∧
          (∀ method ∈ ["slice", "substring"], s.TextGives text method
            [.number x, binary s .add (.number x) (.number y)] (.string t)) ∧
          ∀ j < i, ∀ z, value? z = some (j : ℚ) → ∀ stop, ∀ method ∈ ["slice", "substring"],
            ¬s.TextGives text method [.number z, stop] (.string t)) ∧
        ∀ i < text.toList.length, ∀ z, value? z = some (i : ℚ) → ∃ c, text.toList[i]? = some c ∧
          getMember s (.string text) (s.propertyKey (.number z)) = .ok (.ofChars [c]) ∧
          (∀ method ∈ ["charAt", "at"], s.TextGives text method [.number z] (.ofChars [c])) ∧
          s.TextGives text "slice" [.number z, binary s .add (.number z) (.number 1.0)]
            (.ofChars [c])) := by
  obtain ⟨x, hx, hminus, hzero, hfound⟩ := textGives_indexOf s text t
  refine ⟨x, ofNat t.toList.length, hx, rfl, ?_, ?_, fun hlength => ⟨fun hsome => ?_, ?_⟩⟩
  · rw [hminus, textGives_bool_iff rfl, ← Option.isNone_iff_eq_none,
      ← Option.isSome_eq_false_iff]
    rfl
  · rw [hzero, textGives_bool_iff rfl, Text.position?_eq_zero_iff]
    exact List.isPrefixOf_iff_prefix.symm
  · obtain ⟨i, hi⟩ := Option.ne_none_iff_exists'.1 fun hnone => hsome (hminus.2 hnone)
    obtain rfl := hfound i hi
    have hfirst := Text.firstAt_of_position? hi
    have hfits := hfirst.fits
    have hstart : value? (ofNat i) = some (i : ℚ) := value?_ofNat (by omega)
    have hcount := value?_ofNat (n := t.toList.length) (by omega)
    have hstop := value?_add_natCast hstart hcount (hfits.trans hlength)
    exact ⟨i, hstart, found_is_cut_out hlength hfirst hstart hstop,
      fun j hj z hz stop => no_part_before hlength hfirst hj hz stop⟩
  · intro i hi z hz
    exact ⟨_, List.getElem?_eq_getElem hi,
      character_is_read hlength hz (List.getElem?_eq_getElem hi)⟩

/-- Letters that take more than one byte are one position each. -/
theorem accented_letter_is_cut_out :
    "aéßé".toList.length ≤ 2 ^ 53 ∧
      ∃ x y, Store.initial.TextGives "aéßé" "indexOf" [.string "é"] (.number x) ∧
        getMember .initial (.string "é") "length" = .ok (.number y) ∧ value? x ≠ some (-1) ∧
        Store.initial.TextGives "aéßé" "slice"
          [.number x, binary .initial .add (.number x) (.number y)] (.string "é") ∧
        value? 2.0 = some (2 : Nat) ∧
        Store.initial.TextGives "aéßé" "slice"
          [.number 2.0, binary .initial .add (.number 2.0) (.number 1.0)] (.ofChars ['ß']) := by
  have hlength : "aéßé".toList.length ≤ 2 ^ 53 := by decide
  have htwo : value? 2.0 = some (2 : Nat) := by decide +kernel
  obtain ⟨x, y, hx, hy, hminus, -, hpositions⟩ := text_positions_agree .initial "aéßé" "é"
  obtain ⟨hfound, hread⟩ := hpositions hlength
  have hincludes : ¬Store.initial.TextGives "aéßé" "includes" [.string "é"] (.bool false) := by
    rw [textGives_bool_iff (b := true) rfl]
    decide
  have hsome : value? x ≠ some (-1) := fun h => hincludes (hminus.1 h)
  obtain ⟨i, -, hcut, -⟩ := hfound hsome
  obtain ⟨c, hc, -, -, hslice⟩ := hread 2 (by decide) 2.0 htwo
  obtain rfl : c = 'ß' := Option.some.inj (hc.symm.trans (by decide))
  exact ⟨hlength, x, y, hx, hy, hsome, hcut "slice" (.head _), htwo, hslice⟩

end LiveMarkup
