import LiveMarkup.Proofs.ExactArithmetic
import LiveMarkup.Proofs.LeadingNumber
import LiveMarkup.Proofs.RadixNumerals

/-!
# Integers written and read back

An integer that is written in a base and read in the same base is the integer again.  The writer
takes digits off a natural number.  The reader multiplies and adds doubles, from the first digit on;
what it has read so far is never above the number, so that up to `2 ^ 53` nothing is rounded.  A
numeral cannot be taken for one with a hexadecimal mark: in base sixteen the mark has a letter that
is no digit, and in other bases, where it can be one, no mark is looked for.

## Main definitions

* `Number.numeralDigits` — the digits of the numeral of a natural number.

## Main results

* `Number.writtenInRadix_integer` — an integer is written as its numeral, in every base.
* `Number.value?_foldl_digits` — digits are put together without rounding.
* `Number.value?_leadingInteger` — a numeral with a sign is read as its integer.
* `integer_is_read_back` — the integer is read that has been written.
-/

namespace LiveMarkup

open Number Text

namespace Number

/-! ### Digits of numerals -/

/-- The digits of the numeral of a natural number in a base, the first digit first. -/
def numeralDigits (radix n : Nat) : List Nat := if n = 0 then [0] else (Nat.digits radix n).reverse

section Digits

variable {radix : Nat} (hlow : 2 ≤ radix) (n : Nat)

theorem numeralIn_eq_map :
    numeralIn radix n = (numeralDigits radix n).map (baseDigits.getD · '0') := by
  unfold numeralIn numeralDigits
  split <;> rfl

theorem numeralDigits_ne_nil : numeralDigits radix n ≠ [] := by
  unfold numeralDigits
  split
  · exact List.cons_ne_nil 0 []
  · next hn =>
    exact fun hnil => hn (Nat.digits_eq_nil_iff_eq_zero.1 (List.reverse_eq_nil_iff.1 hnil))

/-- Put together from the first on, the digits are the number. -/
theorem foldl_numeralDigits : (numeralDigits radix n).foldl (fun k d => k * radix + d) 0 = n := by
  unfold numeralDigits
  split
  · next hn =>
    rw [hn, List.foldl_cons, List.foldl_nil, Nat.zero_mul]
  · rw [List.foldl_reverse]
    have hvalue := Nat.ofDigits_digits radix n
    rw [Nat.ofDigits_eq_foldr] at hvalue
    simpa [Nat.add_comm, Nat.mul_comm] using hvalue

include hlow

theorem lt_of_mem_numeralDigits {d : Nat} (hd : d ∈ numeralDigits radix n) : d < radix := by
  unfold numeralDigits at hd
  split at hd
  · rw [List.mem_singleton.1 hd]
    omega
  · exact Nat.digits_lt_base hlow (List.mem_reverse.1 hd)

/-- The last digit comes after the numeral of what is left without it. -/
theorem numeralIn_of_le (hle : radix ≤ n) :
    numeralIn radix n = numeralIn radix (n / radix) ++ [baseDigits.getD (n % radix) '0'] := by
  have hrest : n / radix ≠ 0 := Nat.ne_of_gt (Nat.div_pos hle (by omega))
  unfold numeralIn
  rw [if_neg (by omega), if_neg hrest, Nat.digits_def' hlow (by omega), List.reverse_cons,
    List.map_append]
  rfl

end Digits

/-- In base ten the numeral is the decimal digits. -/
theorem digitsOf_eq_numeralIn (n : Nat) : digitsOf n = numeralIn 10 n := by
  have hdigit : ∀ d < 10, d.digitChar = baseDigits.getD d '0' ∧ numeralIn 10 d = [d.digitChar] := by
    decide
  induction n using Nat.strongRecOn with
  | ind n ih =>
    rw [digitsOf, Nat.toDigits_eq_if (by decide)]
    split
    · next hlt => exact (hdigit n hlt).2.symm
    · next hle =>
      have htenth := ih (n / 10) (by omega)
      rw [digitsOf] at htenth
      rw [htenth, (hdigit (n % 10) (Nat.mod_lt n (by decide))).1,
        numeralIn_of_le (by decide) n (Nat.le_of_not_lt hle)]

/-! ### Writing -/

variable {x : Float} {z : ℤ} {radix : Nat}

/-- What an integer is taken apart into. -/
theorem exact_of_integer (hx : value? x = some (z : ℚ)) :
    ∃ negative m e, Exact.ofFloat x = .finite negative m e ∧ Exact.isIntegral m e = true ∧
      Exact.integerPart m e = z.natAbs ∧ (z ≠ 0 → negative = decide (z < 0)) := by
  obtain ⟨negative, m, e, hexact, hsigned⟩ := exact_of_value? hx
  have hnonneg := magnitude_nonneg m e
  have hmagnitude : (m : ℚ) * 2 ^ e = z.natAbs := by
    rw [Nat.cast_natAbs, Int.cast_abs, hsigned]
    cases negative with
    | true => rw [if_pos rfl, abs_neg, abs_of_nonneg hnonneg]
    | false => rw [if_neg Bool.false_ne_true, abs_of_nonneg hnonneg]
  refine ⟨negative, m, e, hexact, isIntegral_of_magnitude hmagnitude, ?_, fun hz => ?_⟩
  · rw [integerPart_eq_floor, hmagnitude, Nat.floor_natCast]
  · have hcast : (z : ℚ) ≠ 0 := Int.cast_ne_zero.2 hz
    cases negative with
    | true =>
      rw [if_pos rfl] at hsigned
      have hneg : (z : ℚ) < 0 := lt_of_le_of_ne (by linarith) hcast
      exact (decide_eq_true (Int.cast_lt_zero.1 hneg)).symm
    | false =>
      rw [if_neg Bool.false_ne_true] at hsigned
      have hpos : (0 : ℚ) ≤ z := hsigned ▸ hnonneg
      exact (decide_eq_false (not_lt_of_ge (Int.cast_nonneg_iff.1 hpos))).symm

/-- An integer is written as its numeral with its sign, in every base. -/
theorem writtenInRadix_integer (hx : value? x = some (z : ℚ)) (hz : z.natAbs ≤ 2 ^ 53)
    (hlow : 2 ≤ radix) (hhigh : radix ≤ 36) :
    writtenInRadix x radix =
      String.ofList (signed (decide (z < 0)) (numeralIn radix z.natAbs)) := by
  obtain ⟨negative, m, e, hexact, hintegral, hpart, hsign⟩ := exact_of_integer hx
  by_cases hten : radix = 10
  · subst hten
    rw [← digitsOf_eq_numeralIn, writtenInRadix, hexact]
    show written x = _
    rw [written, hexact]
    dsimp only
    by_cases hm : m = 0
    · obtain rfl : z = 0 := by
        rw [← Int.natAbs_eq_zero, ← hpart, hm, integerPart_zero]
      rw [if_pos hm]
      rfl
    · have hne : z ≠ 0 := fun hzero => hm (mantissa_eq_zero hintegral (by rw [hpart, hzero]; rfl))
      have hsmall : z.natAbs < Nat.pow 10 21 := hz.trans_lt (by decide)
      rw [if_neg hm, hintegral, hpart, decide_eq_true hsmall, hsign hne]
      rfl
  · have hword : min (Exact.integerPart m e) maxWord = z.natAbs := by
      rw [hpart]
      exact Nat.min_eq_left (hz.trans (by decide))
    rw [writtenInRadix_eq hexact hlow hhigh hten, hword]
    congr 2
    by_cases hne : z = 0
    · subst hne
      exact Bool.and_false negative
    · rw [hsign hne, decide_eq_true (p := _ ≠ _) (Int.natAbs_ne_zero.2 hne), Bool.and_true]

/-! ### Reading -/

/-- The digits read so far only ever make the number larger. -/
theorem le_foldl_digits (hradix : 0 < radix) (ds : List Nat) (k : Nat) :
    k ≤ ds.foldl (fun k d => k * radix + d) k := by
  induction ds generalizing k with
  | nil => exact le_rfl
  | cons d ds ih =>
    calc
      k ≤ k * radix := Nat.le_mul_of_pos_right k hradix
      _ ≤ k * radix + d := Nat.le_add_right _ _
      _ ≤ _ := ih (k * radix + d)

/-- Digits are put together without rounding if the number they make has room in a mantissa. -/
theorem value?_foldl_digits (hradix : 0 < radix) (hroom : radix ≤ 2 ^ 53) (ds : List Nat) {k : Nat}
    (hx : value? x = some (k : ℚ)) (hfits : ds.foldl (fun k d => k * radix + d) k ≤ 2 ^ 53) :
    value? (ds.foldl (fun acc d => acc * ofNat radix + ofNat d) x) =
      some ((ds.foldl (fun k d => k * radix + d) k : Nat) : ℚ) := by
  induction ds generalizing k x with
  | nil => exact hx
  | cons d ds ih =>
    have hle := (le_foldl_digits hradix ds (k * radix + d)).trans hfits
    have hproduct := value?_mul_natCast hx (value?_ofNat hroom) (by omega)
    exact ih (value?_add_natCast hproduct (value?_ofNat (by omega)) hle) hfits

theorem radixAsked_ofNat (hlow : 2 ≤ radix) (hhigh : radix ≤ 36) :
    radixAsked (some (ofNat radix)) = (radix, false) := by
  interval_cases radix <;> decide

/-- The value of a digit in any base that has it. -/
theorem digitValue?_baseDigits (hhigh : radix ≤ 36) {d : Nat} (hd : d < radix) :
    digitValue? radix (baseDigits.getD d '0') = some d := by
  have hall : ∀ d < 36, digitValue? 36 (baseDigits.getD d '0') = some d := by decide
  have hlargest := hall d (hd.trans_le hhigh)
  unfold digitValue? at hlargest ⊢
  obtain ⟨hvalue, -⟩ := Option.filter_eq_some_iff.1 hlargest
  exact Option.filter_eq_some_iff.2 ⟨hvalue, decide_eq_true hd⟩

theorem leadingDigits_numeralIn (hlow : 2 ≤ radix) (hhigh : radix ≤ 36) (n : Nat) :
    leadingDigits radix (numeralIn radix n) = numeralDigits radix n := by
  have hdigits : ∀ d ∈ numeralDigits radix n,
      digitValue? radix (baseDigits.getD d '0') = some d := fun d hd =>
    digitValue?_baseDigits hhigh (lt_of_mem_numeralDigits hlow n hd)
  have hall : ∀ c ∈ (numeralDigits radix n).map (baseDigits.getD · '0'),
      (digitValue? radix c).isSome = true := by
    intro c hc
    obtain ⟨d, hd, rfl⟩ := List.mem_map.1 hc
    rw [hdigits d hd]
    rfl
  rw [numeralIn_eq_map, leadingDigits, List.takeWhile_eq_self_iff.2 hall, List.filterMap_map]
  exact (List.filterMap_congr hdigits).trans List.filterMap_some

/-- A numeral begins with a digit, which is neither white space nor a sign. -/
theorem exists_head_numeralIn (hlow : 2 ≤ radix) (hhigh : radix ≤ 36) (n : Nat) :
    ∃ c cs, numeralIn radix n = c :: cs ∧ isBlank c = false ∧ isSign c = false := by
  have hall : ∀ d < 36, isBlank (baseDigits.getD d '0') = false ∧
      isSign (baseDigits.getD d '0') = false := by
    decide
  obtain ⟨d, ds, hds⟩ := List.exists_cons_of_ne_nil (@numeralDigits_ne_nil radix n)
  have hd : d < radix := lt_of_mem_numeralDigits hlow n (hds ▸ List.mem_cons_self)
  refine ⟨_, ds.map (baseDigits.getD · '0'), ?_, hall d (hd.trans_le hhigh)⟩
  rw [numeralIn_eq_map, hds, List.map_cons]

theorem splitSign_trimStart_numeralIn (hlow : 2 ≤ radix) (hhigh : radix ≤ 36) (n : Nat)
    (negative : Bool) :
    splitSign (trimStart (signed negative (numeralIn radix n))) =
      (negative, numeralIn radix n) := by
  obtain ⟨c, cs, hcs, hblank, hsign⟩ := exists_head_numeralIn hlow hhigh n
  rw [hcs]
  cases negative with
  | true => rfl
  | false =>
    show splitSign ((c :: cs).dropWhile isBlank) = _
    rw [List.dropWhile_cons_of_neg (Bool.eq_false_iff.1 hblank)]
    exact splitSign_of_not_isSign hsign

/-- The letter of a hexadecimal mark is no digit in base sixteen. -/
theorem splitHexMark_numeralIn (n : Nat) : splitHexMark (numeralIn 16 n) = none := by
  have hdigit {c : Char} (hc : c ∈ numeralIn 16 n) : c ≠ 'x' ∧ c ≠ 'X' := by
    have hall : ∀ d < 16, baseDigits.getD d '0' ≠ 'x' ∧ baseDigits.getD d '0' ≠ 'X' := by decide
    rw [numeralIn_eq_map] at hc
    obtain ⟨d, hd, rfl⟩ := List.mem_map.1 hc
    exact hall d (lt_of_mem_numeralDigits (by decide) n hd)
  unfold splitHexMark
  split
  · next hmark => exact absurd rfl (hdigit (c := 'x') (by simp [hmark])).1
  · next hmark => exact absurd rfl (hdigit (c := 'X') (by simp [hmark])).2
  · rfl

/-- A numeral with a sign is read digit by digit in its base. -/
theorem leadingInteger_numeralIn (hlow : 2 ≤ radix) (hhigh : radix ≤ 36) (n : Nat)
    (negative : Bool) :
    leadingInteger (String.ofList (signed negative (numeralIn radix n))) (some (ofNat radix)) =
      (if negative then -1.0 else 1.0) *
        (numeralDigits radix n).foldl (fun acc d => acc * ofNat radix + ofNat d) 0.0 := by
  obtain ⟨d, ds, hds⟩ := List.exists_cons_of_ne_nil (@numeralDigits_ne_nil radix n)
  have hdigits := (leadingDigits_numeralIn hlow hhigh n).trans hds
  unfold leadingInteger
  rw [String.toList_ofList, splitSign_trimStart_numeralIn hlow hhigh, radixAsked_ofNat hlow hhigh,
    hds]
  dsimp only
  rw [if_neg (by omega)]
  cases hmark : splitHexMark (numeralIn radix n) with
  | none =>
    dsimp only
    rw [hdigits]
  | some rest =>
    -- the base is not sixteen, so the mark is made of digits
    have hother : ¬(radix = 16 ∨ false = true) := by
      rintro (rfl | hfalse)
      · rw [splitHexMark_numeralIn] at hmark
        cases hmark
      · cases hfalse
    dsimp only
    rw [if_neg hother]
    dsimp only
    rw [hdigits]

theorem value?_leadingInteger (hlow : 2 ≤ radix) (hhigh : radix ≤ 36) {n : Nat} (hn : n ≤ 2 ^ 53)
    (negative : Bool) :
    value? (leadingInteger (String.ofList (signed negative (numeralIn radix n)))
      (some (ofNat radix))) = some (if negative then -(n : ℚ) else n) := by
  have hzero : value? 0.0 = some ((0 : Nat) : ℚ) := isNatural_zero.value?
  have hmagnitude := value?_foldl_digits (by omega) (by omega) (numeralDigits radix n) hzero
    ((foldl_numeralDigits n).trans_le hn)
  rw [foldl_numeralDigits] at hmagnitude
  have hrepresentable := representable_natCast hn
  rw [leadingInteger_numeralIn hlow hhigh]
  cases negative with
  | true =>
    have hone : value? (-1.0) = some (-1) := by decide +kernel
    have hproduct := value?_mul hone hmagnitude (by rwa [neg_one_mul, abs_neg, Nat.abs_cast])
    rwa [neg_one_mul] at hproduct
  | false =>
    have hone : value? 1.0 = some 1 := by decide +kernel
    have hproduct := value?_mul hone hmagnitude (by rwa [one_mul, Nat.abs_cast])
    rwa [one_mul] at hproduct

end Number

/-- A number in a base that is asked for by any value that is taken for it. -/
theorem Store.callBuiltin_toString_radix (s : Store) (x : Float) {radix : Nat} (hlow : 2 ≤ radix)
    (hhigh : radix ≤ 36) {v : Value} (hv : s.toNumber v = ofNat radix) :
    s.callBuiltin (.number x) "toString" [v] =
      some (s, .ok (.string (writtenInRadix x radix))) := by
  have hrange := base_in_range hlow hhigh
  have hgiven : v.isNullish = false := by
    rw [← hv] at hrange
    cases v with
    | undefined => exact absurd (show 2.0 ≤ nan from hrange.1) (by decide)
    | null => exact absurd (show (2.0 : Float) ≤ 0.0 from hrange.1) (by decide)
    | _ => rfl
  have htext : NumberMethod.radixText s x v = .ok (.string (writtenInRadix x radix)) := by
    unfold NumberMethod.radixText
    dsimp only
    rw [hv, if_pos hrange, toIndex_ofNat (by omega)]
  have hown : NumberMethod.call? s x "toString" [v] = some (NumberMethod.radixText s x v) := by
    simp only [NumberMethod.call?, List.head?_cons, hgiven, Bool.false_eq_true, if_false]
  simp only [Store.callBuiltin, Store.ownMethod?, hown, htext, Option.map_some, Option.some_or]

/-- An integer of magnitude `2 ^ 53` at most, written by its method `toString` in a base and read by
`parseInt` in the same base, is the integer again. -/
theorem integer_is_read_back (s : Store) {x : Float} {z : ℤ} (hx : value? x = some (z : ℚ))
    (hz : |z| ≤ 2 ^ 53) {radix : Nat} (hlow : 2 ≤ radix) (hhigh : radix ≤ 36) {v : Value}
    (hv : s.toNumber v = ofNat radix) :
    ∃ text y, s.callBuiltin (.number x) "toString" [v] = some (s, .ok (.string text)) ∧
      s.callFunction (.builtin .parseInt) [.string text, v] = (s, .ok (.number y)) ∧
        value? y = some (z : ℚ) := by
  have hfits : z.natAbs ≤ 2 ^ 53 := by
    rw [Int.abs_eq_natAbs] at hz
    omega
  refine ⟨_, _, s.callBuiltin_toString_radix x hlow hhigh hv, rfl, ?_⟩
  show value? (leadingInteger (writtenInRadix x radix) (some (s.toNumber v))) = _
  rw [hv, writtenInRadix_integer hx hfits hlow hhigh, value?_leadingInteger hlow hhigh hfits]
  congr 1
  rw [Nat.cast_natAbs, Int.cast_abs]
  rcases lt_or_ge z 0 with hneg | hnonneg
  · rw [if_pos (decide_eq_true hneg), abs_of_neg (Int.cast_lt_zero.2 hneg), neg_neg]
  · have hsign : ¬decide (z < 0) = true := fun h => not_lt_of_ge hnonneg (of_decide_eq_true h)
    rw [if_neg hsign, abs_of_nonneg (Int.cast_nonneg_iff.2 hnonneg)]

/-- The largest magnitude with a minus sign, in a base that has the letter of the hexadecimal mark
among its digits. -/
theorem negative_power_is_read_back :
    value? (-9007199254740992.0) = some ((-9007199254740992 : ℤ) : ℚ) ∧
      Store.initial.toNumber (.number 34.0) = ofNat 34 ∧
        ∃ text y, Store.initial.callBuiltin (.number (-9007199254740992.0)) "toString"
            [.number 34.0] = some (.initial, .ok (.string text)) ∧
          Store.initial.callFunction (.builtin .parseInt) [.string text, .number 34.0] =
            (.initial, .ok (.number y)) ∧
              value? y = some ((-9007199254740992 : ℤ) : ℚ) := by
  have hvalue : value? (-9007199254740992.0) = some ((-9007199254740992 : ℤ) : ℚ) := by
    decide +kernel
  have hradix : Store.initial.toNumber (.number 34.0) = ofNat 34 := by decide +kernel
  exact ⟨hvalue, hradix,
    integer_is_read_back .initial hvalue (by decide) (by decide) (by decide) hradix⟩

end LiveMarkup
