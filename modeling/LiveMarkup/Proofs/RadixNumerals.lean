import LiveMarkup.Builtin.Method
import LiveMarkup.Proofs.ExactValues
import LiveMarkup.Proofs.WholeNumbers

/-!
# Numbers written in a base

Written in a base other than ten, a number is the numeral of its integer part with its sign.  The
digits are taken off from the last on, in a bounded number of steps, and are those of the numeral
because no base has a number below `2 ^ 64` with more than 64 of them.  A larger integer part is not
written: the largest number below `2 ^ 64` stands in its place.

## Main definitions

* `Number.baseDigits`, `Number.numeralIn` — the numeral of a natural number in a base.

## Main results

* `Number.digitsUpward_eq` — the digits that are taken off are those of the numeral.
* `radix_text_is_bounded_numeral` — what a number is written as in a base.
* `large_integer_part_is_cut` — an integer part of `2 ^ 64` is written as the number below it.
-/

namespace LiveMarkup

open Number

namespace Number

/-! ### Numerals -/

/-- The digits of all bases, by their values. -/
def baseDigits : List Char := "0123456789abcdefghijklmnopqrstuvwxyz".toList

/-- The numeral of a natural number in a base, without zeros in front. -/
def numeralIn (radix n : Nat) : List Char :=
  if n = 0 then ['0'] else (Nat.digits radix n).reverse.map (baseDigits.getD · '0')

theorem digitOf_eq {d : Nat} (h : d < 36) : digitOf d = baseDigits.getD d '0' := by
  have hall : ∀ d < 36, digitOf d = baseDigits.getD d '0' := by decide
  exact hall d h

/-- As many steps as there are digits take them all off, the last first. -/
theorem digitsUpward_eq {radix : Nat} (hlow : 2 ≤ radix) (hhigh : radix ≤ 36) {fuel n : Nat}
    (hn : n < radix ^ fuel) :
    digitsUpward radix fuel n = (Nat.digits radix n).map (baseDigits.getD · '0') := by
  induction fuel generalizing n with
  | zero =>
    obtain rfl : n = 0 := Nat.lt_one_iff.1 hn
    rw [Nat.digits_zero]
    rfl
  | succ fuel ih =>
    rw [digitsUpward]
    split
    · next hzero =>
      rw [hzero, Nat.digits_zero]
      rfl
    · next hpos =>
      have hdigit : n % radix < 36 := (Nat.mod_lt n (by omega)).trans_le hhigh
      have hrest : n / radix < radix ^ fuel := by
        rw [Nat.div_lt_iff_lt_mul (by omega), ← Nat.pow_succ]
        exact hn
      rw [Nat.digits_def' hlow (Nat.pos_of_ne_zero hpos), List.map_cons, ih hrest,
        digitOf_eq hdigit]

/-- In a base other than ten a number is written as the numeral of its integer part, or of the
largest word. -/
theorem writtenInRadix_eq {x : Float} {negative : Bool} {m : Nat} {e : Int}
    (hx : Exact.ofFloat x = .finite negative m e) {radix : Nat} (hlow : 2 ≤ radix)
    (hhigh : radix ≤ 36) (hten : radix ≠ 10) :
    let n := min (Exact.integerPart m e) maxWord
    writtenInRadix x radix =
      String.ofList (signed (negative && decide (n ≠ 0)) (numeralIn radix n)) := by
  intro n
  have hword : n < radix ^ 64 :=
    calc
      n ≤ maxWord := Nat.min_le_right _ _
      _ < 2 ^ 64 := by decide
      _ ≤ radix ^ 64 := Nat.pow_le_pow_left hlow 64
  have hmin : min maxWord (Exact.integerPart m e) = n := Nat.min_comm _ _
  clear_value n
  unfold writtenInRadix
  rw [hx]
  dsimp only
  rw [if_neg hten, hmin]
  by_cases hzero : n = 0
  · rw [hzero, decide_eq_false (not_not.2 rfl), Bool.and_false]
    rfl
  · obtain ⟨k, rfl⟩ := Nat.exists_eq_succ_of_ne_zero hzero
    show String.ofList (signed negative (digitsUpward radix 64 (k + 1)).reverse) = _
    rw [digitsUpward_eq hlow hhigh hword, decide_eq_true hzero, Bool.and_true, numeralIn,
      if_neg hzero, List.map_reverse]

/-! ### The base that is asked for -/

theorem toIndex_ofNat {n : Nat} (hlt : n < 2 ^ 53) : toIndex (ofNat n) = n := by
  obtain ⟨negative, m, e, hexact, -, hvalue, hsign⟩ := (isNatural_ofNat hlt).exact
  rw [toIndex, saturate, hexact]
  cases negative with
  | true => exact (hsign rfl).symm
  | false =>
    have hword : n ≤ maxWord := Nat.le_sub_one_of_lt (hlt.trans (by decide))
    dsimp only
    rw [hvalue, if_neg Bool.false_ne_true, Nat.min_eq_right hword]

theorem base_in_range {radix : Nat} (hlow : 2 ≤ radix) (hhigh : radix ≤ 36) :
    2.0 ≤ ofNat radix ∧ ofNat radix ≤ 36.0 := by
  interval_cases radix <;> decide

theorem signed_floor {x : Float} {q : ℚ} (hx : value? x = some q) :
    ∃ negative m e, Exact.ofFloat x = .finite negative m e ∧
      Exact.integerPart m e = ⌊|q|⌋₊ ∧ (⌊|q|⌋₊ ≠ 0 → negative = decide (q < 0)) := by
  obtain ⟨negative, m, e, hexact, rfl⟩ := exact_of_value? hx
  have hnonneg := magnitude_nonneg m e
  refine ⟨negative, m, e, hexact, ?_, fun hne => ?_⟩
  · rw [integerPart_eq_floor]
    cases negative with
    | true => rw [if_pos rfl, abs_neg, abs_of_nonneg hnonneg]
    | false => rw [if_neg Bool.false_ne_true, abs_of_nonneg hnonneg]
  · cases negative with
    | true =>
      rw [if_pos rfl, abs_neg, abs_of_nonneg hnonneg] at hne
      have hpos : (0 : ℚ) < m * 2 ^ e :=
        hnonneg.lt_of_ne' fun hzero => hne (by rw [hzero, Nat.floor_zero])
      exact (decide_eq_true (p := _ < _) (by rw [if_pos rfl]; linarith)).symm
    | false =>
      exact (decide_eq_false (p := _ < _) (by rw [if_neg Bool.false_ne_true]; linarith)).symm

end Number

/-- What the method `toString` of a finite number gives in a base from 2 to 36 other than ten: the
numeral of the number truncated towards zero, with a minus sign in front if the number is negative
and the numeral not that of zero.  A truncated number of `2 ^ 64` or more is taken for the one
before `2 ^ 64`. -/
theorem radix_text_is_bounded_numeral (s : Store) {x : Float} {q : ℚ} (hx : value? x = some q)
    {radix : Nat} (hlow : 2 ≤ radix) (hhigh : radix ≤ 36) (hten : radix ≠ 10) {v : Value}
    (hv : s.toNumber v = ofNat radix) (args : List Value) :
    let n := min ⌊|q|⌋₊ (2 ^ 64 - 1)
    s.callBuiltin (.number x) "toString" (v :: args) =
      some (s, .ok (.string (String.ofList
        (signed (decide (q < 0) && decide (n ≠ 0)) (numeralIn radix n))))) := by
  obtain ⟨hleast, hmost⟩ := base_in_range hlow hhigh
  have hgiven : v.isNullish = false := by
    cases v with
    | undefined =>
      rw [← hv] at hleast
      exact absurd (show 2.0 ≤ nan from hleast) (by decide)
    | null =>
      rw [← hv] at hleast
      exact absurd (show (2.0 : Float) ≤ 0.0 from hleast) (by decide)
    | _ => rfl
  have hindex : toIndex (s.toNumber v) = radix := by
    rw [hv]
    exact toIndex_ofNat (by omega)
  obtain ⟨negative, m, e, hexact, hpart, hsign⟩ := signed_floor hx
  have hbase : NumberMethod.radixText s x v = .ok (.string (writtenInRadix x radix)) := by
    unfold NumberMethod.radixText
    dsimp only
    rw [hindex, hv, if_pos ⟨hleast, hmost⟩]
  have hcall : s.callBuiltin (.number x) "toString" (v :: args) =
      some (s, NumberMethod.radixText s x v) := by
    have hown : NumberMethod.call? s x "toString" (v :: args) =
        some (NumberMethod.radixText s x v) := by
      simp only [NumberMethod.call?, List.head?_cons, hgiven, Bool.false_eq_true, if_false]
    simp only [Store.callBuiltin, Store.ownMethod?, hown, Option.map_some, Option.some_or]
  intro n
  have hsigns : (negative && decide (n ≠ 0)) = (decide (q < 0) && decide (n ≠ 0)) := by
    by_cases hn : n = 0
    · rw [decide_eq_false (not_not.2 hn), Bool.and_false, Bool.and_false]
    · rw [hsign fun hzero => hn (by show min _ _ = 0; rw [hzero, Nat.zero_min])]
  rw [hcall, hbase, writtenInRadix_eq hexact hlow hhigh hten, hpart, ← hsigns]
  rfl

/-- A half below minus thirty-five, in the largest base. -/
theorem minus_z_is_written :
    value? (-35.5) = some (-71 / 2) ∧ Store.initial.toNumber (.string " 36 ") = ofNat 36 ∧
      Store.initial.callBuiltin (.number (-35.5)) "toString" [.string " 36 "] =
        some (.initial, .ok (.string "-z")) := by
  have hvalue : value? (-35.5) = some (-71 / 2) := by decide +kernel
  have hradix : Store.initial.toNumber (.string " 36 ") = ofNat 36 := by decide +kernel
  have hnumeral : String.ofList (signed (decide ((-71 / 2 : ℚ) < 0) &&
      decide (min ⌊|(-71 / 2 : ℚ)|⌋₊ (2 ^ 64 - 1) ≠ 0))
        (numeralIn 36 (min ⌊|(-71 / 2 : ℚ)|⌋₊ (2 ^ 64 - 1)))) = "-z" := by
    decide +kernel
  refine ⟨hvalue, hradix, ?_⟩
  rw [← hnumeral]
  exact radix_text_is_bounded_numeral .initial hvalue (by decide) (by decide) (by decide) hradix []

/-- The numeral of `2 ^ 64` in base sixteen is a one with sixteen zeros.  What the number is written
as there is the number below it. -/
theorem large_integer_part_is_cut :
    value? 18446744073709551616.0 = some (2 ^ 64) ∧
      String.ofList (numeralIn 16 (2 ^ 64)) = "10000000000000000" ∧
        Store.initial.callBuiltin (.number 18446744073709551616.0) "toString"
            [.number (ofNat 16)] =
          some (.initial, .ok (.string "ffffffffffffffff")) := by
  have htext : writtenInRadix 18446744073709551616.0 16 = "ffffffffffffffff" := by decide +kernel
  refine ⟨by decide +kernel, by decide +kernel, ?_⟩
  rw [← htext]
  rfl

end LiveMarkup
