import LiveMarkup.Number.Written
import LiveMarkup.Proofs.BitPatterns
import LiveMarkup.Proofs.Numerals

/-!
# Whole numbers as doubles

A double stands for a natural number if it is that number exactly; for zero both zeros do.  Such a
double is written as the numeral of the number.  In the other direction every natural number below
`2 ^ 53` is made into a double that stands for it: its digits move up until they fill the mantissa,
and neither the conversion nor the multiplication by a power of ten that follows it has anything to
round.

## Main definitions

* `Number.IsNatural` — a double that stands for a natural number.

## Main results

* `Number.IsNatural.written` — it is written as a numeral.
* `Number.roundWithAccuracy_normal` — digits that fill the mantissa are not rounded.
* `Number.isNatural_ofNat` — the double made of a natural number stands for it.
-/

namespace LiveMarkup.Number

open Float.Model (Format UnpackedFloat totalExponent)
open Float.Model.UnpackedFloat

/-! ### Doubles that stand for natural numbers -/

/-- The double is the natural number `n`, or is negative zero and `n` is zero. -/
structure IsNatural (x : Float) (n : Nat) : Prop where
  integral : isInteger x = true
  value : toInteger x = n

instance (x : Float) (n : Nat) : Decidable (IsNatural x n) :=
  decidable_of_iff (isInteger x = true ∧ toInteger x = n)
    ⟨fun ⟨h, h'⟩ => ⟨h, h'⟩, fun h => ⟨h.integral, h.value⟩⟩

variable {x : Float} {n : Nat}

theorem isNatural_of_exact {m : Nat} {e : Int} (h : Exact.ofFloat x = .finite false m e)
    (hintegral : Exact.isIntegral m e = true) (hvalue : Exact.integerPart m e = n) :
    IsNatural x n := by
  constructor
  · rw [isInteger, h]
    exact hintegral
  · rw [toInteger, h]
    exact congrArg Int.ofNat hvalue

theorem isIntegral_zero (e : Int) : Exact.isIntegral 0 e = true := by
  simp [Exact.isIntegral]

theorem integerPart_zero (e : Int) : Exact.integerPart 0 e = 0 := by
  simp [Exact.integerPart]

/-- A magnitude without a fraction is zero if its integer part is. -/
theorem mantissa_eq_zero {m : Nat} {e : Int} (hintegral : Exact.isIntegral m e = true)
    (hzero : Exact.integerPart m e = 0) : m = 0 := by
  unfold Exact.integerPart at hzero
  split at hzero
  · exact (Nat.mul_eq_zero.1 hzero).resolve_right (Nat.ne_of_gt (Nat.pow_pos (by decide)))
  · next hneg =>
    rw [Exact.isIntegral, decide_eq_false hneg, Bool.false_or, beq_iff_eq] at hintegral
    have hsplit := Nat.div_add_mod m (Nat.pow 2 (-e).toNat)
    rw [hzero, hintegral] at hsplit
    exact hsplit.symm

theorem IsNatural.exact (h : IsNatural x n) :
    ∃ negative m e, Exact.ofFloat x = .finite negative m e ∧ Exact.isIntegral m e = true ∧
      Exact.integerPart m e = n ∧ (negative = true → n = 0) := by
  obtain ⟨hintegral, hvalue⟩ := h
  unfold isInteger at hintegral
  unfold toInteger at hvalue
  split at hintegral
  · next negative m e hexact =>
    rw [hexact] at hvalue
    refine ⟨negative, m, e, hexact, hintegral, ?_⟩
    cases negative
    · exact ⟨Int.ofNat.inj hvalue, nofun⟩
    · simp only [if_pos] at hvalue
      omega
  · cases hintegral

/-- A whole number is written as its numeral.  From `10 ^ 21` on the digits are rounded. -/
theorem IsNatural.written (h : IsNatural x n) (hlt : n < 10 ^ 21) : written x = toString n := by
  obtain ⟨negative, m, e, hexact, hintegral, rfl, hsign⟩ := h.exact
  unfold Number.written
  rw [hexact]
  dsimp only
  by_cases hm : m = 0
  · have hzero : Exact.integerPart m e = 0 := by rw [hm, integerPart_zero]
    rw [if_pos hm, hzero]
    rfl
  · have hpositive : negative = false :=
      Bool.eq_false_iff.2 fun hnegative => hm (mantissa_eq_zero hintegral (hsign hnegative))
    rw [if_neg hm, hintegral, Bool.true_and, if_pos (decide_eq_true (p := _ < Nat.pow 10 21) hlt),
      hpositive,
      ← String.toList_inj, toList_toString]
    exact String.toList_ofList

theorem isNatural_zero : IsNatural 0.0 0 :=
  have hexact : Exact.ofFloat 0.0 = .finite false 0 (-1074) := rfl
  isNatural_of_exact hexact (isIntegral_zero _) (integerPart_zero _)

/-! ### Nothing to round -/

/-- Zeros at the end go without a trace. -/
theorem shiftRight_exact (m k : Nat) :
    (ExtendedMantissa.mk (m * 2 ^ k) false false) >>> k = ExtendedMantissa.mk m false false := by
  induction k generalizing m with
  | zero => simp [HShiftRight.hShiftRight, Nat.repeat]
  | succ k ih =>
    -- all but one of the zeros are gone, so twice the mantissa is left
    have hstep := ih (m * 2)
    rw [Nat.mul_assoc, ← Nat.pow_succ'] at hstep
    show ((ExtendedMantissa.mk (m * 2 ^ (k + 1)) false false) >>> k).shiftRightOne = _
    rw [hstep]
    simp [ExtendedMantissa.shiftRightOne]

section Rounding

variable {m : Nat} {e : Int}

theorem shiftToTargetExponent_normal (h : Normal m e) (k : Nat) :
    shiftToTargetExponent Format.binary64 (m * 2 ^ k) (e - k) .exact = (⟨m, false, false⟩, e) := by
  have hk : (e - (e - k)).toNat = k := by omega
  unfold shiftToTargetExponent shiftToExponent
  dsimp only
  rw [h.targetExponent, hk]
  exact Prod.ext (shiftRight_exact m k) (Int.sub_add_cancel e k)

/-- Digits that fill the mantissa, with zeros after them, are not rounded. -/
theorem roundWithAccuracy_normal (h : Normal m e) (s : Sign) (k : Nat) :
    roundWithAccuracy Format.binary64 s (m * 2 ^ k) (e - k) .exact = .finite s m e h.pos := by
  have hagain := shiftToTargetExponent_normal h 0
  rw [Nat.pow_zero, Nat.mul_one, Int.natCast_zero, Int.sub_zero] at hagain
  have hround : (ExtendedMantissa.mk m false false).roundedMantissa = m := rfl
  unfold roundWithAccuracy
  rw [shiftToTargetExponent_normal h]
  dsimp only
  simp only [hround, hagain, Nat.ne_of_gt h.pos, ↓reduceDIte]

theorem ofBits_pack_normal (h : Normal m e) :
    Exact.ofBits (pack Format.binary64 (.finite .positive m e h.pos)).toNat =
      .finite false m e :=
  exact_pack (u := .finite .positive m e h.pos) h.canonical

end Rounding

/-! ### Doubles made of natural numbers -/

/-- The digits of a natural number move up until they fill the mantissa. -/
theorem exists_normal (hpos : 0 < n) (hlt : n < 2 ^ 53) :
    ∃ k : Nat, n.log2 + k = 52 ∧ Normal (n * 2 ^ k) (-(k : Int)) := by
  have hlog : n.log2 < 53 := (Nat.log2_lt (Nat.ne_of_gt hpos)).2 hlt
  obtain ⟨k, hk⟩ : ∃ k, n.log2 + k = 52 := ⟨52 - n.log2, by omega⟩
  have hfill : 2 ^ n.log2 * 2 ^ k = 2 ^ 52 := by rw [← Nat.pow_add, hk]
  refine ⟨k, hk, ?_, ?_, by omega, by omega⟩
  · rw [← hfill]
    exact Nat.mul_le_mul_right _ (Nat.log2_self_le (Nat.ne_of_gt hpos))
  · calc
      n * 2 ^ k < 2 ^ (n.log2 + 1) * 2 ^ k :=
        Nat.mul_lt_mul_of_pos_right Nat.lt_log2_self (Nat.pow_pos (by decide))
      _ = 2 ^ n.log2 * 2 ^ k * 2 := by rw [Nat.pow_succ, Nat.mul_right_comm]
      _ = 2 ^ 53 := by rw [hfill, ← Nat.pow_succ]

theorem round_natural {k : Nat} (hk : n.log2 + k = 52) (h : Normal (n * 2 ^ k) (-(k : Int))) :
    round Format.binary64 .positive n 0 = .finite .positive (n * 2 ^ k) (-(k : Int)) h.pos := by
  have htarget : Format.binary64.targetExponent (totalExponent n 0) = -(k : Int) := by
    have hmin : Format.binary64.minExponent = -1074 := rfl
    have hbits : Format.binary64.mantissaBits = 53 := rfl
    rw [Format.targetExponent, totalExponent, hmin, hbits]
    omega
  have hshift : (0 - -(k : Int)).toNat = k := by omega
  have hrounded := roundWithAccuracy_normal h .positive 0
  rw [Nat.pow_zero, Nat.mul_one, Int.natCast_zero, Int.sub_zero] at hrounded
  unfold UnpackedFloat.round decreaseExponent
  dsimp only
  rw [htarget, hshift, Nat.shiftLeft_eq, Int.zero_sub]
  exact hrounded

theorem unpack_toFloat (hpos : 0 < n) (hlt : n < 2 ^ 53) {k : Nat} (hk : n.log2 + k = 52)
    (h : Normal (n * 2 ^ k) (-(k : Int))) :
    n.toUInt64.toFloat.toModel.unpack = .finite .positive (n * 2 ^ k) (-(k : Int)) h.pos := by
  have hword : n.toUInt64.toNat = n := by
    rw [Nat.toUInt64_eq, UInt64.toNat_ofNat']
    omega
  have hsign : compare (n : Int) 0 = .gt := by
    rw [Int.compare_eq_gt]
    omega
  have hround : ofUInt64 Format.binary64 n.toUInt64 = round Format.binary64 .positive n 0 := by
    unfold ofUInt64 UnpackedFloat.ofNat UnpackedFloat.ofInt UnpackedFloat.normalize
    simp only [hword, hsign, Int.toNat_natCast]
  show unpack Format.binary64 (pack Format.binary64 (ofUInt64 Format.binary64 n.toUInt64)) = _
  rw [hround, round_natural hk h, unpack_pack_normal h]

/-- The power of ten that a number without an exponent is multiplied by is one. -/
theorem unpack_powerOfTen :
    (Float.exactlyRepresentablePowersOfTen[0]).toModel.unpack =
      .finite .positive (2 ^ 52) (-52) (Nat.pow_pos (by decide)) := rfl

theorem exact_ofScientific (hpos : 0 < n) (hlt : n < 2 ^ 53) :
    ∃ k : Nat, Exact.ofFloat (Float.ofScientific n false 0) =
      .finite false (n * 2 ^ k) (-(k : Int)) := by
  obtain ⟨k, hk, h⟩ := exists_normal hpos hlt
  -- one has a filled mantissa as well, so the product has 52 zeros after its digits
  have hproduct := roundWithAccuracy_normal h (Sign.positive * Sign.positive) 52
  rw [show -(k : Int) - (52 : Nat) = -(k : Int) + -52 from rfl] at hproduct
  refine ⟨k, ?_⟩
  unfold Float.ofScientific
  rw [dif_pos ⟨hlt, by decide⟩]
  show Exact.ofBits (pack Format.binary64 (mul Format.binary64 n.toUInt64.toFloat.toModel.unpack
    (Float.exactlyRepresentablePowersOfTen[0]).toModel.unpack)).toNat = _
  rw [unpack_powerOfTen, unpack_toFloat hpos hlt hk h, mul, hproduct]
  exact ofBits_pack_normal h

/-- Numbers of fewer than 54 binary digits are far from the decimals that count as infinite. -/
theorem ofNat_eq_ofScientific (hpos : 0 < n) (hlt : n < 2 ^ 53) :
    ofNat n = Float.ofScientific n false 0 := by
  have hdigits : digitCount n ≤ 16 := by
    rw [digitCount, if_neg (Nat.ne_of_gt hpos), Nat.length_toDigits_le_iff (by decide) (by decide)]
    exact Nat.lt_trans hlt (by decide)
  have hscaled : n * Nat.pow 10 (0 : Int).toNat = n := Nat.mul_one n
  unfold ofNat nearest
  dsimp only
  rw [if_neg Bool.false_ne_true, if_neg (Nat.ne_of_gt hpos), if_neg (by omega),
    if_neg (by omega), if_pos (Int.le_refl 0), hscaled]

/-- The double made of a natural number that has room in the mantissa stands for it. -/
theorem isNatural_ofNat (hlt : n < 2 ^ 53) : IsNatural (ofNat n) n := by
  rcases Nat.eq_zero_or_pos n with rfl | hpos
  · exact isNatural_zero
  · obtain ⟨k, hexact⟩ := exact_ofScientific hpos hlt
    rw [← ofNat_eq_ofScientific hpos hlt] at hexact
    have hpow : 0 < 2 ^ k := Nat.pow_pos (by decide)
    refine isNatural_of_exact hexact ?_ ?_
    · rw [Exact.isIntegral, Int.neg_neg, Int.toNat_natCast, Nat.pow_eq, Nat.mul_mod_left]
      exact Bool.or_true _
    · unfold Exact.integerPart
      split
      · -- the digits have not moved: they filled the mantissa already
        next hnonneg =>
        have hk : k = 0 := by omega
        subst hk
        exact (Nat.mul_one _).trans (Nat.mul_one n)
      · rw [Int.neg_neg, Int.toNat_natCast]
        exact Nat.mul_div_cancel n hpow

example : IsNatural 4294967294.0 4294967294 := by decide

end LiveMarkup.Number
