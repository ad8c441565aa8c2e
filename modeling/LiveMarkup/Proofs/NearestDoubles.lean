import LiveMarkup.Proofs.Rounding
import LiveMarkup.Proofs.WholeNumbers

/-!
# The double nearest to a decimal

A decimal is made into a double by a single step that rounds: a natural number is multiplied by one,
and a fraction is the quotient of its digits and a power of ten.  If both fit into doubles the
quotient is that of doubles, else one of exact numbers.  Decimals whose leading digit is far from
the point are not looked at any closer; they are infinite or zero.

## Main results

* `Number.isNearest_mul`, `Number.isNearest_div` — products and quotients are rounded once.
* `Number.isNatural_powerOfTen` — the powers of ten that are doubles.
* `Number.isNearest_natural`, `Number.isNearest_quotient` — digits without and with a denominator.
* `Number.decimal_bounds` — a decimal between two powers of ten.
* `Number.isNearest_nearest` — the double made of a decimal is the nearest one.
-/

namespace LiveMarkup.Number

open Float.Model (Format UnpackedFloat totalExponent)
open Float.Model.UnpackedFloat

/-! ### Products and quotients -/

section

variable {m m' : Nat} (hm : 0 < m) (hm' : 0 < m') (e e' : Int)

include hm hm'

theorem isNearest_mul (s s' : Sign) (hdigits : 2 ^ 52 ≤ m * m' ∨ e + e' ≤ -1074) :
    Exact.IsNearest (isMinus (s * s')) (m * 2 ^ e * (m' * 2 ^ e'))
      (Exact.ofBits (pack Format.binary64
        (mul Format.binary64 (.finite s m e hm) (.finite s' m' e' hm'))).toNat) := by
  have hlog : 52 ≤ (m * m').log2 ∨ e + e' ≤ -1074 :=
    hdigits.imp_left fun hlarge => (Nat.le_log2 (by omega)).2 hlarge
  have hproduct : (m : ℚ) * 2 ^ e * (m' * 2 ^ e') = (m * m' : Nat) * 2 ^ (e + e') := by
    rw [zpow_add₀ two_ne_zero]
    push_cast
    ring
  rw [hproduct]
  exact isNearest_roundWithAccuracy hlog (represents_exact _) (s * s')

/-- The numerator is moved up until the quotient has digits enough. -/
theorem quotient_digits {k : Nat} {t : Int} (hk : (k : Int) = e - e' - t)
    (ht : t ≤ Format.binary64.targetExponent (totalExponent m e - totalExponent m' e')) :
    52 ≤ (m * 2 ^ k / m').log2 ∨ t ≤ -1074 := by
  have hmin : Format.binary64.minExponent = -1074 := rfl
  have hbits : Format.binary64.mantissaBits = 53 := rfl
  rw [Format.targetExponent, totalExponent, totalExponent, hmin, hbits] at ht
  rcases le_or_gt t (-1074) with hleast | hmore
  · exact .inr hleast
  · left
    have hlarge : 2 ^ 52 * m' ≤ m * 2 ^ k :=
      calc
        2 ^ 52 * m' ≤ 2 ^ 52 * 2 ^ (m'.log2 + 1) := Nat.mul_le_mul_left _ Nat.lt_log2_self.le
        _ = 2 ^ (52 + (m'.log2 + 1)) := (Nat.pow_add ..).symm
        _ ≤ 2 ^ (m.log2 + k) := Nat.pow_le_pow_right two_pos (by omega)
        _ = 2 ^ m.log2 * 2 ^ k := Nat.pow_add ..
        _ ≤ m * 2 ^ k := Nat.mul_le_mul_right _ (Nat.log2_self_le (Nat.ne_of_gt hm))
    have hquotient : 2 ^ 52 ≤ m * 2 ^ k / m' := (Nat.le_div_iff_mul_le hm').2 hlarge
    exact (Nat.le_log2 (by omega)).2 hquotient

theorem isNearest_div :
    Exact.IsNearest false (m * 2 ^ e / (m' * 2 ^ e')) (Exact.ofBits (pack Format.binary64
      (div Format.binary64 (.finite .positive m e hm) (.finite .positive m' e' hm'))).toNat) := by
  obtain ⟨t, ht⟩ : ∃ t, t = min (e - e') (Format.binary64.targetExponent
      (totalExponent m e - totalExponent m' e')) := ⟨_, rfl⟩
  obtain ⟨k, hk⟩ := Int.eq_ofNat_of_zero_le (by omega : 0 ≤ e - e' - t)
  have hdigits := quotient_digits hm hm' e e' hk.symm (ht.trans_le (min_le_right _ _))
  have hdiv : div Format.binary64 (.finite .positive m e hm) (.finite .positive m' e' hm') =
      roundWithAccuracy Format.binary64 (.positive / .positive) (m * 2 ^ k / m') t
        (accuracyOfFraction (m * 2 ^ k % m') m') := by
    unfold div divCore
    dsimp only
    rw [← ht, hk, Int.toNat_natCast, Nat.shiftLeft_eq]
  have hden : (m' : ℚ) ≠ 0 := by exact_mod_cast hm'.ne'
  have hsplit : ((m * 2 ^ k / m' : Nat) : ℚ) + (m * 2 ^ k % m' : Nat) / m' = m * 2 ^ k / m' := by
    rw [eq_div_iff hden, add_mul, div_mul_cancel₀ _ hden, mul_comm]
    exact_mod_cast Nat.div_add_mod (m * 2 ^ k) m'
  have hrepresents := (represents_fraction (m * 2 ^ k / m') (Nat.mod_lt (m * 2 ^ k) hm')).of_eq
    hsplit
  have hquotient : (m : ℚ) * 2 ^ e / (m' * 2 ^ e') = m * 2 ^ k / m' * 2 ^ t := by
    rw [show e = k + t + e' by omega, zpow_add₀ two_ne_zero, zpow_add₀ two_ne_zero, zpow_natCast]
    have hpower : (2 : ℚ) ^ e' ≠ 0 := zpow_ne_zero e' two_ne_zero
    field_simp
  rw [hdiv, hquotient]
  exact isNearest_roundWithAccuracy hdigits hrepresents (.positive / .positive)

end

/-! ### Natural numbers and quotients by powers of ten -/

/-- A double is nearest to what it is. -/
theorem isNearest_self {x : Float} {m : Nat} {e : Int} (h : Exact.ofFloat x = .finite false m e) :
    Exact.IsNearest false (m * 2 ^ e) (Exact.ofFloat x) := by
  rw [h]
  refine .finite (canonical_of_exact h).lt_overflowBound (fun y r _ => ?_)
    (fun y r _ htie => .inl ?_)
  · rw [sub_self, abs_zero]
    exact abs_nonneg _
  · rw [sub_self, abs_zero, abs_eq_zero, sub_eq_zero] at htie
    exact htie

theorem IsNatural.magnitude {x : Float} {n : Nat} (h : IsNatural x n) (hpos : 0 < n) :
    ∃ m e, Exact.ofFloat x = .finite false m e ∧ 0 < m ∧ (m : ℚ) * 2 ^ e = n := by
  obtain ⟨negative, m, e, hexact, hintegral, rfl, hsign⟩ := h.exact
  obtain rfl : negative = false := Bool.eq_false_iff.2 fun hneg => absurd (hsign hneg) hpos.ne'
  refine ⟨m, e, hexact, Nat.pos_of_ne_zero ?_, magnitude_of_isIntegral hintegral⟩
  rintro rfl
  rw [integerPart_zero] at hpos
  exact lt_irrefl 0 hpos

/-- The powers of ten that are doubles. -/
theorem isNatural_powerOfTen (k : Fin 23) :
    IsNatural (Float.exactlyRepresentablePowersOfTen[k]) (10 ^ k.val) := by
  revert k
  decide +kernel

variable {n : Nat}

theorem isNearest_natural (hpos : 0 < n) :
    Exact.IsNearest false n (Exact.ofFloat (Float.ofScientific n false 0)) := by
  rcases lt_or_ge n (2 ^ 53) with hlt | hle
  · -- the number is a double
    obtain ⟨k, hexact⟩ := exact_ofScientific hpos hlt
    have hself := isNearest_self hexact
    rwa [magnitude_shift] at hself
  · -- it is moved up by 53 digits and multiplied by one, so that rounding has digits enough
    have hexact : Exact.ofFloat (Float.ofScientific n false 0) =
        Exact.ofBits (pack Format.binary64 (ofScientific Format.binary64 n 0)).toNat := by
      unfold Float.ofScientific
      rw [dif_neg (by omega)]
      rfl
    have hbits : Format.binary64.mantissaBits = 53 := rfl
    have hfield : Format.binary64.exponentBits = 11 := rfl
    have hmul : ofScientific Format.binary64 n 0 =
        mul Format.binary64 (.finite .positive (n * 2 ^ 53) (-53) (by positivity))
          (.finite .positive 1 0 one_pos) := by
      unfold ofScientific
      rw [dif_neg hpos.ne', hfield, if_neg (by omega), if_neg (by omega), if_pos le_rfl]
      simp only [hbits, Nat.shiftLeft_eq]
      rfl
    have hvalue : ((n * 2 ^ 53 : Nat) : ℚ) * 2 ^ (-53 : Int) * ((1 : Nat) * 2 ^ (0 : Int)) = n := by
      rw [zpow_zero, Nat.cast_one, mul_one, mul_one]
      exact magnitude_shift n 53
    have hnearest := isNearest_mul (by positivity : 0 < n * 2 ^ 53) one_pos (-53) 0 .positive
      .positive (.inl (by omega))
    rw [hvalue] at hnearest
    rw [hexact, hmul]
    exact hnearest

/-- The quotient of a number and a power of ten that both are doubles. -/
theorem isNearest_quotient_of_fits (hpos : 0 < n) (hlt : n < 2 ^ 53) {k : Nat} (hle : k ≤ 22) :
    Exact.IsNearest false (n / 10 ^ k) (Exact.ofFloat (Float.ofScientific n true k)) := by
  obtain ⟨j, hj, hnormal⟩ := exists_normal hpos hlt
  obtain ⟨m, e, hexact, hm, hvalue⟩ :=
    (isNatural_powerOfTen ⟨k, Nat.lt_succ_of_le hle⟩).magnitude (Nat.pow_pos (by decide))
  have hdiv : Exact.ofFloat (Float.ofScientific n true k) = Exact.ofBits (pack Format.binary64
      (div Format.binary64 (.finite .positive (n * 2 ^ j) (-(j : Int)) hnormal.pos)
        (.finite .positive m e hm))).toNat := by
    rw [← unpack_toFloat hpos hlt hj hnormal, ← unpack_of_exact hexact hm]
    unfold Float.ofScientific
    rw [dif_pos ⟨hlt, hle⟩]
    rfl
  have hnearest := isNearest_div hnormal.pos hm (-(j : Int)) e
  rw [magnitude_shift, hvalue, Nat.cast_pow, Nat.cast_ofNat] at hnearest
  rw [hdiv]
  exact hnearest

/-- The exponent must not be so small that the number is not looked at. -/
theorem isNearest_quotient (hpos : 0 < n) {k : Nat} (hk : 0 < k)
    (hmost : (k : Int) ≤ 2 ^ 11 + n.log2) :
    Exact.IsNearest false (n / 10 ^ k) (Exact.ofFloat (Float.ofScientific n true k)) := by
  by_cases hfits : n < 2 ^ 53 ∧ k ≤ 22
  · exact isNearest_quotient_of_fits hpos hfits.1 hfits.2
  · have hexact : Exact.ofFloat (Float.ofScientific n true k) = Exact.ofBits
        (pack Format.binary64 (ofScientific Format.binary64 n (-(k : Int)))).toNat := by
      have hneg : Int.negOfNat k = -(k : Int) := Int.negOfNat_eq
      unfold Float.ofScientific
      rw [dif_neg hfits]
      simp only [if_pos, hneg]
      rfl
    have hfield : Format.binary64.exponentBits = 11 := rfl
    have hdiv : ofScientific Format.binary64 n (-(k : Int)) =
        div Format.binary64 (.finite .positive n 0 hpos)
          (.finite .positive (10 ^ k) 0 (by positivity)) := by
      unfold ofScientific
      rw [dif_neg hpos.ne', hfield, if_neg (by omega), if_neg (by omega), if_neg (by omega)]
      simp only [Int.neg_neg, Int.toNat_natCast]
    have hnearest := isNearest_div hpos (by positivity : 0 < 10 ^ k) 0 0
    rw [zpow_zero, mul_one, mul_one, Nat.cast_pow, Nat.cast_ofNat] at hnearest
    rw [hexact, hdiv]
    exact hnearest

/-! ### Decimals -/

theorem digitCount_le_iff (hpos : 0 < n) {k : Nat} (hk : 0 < k) :
    digitCount n ≤ k ↔ n < 10 ^ k := by
  rw [digitCount, if_neg hpos.ne']
  exact Nat.length_toDigits_le_iff (by decide) hk

/-- The number of digits is the power of ten that the number stays below. -/
theorem digitCount_spec (hpos : 0 < n) :
    0 < digitCount n ∧ n < 10 ^ digitCount n ∧ 10 ^ (digitCount n - 1) ≤ n := by
  have hsome : 0 < digitCount n := by
    rw [digitCount, if_neg hpos.ne']
    exact Nat.length_toDigits_pos
  refine ⟨hsome, (digitCount_le_iff hpos hsome).1 le_rfl, ?_⟩
  rcases Nat.eq_zero_or_pos (digitCount n - 1) with hone | hmore
  · rw [hone]
    exact hpos
  · by_contra hlt
    have hle := (digitCount_le_iff hpos hmore).2 (Nat.lt_of_not_le hlt)
    omega

theorem log2_bound (hpos : 0 < n) : digitCount n ≤ n.log2 + 1 := by
  rw [digitCount_le_iff hpos (Nat.succ_pos _)]
  exact Nat.lt_log2_self.trans_le (Nat.pow_le_pow_left (by decide) _)

theorem isNearest_zero {q : ℚ} (hnonneg : 0 ≤ q) (hsmall : q / 2 ^ (-1074 : Int) ≤ 1 / 2) :
    Exact.IsNearest false q (Exact.ofFloat 0.0) := by
  have hrounds : Rounds q 0 (-1074) := by
    have hunits : 0 ≤ q / 2 ^ (-1074 : Int) := div_nonneg hnonneg (zpow_nonneg zero_le_two _)
    refine ⟨⟨?_, fun _ => rfl⟩, le_rfl, by linarith, .inr rfl⟩
    rw [Nat.cast_zero, zero_sub, abs_neg, abs_of_nonneg hunits]
    exact hsmall
  have hround := hrounds.isNearest (m := 0) (e := -1074) rfl (fun _ => rfl)
    (by rw [hrounds.overflows_iff]; omega) false
  rw [if_neg (by decide)] at hround
  exact hround

theorem isNearest_infinity {q : ℚ} (hlarge : overflowBound ≤ q) :
    Exact.IsNearest false q (Exact.ofFloat infinity) :=
  .infinite hlarge

/-- A decimal lies between the powers of ten of its leading digit and the next. -/
theorem decimal_bounds (hpos : 0 < n) (e : Int) :
    (10 : ℚ) ^ (e + digitCount n - 1) ≤ n * 10 ^ e ∧
      (n : ℚ) * 10 ^ e < 10 ^ (e + digitCount n) := by
  obtain ⟨hsome, hhigh, hlow⟩ := digitCount_spec hpos
  have hten : (0 : ℚ) < 10 ^ e := zpow_pos (by norm_num) e
  constructor
  · calc
      (10 : ℚ) ^ (e + digitCount n - 1) = 10 ^ (digitCount n - 1) * 10 ^ e := by
        rw [← zpow_natCast, ← zpow_add₀ (by norm_num)]
        congr 1
        omega
      _ ≤ n * 10 ^ e := mul_le_mul_of_nonneg_right (by exact_mod_cast hlow) hten.le
  · calc
      (n : ℚ) * 10 ^ e < 10 ^ digitCount n * 10 ^ e :=
        mul_lt_mul_of_pos_right (by exact_mod_cast hhigh) hten
      _ = 10 ^ (e + digitCount n) := by
        rw [← zpow_natCast, ← zpow_add₀ (by norm_num), Int.add_comm]

theorem two_pow_le_ten_pow {k : Nat} (h : k ≤ 1200) : (2 : ℚ) ^ k ≤ 10 ^ 400 :=
  calc
    (2 : ℚ) ^ k ≤ 2 ^ (3 * 400) := pow_le_pow_right₀ one_le_two h
    _ = (2 ^ 3) ^ 400 := pow_mul 2 3 400
    _ ≤ 10 ^ 400 := pow_le_pow_left₀ (by norm_num) (by norm_num) 400

/-- More than 400 digits before the point are too many. -/
theorem overflowBound_le {p : Int} (h : 400 < p) : overflowBound ≤ 10 ^ (p - 1) :=
  calc
    overflowBound ≤ 2 ^ 1024 := sub_le_self _ (by positivity)
    _ ≤ 10 ^ 400 := two_pow_le_ten_pow (by decide)
    _ = 10 ^ (400 : Int) := (zpow_natCast 10 400).symm
    _ ≤ 10 ^ (p - 1) := zpow_le_zpow_right₀ (by norm_num) (by omega)

/-- After 400 zeros behind the point there is less than half a unit. -/
theorem below_half_unit {q : ℚ} {p : Int} (hq : q < 10 ^ p) (h : p < -400) :
    q / 2 ^ (-1074 : Int) ≤ 1 / 2 := by
  have hsmall : (10 : ℚ) ^ p ≤ 2 ^ (-1075 : Int) :=
    calc
      (10 : ℚ) ^ p ≤ 10 ^ (-(400 : Nat) : Int) := zpow_le_zpow_right₀ (by norm_num) (by omega)
      _ = (10 ^ 400)⁻¹ := by rw [zpow_neg, zpow_natCast]
      _ ≤ (2 ^ 1075)⁻¹ := inv_anti₀ (by positivity) (two_pow_le_ten_pow (by decide))
      _ = 2 ^ (-(1075 : Nat) : Int) := by rw [zpow_neg, zpow_natCast]
  have hunit : (2 : ℚ) ^ (-1074 : Int) = 2 ^ (-1075 : Int) * 2 := zpow_add_one₀ two_ne_zero (-1075)
  rw [div_le_iff₀ (zpow_pos two_pos _), hunit]
  linarith

theorem isNearest_magnitude (d : Decimal) :
    Exact.IsNearest false (d.digits * 10 ^ d.exponent) (Exact.ofFloat (nearest false d)) := by
  obtain ⟨n, e⟩ := d
  unfold nearest
  dsimp only
  rw [if_neg Bool.false_ne_true]
  rcases Nat.eq_zero_or_pos n with rfl | hpos
  · rw [if_pos rfl, Nat.cast_zero, zero_mul]
    exact isNearest_zero le_rfl (by norm_num)
  · obtain ⟨hlow, hhigh⟩ := decimal_bounds hpos e
    rw [if_neg hpos.ne']
    split
    · next hlarge => exact isNearest_infinity ((overflowBound_le hlarge).trans hlow)
    · split
      · next hsmall => exact isNearest_zero (by positivity) (below_half_unit hhigh hsmall)
      · split
        · next hnonneg =>
          obtain ⟨k, rfl⟩ := Int.eq_ofNat_of_zero_le hnonneg
          have hnearest := isNearest_natural (n := n * 10 ^ k) (by positivity)
          push_cast at hnearest
          exact hnearest
        · next hneg =>
          -- a number of few digits was sorted out above if its exponent is too small for a quotient
          obtain ⟨k, rfl⟩ : ∃ k : Nat, e = -(k : Int) := ⟨(-e).toNat, by omega⟩
          have hlog := log2_bound hpos
          have hnearest := isNearest_quotient hpos (k := k) (by omega) (by omega)
          rw [div_eq_mul_inv] at hnearest
          rw [zpow_neg, zpow_natCast, Int.neg_neg, Int.toNat_natCast]
          exact hnearest

theorem Exact.IsNearest.negate {q : ℚ} {x : Exact} (h : x.IsNearest false q) :
    x.negate.IsNearest true q := by
  cases h with
  | infinite hlarge => exact .infinite hlarge
  | finite hsmall hclose heven => exact .finite hsmall hclose heven

/-- The double made of a decimal with a sign is the nearest one. -/
theorem isNearest_nearest (negative : Bool) (d : Decimal) :
    Exact.IsNearest negative (d.digits * 10 ^ d.exponent) (Exact.ofFloat (nearest negative d)) := by
  have hmagnitude := isNearest_magnitude d
  cases negative with
  | false => exact hmagnitude
  | true =>
    have hneg : nearest true d = -nearest false d := rfl
    rw [hneg, exact_neg]
    exact hmagnitude.negate

end LiveMarkup.Number
