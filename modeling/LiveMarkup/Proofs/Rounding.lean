import LiveMarkup.Proofs.BitPatterns

/-!
# Rounding to doubles

Arithmetic on doubles computes a mantissa of enough digits, with two bits for what follows them, and
moves it to the exponent that a double of this size has.  What comes out is the double nearest to
the exact result, and of two at the same distance the one with the even mantissa.

A number is measured here in units of the exponent it is moved to.  Every double is either a whole
number of these units, or has a smaller exponent and lies below all mantissas that are filled; so
rounding to a whole number of units, which is at most half a unit away, leaves no double closer.

## Main definitions

* `Number.Represents` — a mantissa and the two bits after it stand for a number.
* `Number.Rounds` — a magnitude is rounded to a number of units.
* `Number.Exact.IsNearest` — what a magnitude with a sign is rounded to.

## Main results

* `Number.Represents.roundedMantissa` — the two bits suffice for rounding to the nearest.
* `Number.Rounds.apart` — every other double is at least half a unit away.
* `Number.Rounds.overflows_iff` — the numbers that are too large for doubles.
* `Number.isNearest_roundWithAccuracy` — rounding gives the nearest double.
-/

namespace LiveMarkup.Number

open Float.Model (Format UnpackedFloat totalExponent)
open Float.Model.UnpackedFloat

/-! ### Mantissas with bits after them -/

/-- A mantissa and the two bits after it stand for a number.  The first bit is a half, and the
second says whether anything follows it. -/
inductive Represents : ExtendedMantissa → ℚ → Prop
  | intro (m : Nat) (r s : Bool) {x : ℚ} (hnonneg : 0 ≤ x) (hsmall : x < 1 / 2)
    (hsticky : s = true ↔ 0 < x) : Represents ⟨m, r, s⟩ (m + r.toNat / 2 + x)

/-- The natural number is nearest to the rational one, and is the even one of two. -/
structure NearestNatural (n : Nat) (v : ℚ) : Prop where
  close : |(n : ℚ) - v| ≤ 1 / 2
  even : |(n : ℚ) - v| = 1 / 2 → n % 2 = 0

section Bits

variable {em : ExtendedMantissa} {v w : ℚ}

theorem Represents.of_eq (h : Represents em v) (heq : v = w) : Represents em w := heq ▸ h

theorem toNat_le_one (b : Bool) : (b.toNat : ℚ) ≤ 1 := by exact_mod_cast b.toNat_le

theorem Represents.bounds (h : Represents em v) : (em.mantissa : ℚ) ≤ v ∧ v < em.mantissa + 1 := by
  obtain ⟨m, r, s, hnonneg, hsmall, -⟩ := h
  have hbit := toNat_le_one r
  have hnatural : (0 : ℚ) ≤ r.toNat := Nat.cast_nonneg _
  constructor <;> dsimp only <;> linarith

/-- The bit that goes out becomes the round bit, and the one before it is only remembered. -/
theorem Represents.shiftRightOne (h : Represents em v) : Represents em.shiftRightOne (v / 2) := by
  obtain @⟨m, r, s, rest, hnonneg, hsmall, hsticky⟩ := h
  have hbit := toNat_le_one r
  have hnatural : (0 : ℚ) ≤ r.toNat := Nat.cast_nonneg _
  have hremembered : (r || s) = true ↔ 0 < (r.toNat : ℚ) / 4 + rest / 2 := by
    cases r
    · rw [Bool.false_or, hsticky]
      constructor <;> intro hpos <;> norm_num at hpos ⊢ <;> exact hpos
    · refine iff_of_true rfl ?_
      rw [Bool.toNat_true, Nat.cast_one]
      linarith
  refine (Represents.intro (m / 2) (m % 2 != 0) (r || s) (by linarith) (by linarith)
    hremembered).of_eq ?_
  have hdigits : (m : ℚ) = 2 * (m / 2 : Nat) + (m % 2 : Nat) := by
    exact_mod_cast (Nat.div_add_mod m 2).symm
  have hout : ((m % 2 != 0).toNat : ℚ) = (m % 2 : Nat) := by
    rcases Nat.mod_two_eq_zero_or_one m with hout | hout <;> rw [hout] <;> rfl
  rw [hout]
  linarith

theorem Represents.shiftRight (h : Represents em v) (k : Nat) :
    Represents (em >>> k) (v / 2 ^ k) := by
  induction k with
  | zero =>
    rw [pow_zero, div_one]
    exact h
  | succ k ih =>
    rw [pow_succ, ← div_div]
    exact ih.shiftRightOne

theorem nearestNatural_of_lt {n : Nat} (h : |(n : ℚ) - v| < 1 / 2) : NearestNatural n v :=
  ⟨h.le, fun hhalf => absurd hhalf h.ne⟩

theorem Represents.roundedMantissa (h : Represents em v) :
    NearestNatural em.roundedMantissa v := by
  obtain @⟨m, r, s, rest, hnonneg, hsmall, hsticky⟩ := h
  cases r <;> rw [ExtendedMantissa.roundedMantissa]
  · -- less than a half is left out
    have hsame : (ExtendedMantissa.mk m false s).accuracy.roundToNearestEven m = m := by
      cases s <;> rfl
    rw [hsame]
    refine nearestNatural_of_lt (abs_lt.2 ?_)
    rw [Bool.toNat_false, Nat.cast_zero]
    constructor <;> linarith
  · rw [Bool.toNat_true, Nat.cast_one]
    cases s
    · -- just a half, so it goes to the even neighbour
      have hrest : rest = 0 := le_antisymm (le_of_not_gt (mt hsticky.2 Bool.false_ne_true)) hnonneg
      show NearestNatural (m + m % 2) _
      refine ⟨?_, fun _ => by omega⟩
      rcases Nat.mod_two_eq_zero_or_one m with hbit | hbit <;> rw [hbit, hrest, abs_le] <;>
        push_cast <;> constructor <;> linarith
    · have hrest : 0 < rest := hsticky.1 rfl
      show NearestNatural (m + 1) _
      refine nearestNatural_of_lt (abs_lt.2 ?_)
      push_cast
      constructor <;> linarith

end Bits

/-! ### Mantissas with what is cut off -/

theorem represents_exact (m : Nat) :
    Represents (ExtendedMantissa.ofMantissaAndAccuracy m .exact) m := by
  refine (Represents.intro m false false le_rfl (by norm_num)
    (iff_of_false Bool.false_ne_true (lt_irrefl 0))).of_eq ?_
  rw [Bool.toNat_false, Nat.cast_zero, zero_div, add_zero, add_zero]

theorem represents_fraction (m : Nat) {num den : Nat} (hlt : num < den) :
    Represents (ExtendedMantissa.ofMantissaAndAccuracy m (accuracyOfFraction num den))
      (m + num / den) := by
  have hden : (0 : ℚ) < den := by exact_mod_cast Nat.zero_lt_of_lt hlt
  by_cases hzero : num = 0
  · rw [accuracyOfFraction, if_pos hzero, hzero, Nat.cast_zero, zero_div, add_zero]
    exact represents_exact m
  · have hpos : (0 : ℚ) < num / den := div_pos (by exact_mod_cast Nat.pos_of_ne_zero hzero) hden
    have hone : (num : ℚ) / den < 1 := (div_lt_one hden).2 (by exact_mod_cast hlt)
    rw [accuracyOfFraction, if_neg hzero]
    cases hcompare : compare (2 * num) den with
    | lt =>
      have hhalf : (num : ℚ) / den < 1 / 2 := by
        have hdouble := Nat.compare_eq_lt.1 hcompare
        rw [div_lt_div_iff₀ hden two_pos]
        exact_mod_cast (by omega : num * 2 < 1 * den)
      refine (Represents.intro m false true hpos.le hhalf (iff_of_true rfl hpos)).of_eq ?_
      rw [Bool.toNat_false, Nat.cast_zero, zero_div, add_zero]
    | eq =>
      have hhalf : (num : ℚ) / den = 1 / 2 := by
        have hdouble := Nat.compare_eq_eq.1 hcompare
        rw [div_eq_div_iff hden.ne' two_ne_zero]
        exact_mod_cast (by omega : num * 2 = 1 * den)
      refine (Represents.intro m true false le_rfl (by norm_num)
        (iff_of_false Bool.false_ne_true (lt_irrefl 0))).of_eq ?_
      rw [Bool.toNat_true, Nat.cast_one, hhalf, add_zero]
    | gt =>
      have hhalf : 1 / 2 < (num : ℚ) / den := by
        have hdouble := Nat.compare_eq_gt.1 hcompare
        rw [div_lt_div_iff₀ two_pos hden]
        exact_mod_cast (by omega : 1 * den < num * 2)
      refine (Represents.intro m true true (x := num / den - 1 / 2) (by linarith) (by linarith)
        (iff_of_true rfl (by linarith))).of_eq ?_
      rw [Bool.toNat_true, Nat.cast_one]
      ring

/-! ### Doubles around a number -/

/-- The numbers from here on, half a step above the largest double, are rounded to infinity. -/
def overflowBound : ℚ := 2 ^ 1024 - 2 ^ 970

theorem overflowBound_eq : overflowBound = (2 ^ 53 - 1 / 2) * 2 ^ (971 : Int) := by
  have hlarge : (2 : ℚ) ^ 1024 = 2 ^ 53 * 2 ^ 971 := by rw [← pow_add]
  have hhalf : (2 : ℚ) ^ 971 = 2 * 2 ^ 970 := pow_succ' 2 970
  have hcast : (2 : ℚ) ^ (971 : Int) = 2 ^ 971 := zpow_natCast 2 971
  rw [overflowBound, hlarge, hcast, hhalf]
  generalize (2 : ℚ) ^ 970 = u
  ring

/-- What a magnitude with a sign is rounded to: the nearest double, and of two at the same distance
the one with the even mantissa. -/
inductive Exact.IsNearest (negative : Bool) (q : ℚ) : Exact → Prop
  /-- It is too large for doubles. -/
  | infinite (hlarge : overflowBound ≤ q) : IsNearest negative q (.infinite negative)
  /-- No double is closer, and one that is as close only if the mantissa is even. -/
  | finite {m : Nat} {e : Int} (hsmall : q < overflowBound)
    (hclose : ∀ (y : Float) (r : ℚ), Number.value? y = some r → |m * 2 ^ e - q| ≤ |r - q|)
    (heven : ∀ (y : Float) (r : ℚ), Number.value? y = some r → |r - q| = |m * 2 ^ e - q| →
      r = m * 2 ^ e ∨ m % 2 = 0) :
    IsNearest negative q (.finite negative m e)

/-- Doubles are below what is rounded to infinity. -/
theorem Canonical.lt_overflowBound {m : Nat} {e : Int} (h : Canonical m e) :
    (m : ℚ) * 2 ^ e < overflowBound := by
  have he := zpow_le_zpow_right₀ (one_le_two : (1 : ℚ) ≤ 2) h.most
  have hpos : (0 : ℚ) < 2 ^ (971 : Int) := zpow_pos two_pos _
  rw [overflowBound_eq]
  calc
    (m : ℚ) * 2 ^ e ≤ (2 ^ 53 - 1) * 2 ^ (971 : Int) :=
      mul_le_mul h.cast_le he (zpow_nonneg zero_le_two _) (by norm_num)
    _ < (2 ^ 53 - 1 / 2) * 2 ^ (971 : Int) := mul_lt_mul_of_pos_right (by norm_num) hpos

/-- A double with a smaller exponent is at least half a unit below the mantissas that are filled. -/
theorem Canonical.le_of_lt {m : Nat} {e t : Int} (h : Canonical m e) (hlt : e < t) :
    (m : ℚ) * 2 ^ (e - t) ≤ 2 ^ 52 - 1 / 2 := by
  have hhalf : (2 : ℚ) ^ (e - t) ≤ 1 / 2 :=
    (zpow_le_zpow_right₀ one_le_two (by omega : e - t ≤ -1)).trans_eq (by norm_num)
  calc
    (m : ℚ) * 2 ^ (e - t) ≤ (2 ^ 53 - 1) * (1 / 2) :=
      mul_le_mul h.cast_le hhalf (zpow_nonneg zero_le_two _) (by norm_num)
    _ = 2 ^ 52 - 1 / 2 := by norm_num

/-- A magnitude is rounded to `n` units of `2 ^ t`; the unit is as small as it can be. -/
structure Rounds (q : ℚ) (n : Nat) (t : Int) : Prop where
  nearest : NearestNatural n (q / 2 ^ t)
  least : -1074 ≤ t
  fits : q / 2 ^ t < 2 ^ 53
  filled : 2 ^ 52 ≤ q / 2 ^ t ∨ t = -1074

namespace Rounds

variable {q : ℚ} {n : Nat} {t : Int} (h : Rounds q n t)

include h

theorem le : n ≤ 2 ^ 53 := by
  obtain ⟨hlow, hhigh⟩ := abs_le.1 h.nearest.close
  have hlt : (n : ℚ) < (2 ^ 53 + 1 : Nat) := by
    push_cast
    linarith [h.fits]
  exact Nat.lt_succ_iff.1 (by exact_mod_cast hlt)

theorem full : 2 ^ 52 ≤ n ∨ t = -1074 := by
  refine h.filled.imp_left fun hfilled => ?_
  obtain ⟨hlow, hhigh⟩ := abs_le.1 h.nearest.close
  have hlt : ((2 ^ 52 : Nat) : ℚ) < (n + 1 : Nat) := by
    push_cast
    linarith
  exact Nat.lt_succ_iff.1 (by exact_mod_cast hlt)

/-- Every other double is at least half a unit away. -/
theorem apart {m : Nat} {e : Int} (hcanonical : Canonical m e) {r : ℚ}
    (hr : r = m * 2 ^ e ∨ r = -(m * 2 ^ e)) :
    r / 2 ^ t = n ∨ 1 / 2 ≤ |r / 2 ^ t - q / 2 ^ t| := by
  have hunit : (m : ℚ) * 2 ^ e / 2 ^ t = m * 2 ^ (e - t) := by
    rw [zpow_sub₀ two_ne_zero, mul_div_assoc]
  rcases le_or_gt t e with hle | hlt
  · -- it is a whole number of units
    obtain ⟨z, hz⟩ : ∃ z : ℤ, r / 2 ^ t = z := by
      obtain ⟨k, hk⟩ := Int.eq_ofNat_of_zero_le (Int.sub_nonneg.2 hle)
      rw [hk, zpow_natCast] at hunit
      rcases hr with rfl | rfl
      · exact ⟨m * 2 ^ k, by rw [hunit]; push_cast; rfl⟩
      · exact ⟨-(m * 2 ^ k), by rw [neg_div, hunit]; push_cast; rfl⟩
    by_cases hsame : z = n
    · exact .inl (by rw [hz, hsame, Int.cast_natCast])
    · have hone : (1 : ℚ) ≤ |(z : ℚ) - n| := by
        exact_mod_cast Int.one_le_abs (sub_ne_zero.2 hsame)
      have htriangle := abs_sub_le (z : ℚ) (q / 2 ^ t) n
      rw [abs_sub_comm (q / 2 ^ t)] at htriangle
      right
      rw [hz]
      linarith [h.nearest.close]
  · -- it is smaller than all doubles with that unit
    have hleast := hcanonical.least
    have hfilled : 2 ^ 52 ≤ q / 2 ^ t := h.filled.resolve_right (by omega)
    have hunits := hcanonical.le_of_lt hlt
    have hnonneg := magnitude_nonneg m (e - t)
    have hbelow : r / 2 ^ t ≤ m * 2 ^ (e - t) := by
      rcases hr with rfl | rfl
      · exact hunit.le
      · rw [neg_div, hunit]
        linarith
    exact .inr (le_abs.2 (.inr (by linarith)))

/-- With the largest unit, the numbers that are rounded to more than a mantissa holds. -/
theorem eq_iff : n = 2 ^ 53 ↔ 2 ^ 53 - 1 / 2 ≤ q / 2 ^ t := by
  obtain ⟨hlow, hhigh⟩ := abs_le.1 h.nearest.close
  constructor
  · rintro rfl
    push_cast at hlow hhigh
    linarith
  · intro hlarge
    by_contra hne
    have hcast : (n : ℚ) + 1 ≤ 2 ^ 53 := by exact_mod_cast Nat.lt_of_le_of_ne h.le hne
    -- it is halfway between the two, and the one below is odd
    have hn : (n : ℚ) + 1 = 2 ^ 53 := le_antisymm hcast (by linarith)
    have heven := h.nearest.even (by rw [abs_sub_comm, abs_of_nonneg] <;> linarith)
    have hodd : n + 1 = 2 ^ 53 := by exact_mod_cast hn
    omega

/-- The numbers that are too large for doubles. -/
theorem overflows_iff : overflowBound ≤ q ↔ 971 < t ∨ t = 971 ∧ n = 2 ^ 53 := by
  have hpos : (0 : ℚ) < 2 ^ t := zpow_pos two_pos t
  have hq : q = q / 2 ^ t * 2 ^ t := (div_mul_cancel₀ q hpos.ne').symm
  rw [overflowBound_eq, hq]
  have hmost : (0 : ℚ) < 2 ^ (971 : Int) := zpow_pos two_pos _
  rcases lt_trichotomy t 971 with hlt | rfl | hgt
  · have hhalf := zpow_le_zpow_right₀ (one_le_two : (1 : ℚ) ≤ 2) (by omega : t + 1 ≤ 971)
    rw [zpow_add_one₀ two_ne_zero] at hhalf
    generalize (2 : ℚ) ^ (971 : Int) = u at hhalf hmost ⊢
    have hbelow : q / 2 ^ t * 2 ^ t < 2 ^ 53 * (u / 2) :=
      mul_lt_mul h.fits (by linarith) hpos (by norm_num)
    exact iff_of_false (by linarith) (by omega)
  · rw [mul_le_mul_iff_left₀ hmost, ← h.eq_iff]
    exact ⟨fun hn => .inr ⟨rfl, hn⟩, fun hn => (hn.resolve_left (lt_irrefl _)).2⟩
  · have hdouble := zpow_le_zpow_right₀ (one_le_two : (1 : ℚ) ≤ 2) (by omega : 971 + 1 ≤ t)
    rw [zpow_add_one₀ two_ne_zero] at hdouble
    have hfilled : 2 ^ 52 ≤ q / 2 ^ t := h.filled.resolve_right (by omega)
    generalize (2 : ℚ) ^ (971 : Int) = u at hdouble hmost ⊢
    have habove : 2 ^ 52 * (u * 2) ≤ q / 2 ^ t * 2 ^ t :=
      mul_le_mul hfilled hdouble (by positivity) (le_trans (by norm_num) hfilled)
    exact iff_of_true (by linarith) (.inl hgt)

theorem isNearest {m : Nat} {e : Int} (hvalue : (m : ℚ) * 2 ^ e = n * 2 ^ t)
    (hparity : n % 2 = 0 → m % 2 = 0) (hover : 971 < e ↔ overflowBound ≤ q) (negative : Bool) :
    Exact.IsNearest negative q (if 971 < e then .infinite negative else .finite negative m e) := by
  have hpos : (0 : ℚ) < 2 ^ t := zpow_pos two_pos t
  have hscale (r : ℚ) : |r - q| = |r / 2 ^ t - q / 2 ^ t| * 2 ^ t := by
    rw [← sub_div, abs_div, abs_of_pos hpos, div_mul_cancel₀ _ hpos.ne']
  have hunits : (m : ℚ) * 2 ^ e / 2 ^ t = n := by rw [hvalue, mul_div_cancel_right₀ _ hpos.ne']
  have hapart (y : Float) (r : ℚ) (hy : value? y = some r) :
      r = m * 2 ^ e ∨ 1 / 2 ≤ |r / 2 ^ t - q / 2 ^ t| := by
    obtain ⟨negative, m', e', hexact, rfl⟩ := exact_of_value? hy
    refine (h.apart (canonical_of_exact hexact) (by cases negative <;> simp)).imp_left fun heq => ?_
    rw [hvalue, ← heq, div_mul_cancel₀ _ hpos.ne']
  split
  · next hlarge => exact .infinite (hover.1 hlarge)
  · next hsmall =>
    refine .finite (lt_of_not_ge (mt hover.2 hsmall)) (fun y r hy => ?_) (fun y r hy htie => ?_)
    · rcases hapart y r hy with rfl | hhalf
      · exact le_rfl
      · rw [hscale, hscale, hunits]
        exact mul_le_mul_of_nonneg_right (h.nearest.close.trans hhalf) hpos.le
    · refine (hapart y r hy).imp_right fun hhalf => hparity (h.nearest.even ?_)
      rw [hscale, hscale, hunits] at htie
      exact le_antisymm h.nearest.close (hhalf.trans_eq (mul_right_cancel₀ hpos.ne' htie))

end Rounds

/-! ### Rounding -/

theorem targetExponent_eq (m : Nat) (e : Int) :
    Format.binary64.targetExponent (totalExponent m e) = max (m.log2 + e - 52) (-1074) := by
  have hmin : Format.binary64.minExponent = -1074 := rfl
  have hbits : Format.binary64.mantissaBits = 53 := rfl
  rw [Format.targetExponent, totalExponent, hmin, hbits]
  omega

/-- A number whose mantissa has enough digits is moved to the exponent that fits, and rounded. -/
theorem rounds_shift {m : Nat} {e : Int} {a : Accuracy} {v : ℚ}
    (hdigits : 52 ≤ m.log2 ∨ e ≤ -1074)
    (hv : Represents (ExtendedMantissa.ofMantissaAndAccuracy m a) v) :
    Rounds (v * 2 ^ e) (shiftToTargetExponent Format.binary64 m e a).1.roundedMantissa
      (shiftToTargetExponent Format.binary64 m e a).2 := by
  obtain ⟨t, ht⟩ : ∃ t, t = max ((m.log2 : Int) + e - 52) (-1074) := ⟨_, rfl⟩
  obtain ⟨k, hk⟩ := Int.eq_ofNat_of_zero_le (by omega : 0 ≤ t - e)
  have hshift : shiftToTargetExponent Format.binary64 m e a =
      (ExtendedMantissa.ofMantissaAndAccuracy m a >>> k, t) := by
    unfold shiftToTargetExponent shiftToExponent
    dsimp only
    rw [targetExponent_eq, ← ht, hk, Int.toNat_natCast]
    exact Prod.ext rfl (by omega)
  have hunits : v * 2 ^ e / 2 ^ t = v / 2 ^ k := by
    rw [show t = k + e by omega, zpow_add₀ two_ne_zero, zpow_natCast,
      mul_div_mul_right _ _ (zpow_pos two_pos e).ne']
  obtain ⟨hlow, hhigh⟩ := hv.bounds
  have hmantissa : (ExtendedMantissa.ofMantissaAndAccuracy m a).mantissa = m := by
    rcases a with _ | _ | _ | _ <;> rfl
  rw [hmantissa] at hlow hhigh
  have hpos : (0 : ℚ) < 2 ^ k := pow_pos two_pos k
  rw [hshift]
  refine ⟨?_, by omega, ?_, ?_⟩ <;> dsimp only <;> rw [hunits]
  · exact (hv.shiftRight k).roundedMantissa
  · rw [div_lt_iff₀ hpos, ← pow_add]
    calc
      v < ((m + 1 : Nat) : ℚ) := by exact_mod_cast hhigh
      _ ≤ ((2 ^ (m.log2 + 1) : Nat) : ℚ) := by exact_mod_cast Nat.lt_log2_self
      _ = 2 ^ (m.log2 + 1) := by push_cast; rfl
      _ ≤ 2 ^ (53 + k) := pow_le_pow_right₀ one_le_two (by omega)
  · by_cases hleast : t = -1074
    · exact .inr hleast
    · left
      have hm : m ≠ 0 := by
        rintro rfl
        rw [Nat.log2_zero] at ht
        omega
      rw [le_div_iff₀ hpos, ← pow_add]
      calc
        (2 : ℚ) ^ (52 + k) ≤ 2 ^ m.log2 := pow_le_pow_right₀ one_le_two (by omega)
        _ = ((2 ^ m.log2 : Nat) : ℚ) := by push_cast; rfl
        _ ≤ m := by exact_mod_cast Nat.log2_self_le hm
        _ ≤ v := hlow

theorem shift_fits {n : Nat} {t : Int} (hfits : n < 2 ^ 53) (hleast : -1074 ≤ t) :
    shiftToTargetExponent Format.binary64 n t .exact = (⟨n, false, false⟩, t) := by
  have hlog : n.log2 < 53 := by
    by_cases hn : n = 0
    · rw [hn, Nat.log2_zero]
      decide
    · exact (Nat.log2_lt hn).2 hfits
  have hnone : (max ((n.log2 : Int) + t - 52) (-1074) - t).toNat = 0 := by omega
  unfold shiftToTargetExponent shiftToExponent
  dsimp only
  rw [targetExponent_eq, hnone]
  exact Prod.ext rfl (Int.add_zero t)

/-- A mantissa that rounding has made too long by one digit. -/
theorem shift_carry {t : Int} (hleast : -1074 ≤ t) :
    shiftToTargetExponent Format.binary64 (2 ^ 53) t .exact = (⟨2 ^ 52, false, false⟩, t + 1) := by
  have hone : (max (((2 ^ 53 : Nat).log2 : Int) + t - 52) (-1074) - t).toNat = 1 := by
    rw [Nat.log2_two_pow]
    omega
  unfold shiftToTargetExponent shiftToExponent
  dsimp only
  rw [targetExponent_eq, hone]
  rfl

/-- What is too large is packed as an infinity. -/
theorem exact_pack_finite {m : Nat} {e : Int} (hpos : 0 < m) (hhigh : m < 2 ^ 53)
    (hleast : -1074 ≤ e) (hfull : 2 ^ 52 ≤ m ∨ e = -1074) (s : Sign) :
    Exact.ofBits (pack Format.binary64 (.finite s m e hpos)).toNat =
      if 971 < e then .infinite (isMinus s) else .finite (isMinus s) m e := by
  split
  · next hlarge =>
    have hbias : e + (Format.binary64.exponentBias : Int) + (52 : Nat) = e + 1075 := by
      have : Format.binary64.exponentBias = 1023 := rfl
      omega
    have hover :
        pack Format.binary64 (.finite s m e hpos) = pack Format.binary64 (.infinity s) := by
      unfold pack
      dsimp only
      rw [hbias, if_pos (by omega)]
    rw [hover]
    exact exact_pack (u := .infinity s) trivial
  · next hsmall => exact exact_pack (u := .finite s m e hpos) ⟨hhigh, hleast, by omega, hfull⟩

/-- Rounding gives the nearest double. -/
theorem isNearest_roundWithAccuracy {m : Nat} {e : Int} {a : Accuracy} {v : ℚ}
    (hdigits : 52 ≤ m.log2 ∨ e ≤ -1074)
    (hv : Represents (ExtendedMantissa.ofMantissaAndAccuracy m a) v) (s : Sign) :
    Exact.IsNearest (isMinus s) (v * 2 ^ e)
      (Exact.ofBits (pack Format.binary64 (roundWithAccuracy Format.binary64 s m e a)).toNat) := by
  have h := rounds_shift hdigits hv
  unfold roundWithAccuracy
  dsimp only
  generalize (shiftToTargetExponent Format.binary64 m e a).1.roundedMantissa = n at h ⊢
  generalize (shiftToTargetExponent Format.binary64 m e a).2 = t at h ⊢
  by_cases hcarry : n = 2 ^ 53
  · subst hcarry
    have hround := h.isNearest (m := 2 ^ 52) (e := t + 1)
      (by rw [zpow_add_one₀ two_ne_zero]; push_cast; ring) (by decide)
      (by rw [h.overflows_iff]; omega) (isMinus s)
    rw [shift_carry h.least, dif_neg (show 2 ^ 52 ≠ 0 by decide), exact_pack_finite _ (by decide)
      (by have := h.least; omega) (.inl le_rfl)]
    exact hround
  · have hfits : n < 2 ^ 53 := Nat.lt_of_le_of_ne h.le hcarry
    have hround := h.isNearest (m := n) (e := t) rfl id
      (by rw [h.overflows_iff]; omega) (isMinus s)
    rw [shift_fits hfits h.least]
    dsimp only
    split
    · next hzero =>
      subst hzero
      obtain rfl := h.full.resolve_left (by decide)
      rw [exact_pack (u := .zero s) trivial]
      rw [if_neg (by decide)] at hround
      exact hround
    · next hpos =>
      rw [exact_pack_finite (Nat.pos_of_ne_zero hpos) hfits h.least h.full]
      exact hround

end LiveMarkup.Number
