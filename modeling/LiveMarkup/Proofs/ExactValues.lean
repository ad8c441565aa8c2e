import LiveMarkup.Number.Binary64
import Mathlib

/-!
# What doubles are

A finite double is a rational number: its mantissa, moved by its exponent, with its sign.  The
operations on mantissas and exponents are read here as operations on rational numbers.

## Main definitions

* `Number.value?` — the rational number that a finite double is.
* `Number.truncated` — a rational number without its fraction.

## Main results

* `Number.integerPart_eq_floor` — the integer part of a magnitude is the rational one.
* `Number.toInteger_eq_truncated`, `Number.toIndex_eq_truncated` — doubles as integers and
  positions.
-/

namespace LiveMarkup.Number

/-- The rational number that a mantissa and an exponent with a sign are. -/
def Exact.value? : Exact → Option ℚ
  | .finite negative m e => some (if negative then -(m * 2 ^ e) else m * 2 ^ e)
  | _ => none

/-- The rational number that a finite double is. -/
def value? (x : Float) : Option ℚ := (Exact.ofFloat x).value?

theorem exact_of_value? {x : Float} {q : ℚ} (h : value? x = some q) :
    ∃ negative m e, Exact.ofFloat x = .finite negative m e ∧
      q = if negative then -((m : ℚ) * 2 ^ e) else m * 2 ^ e := by
  unfold value? at h
  cases hx : Exact.ofFloat x with
  | nan | infinite =>
    rw [hx] at h
    cases h
  | finite negative m e =>
    rw [hx] at h
    exact ⟨negative, m, e, rfl, (Option.some.inj h).symm⟩

/-- What has no value is infinite or not a number. -/
theorem exact_of_value?_none {x : Float} (h : value? x = none) :
    Exact.ofFloat x = .nan ∨ ∃ negative, Exact.ofFloat x = .infinite negative := by
  unfold value? at h
  cases hx : Exact.ofFloat x with
  | nan => exact .inl rfl
  | infinite negative => exact .inr ⟨negative, rfl⟩
  | finite negative m e =>
    rw [hx] at h
    cases h

theorem magnitude_nonneg (m : Nat) (e : Int) : 0 ≤ (m : ℚ) * 2 ^ e :=
  mul_nonneg (Nat.cast_nonneg m) (zpow_nonneg (by norm_num) e)

theorem magnitude_natCast (m k : Nat) : (m : ℚ) * 2 ^ (k : Int) = (m * 2 ^ k : Nat) := by
  rw [zpow_natCast]
  push_cast
  rfl

theorem magnitude_neg (m k : Nat) : (m : ℚ) * 2 ^ (-(k : Int)) = m / (2 ^ k : Nat) := by
  rw [zpow_neg, zpow_natCast, div_eq_mul_inv]
  push_cast
  rfl

/-- Digits that are moved up, with the exponent moved down, are the same magnitude. -/
theorem magnitude_shift (n k : Nat) : ((n * 2 ^ k : Nat) : ℚ) * 2 ^ (-(k : Int)) = n := by
  have hpos : ((2 ^ k : Nat) : ℚ) ≠ 0 := by positivity
  rw [magnitude_neg, Nat.cast_mul, mul_div_cancel_right₀ _ hpos]

/-- The integer part of a magnitude is the largest natural number that is not above it. -/
theorem integerPart_eq_floor (m : Nat) (e : Int) :
    Exact.integerPart m e = ⌊(m : ℚ) * 2 ^ e⌋₊ := by
  unfold Exact.integerPart
  split
  · next hnonneg =>
    obtain ⟨k, rfl⟩ := Int.eq_ofNat_of_zero_le hnonneg
    rw [magnitude_natCast, Nat.floor_natCast]
    rfl
  · next hneg =>
    obtain ⟨k, rfl⟩ : ∃ k : Nat, e = -(k : Int) := ⟨(-e).toNat, by omega⟩
    rw [magnitude_neg, Nat.floor_div_eq_div, Int.neg_neg, Int.toNat_natCast]
    rfl

/-- A magnitude without a fraction is its integer part. -/
theorem magnitude_of_isIntegral {m : Nat} {e : Int} (h : Exact.isIntegral m e = true) :
    (m : ℚ) * 2 ^ e = Exact.integerPart m e := by
  unfold Exact.integerPart
  split
  · next hnonneg =>
    obtain ⟨k, rfl⟩ := Int.eq_ofNat_of_zero_le hnonneg
    exact magnitude_natCast m k
  · next hneg =>
    obtain ⟨k, rfl⟩ : ∃ k : Nat, e = -(k : Int) := ⟨(-e).toNat, by omega⟩
    rw [Exact.isIntegral, decide_eq_false hneg, Bool.false_or, beq_iff_eq, Int.neg_neg,
      Int.toNat_natCast, Nat.pow_eq] at h
    rw [magnitude_neg, Int.neg_neg, Int.toNat_natCast, Nat.pow_eq,
      Nat.cast_div (Nat.dvd_of_mod_eq_zero h) (by positivity)]

/-- A magnitude that is a natural number has no fraction. -/
theorem isIntegral_of_magnitude {m n : Nat} {e : Int} (h : (m : ℚ) * 2 ^ e = n) :
    Exact.isIntegral m e = true := by
  unfold Exact.isIntegral
  by_cases hnonneg : 0 ≤ e
  · rw [decide_eq_true hnonneg, Bool.true_or]
  · obtain ⟨k, rfl⟩ : ∃ k : Nat, e = -(k : Int) := ⟨(-e).toNat, by omega⟩
    have hpos : ((2 ^ k : Nat) : ℚ) ≠ 0 := by positivity
    rw [magnitude_neg, div_eq_iff hpos, ← Nat.cast_mul, Nat.cast_inj] at h
    rw [decide_eq_false hnonneg, Bool.false_or, beq_iff_eq, Int.neg_neg, Int.toNat_natCast,
      Nat.pow_eq, h, Nat.mul_mod_left]

/-! ### Integers -/

/-- The integer towards zero. -/
def truncated (q : ℚ) : ℤ := if q < 0 then ⌈q⌉ else ⌊q⌋

theorem truncated_intCast (z : ℤ) : truncated z = z := by
  unfold truncated
  rw [Int.ceil_intCast, Int.floor_intCast, ite_self]

theorem truncated_of_nonneg {q : ℚ} (h : 0 ≤ q) : truncated q = ⌊q⌋₊ := by
  rw [truncated, if_neg (not_lt_of_ge h), Int.natCast_floor_eq_floor h]

theorem truncated_neg {q : ℚ} (h : 0 ≤ q) : truncated (-q) = -(⌊q⌋₊ : ℤ) := by
  rcases h.eq_or_lt with rfl | hpos
  · rw [neg_zero, truncated_of_nonneg le_rfl, Nat.floor_zero]
    rfl
  · rw [truncated, if_pos (neg_lt_zero.2 hpos), Int.ceil_neg, Int.natCast_floor_eq_floor h]

section Integers

variable {x : Float} {q : ℚ} (h : value? x = some q)

include h

/-- A finite double as an integer. -/
theorem toInteger_eq_truncated : toInteger x = truncated q := by
  obtain ⟨negative, m, e, hexact, rfl⟩ := exact_of_value? h
  have hnonneg := magnitude_nonneg m e
  rw [toInteger, hexact]
  dsimp only
  rw [integerPart_eq_floor]
  cases negative with
  | true => exact (truncated_neg hnonneg).symm
  | false => exact (truncated_of_nonneg hnonneg).symm

/-- A finite double as a position. -/
theorem toIndex_eq_truncated : toIndex x = min maxWord (truncated q).toNat := by
  obtain ⟨negative, m, e, hexact, rfl⟩ := exact_of_value? h
  have hnonneg := magnitude_nonneg m e
  rw [toIndex, saturate, hexact]
  dsimp only
  rw [integerPart_eq_floor]
  cases negative with
  | true =>
    rw [if_pos rfl, if_pos rfl, truncated_neg hnonneg, Int.toNat_neg_natCast, Nat.min_zero]
  | false =>
    rw [if_neg Bool.false_ne_true, if_neg Bool.false_ne_true, truncated_of_nonneg hnonneg,
      Int.toNat_natCast]

end Integers

end LiveMarkup.Number
