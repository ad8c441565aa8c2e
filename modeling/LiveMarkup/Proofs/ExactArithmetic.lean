import LiveMarkup.Proofs.NearestDoubles

/-!
# Arithmetic without rounding

A sum or a product of doubles is the double nearest to the exact result.  So it is the exact result
itself where that is a double, as all whole numbers up to `2 ^ 53` are.

## Main definitions

* `Number.Representable` — the rational numbers that are doubles.
* `Number.withSign` — a magnitude with a sign.

## Main results

* `Number.Exact.IsNearest.value?` — what is nearest to a double is that double.
* `Number.isNearest_round` — a mantissa of any length is rounded to the nearest double.
* `Number.value?_add`, `Number.value?_mul` — sums and products that are doubles are exact.
* `Number.value?_ofNat` — the double made of a natural number up to `2 ^ 53`.
* `Number.closest_of_value?_ofNat` — the double made of any other.
-/

namespace LiveMarkup.Number

open Float.Model (Format UnpackedFloat totalExponent)
open Float.Model.UnpackedFloat

/-! ### Numbers that are doubles -/

/-- The rational number is a double. -/
def Representable (q : ℚ) : Prop := ∃ x, value? x = some q

variable {x y : Float} {p q : ℚ} {n : Nat}

theorem Representable.lt_overflowBound (h : Representable q) : q < overflowBound := by
  obtain ⟨x, hx⟩ := h
  obtain ⟨negative, m, e, hexact, rfl⟩ := exact_of_value? hx
  have hlt := (canonical_of_exact hexact).lt_overflowBound
  have hnonneg := magnitude_nonneg m e
  cases negative with
  | false => exact hlt
  | true =>
    rw [if_pos rfl]
    linarith

/-- What is nearest to a double is that double. -/
theorem Exact.IsNearest.value? {u : Exact} {negative : Bool} (h : u.IsNearest negative q)
    (hq : Representable q) : u.value? = some (if negative then -q else q) := by
  have hlt := hq.lt_overflowBound
  obtain ⟨x, hx⟩ := hq
  cases h with
  | infinite hlarge => exact absurd hlt (not_lt_of_ge hlarge)
  | @finite m e _ hclose =>
    have hzero := hclose x q hx
    rw [sub_self, abs_zero, abs_nonpos_iff, sub_eq_zero] at hzero
    rw [Exact.value?, hzero]

/-! ### Doubles taken apart -/

/-- A magnitude with a sign. -/
def withSign (s : Sign) (q : ℚ) : ℚ := if isMinus s then -q else q

@[simp] theorem withSign_positive (q : ℚ) : withSign .positive q = q := rfl

@[simp] theorem withSign_negative (q : ℚ) : withSign .negative q = -q := rfl

theorem withSign_mul (s s' : Sign) (p q : ℚ) :
    withSign (s * s') (p * q) = withSign s p * withSign s' q := by
  cases s <;> cases s'
  · exact (neg_mul_neg p q).symm
  · exact (neg_mul p q).symm
  · exact (mul_neg p q).symm
  · rfl

theorem abs_withSign (s : Sign) (q : ℚ) : |withSign s q| = |q| := by
  cases s with
  | positive => rfl
  | negative => exact abs_neg q

theorem value?_zero (s : Sign) : (Exact.ofUnpacked (.zero s)).value? = some 0 := by
  cases s <;> simp [Exact.ofUnpacked, Exact.value?]

/-- A finite double is a zero, or has a sign, a mantissa and an exponent. -/
theorem unpack_of_value? (h : value? x = some q) :
    (∃ s, x.toModel.unpack = .zero s ∧ q = 0) ∨
      ∃ s m e hpos, x.toModel.unpack = .finite s m e hpos ∧ q = withSign s (m * 2 ^ e) := by
  rw [value?, exact_eq] at h
  cases hx : x.toModel.unpack with rw [hx] at h
  | notANumber | infinity => cases h
  | zero s =>
    rw [value?_zero] at h
    exact .inl ⟨s, rfl, (Option.some.inj h).symm⟩
  | finite s m e hpos => exact .inr ⟨s, m, e, hpos, rfl, (Option.some.inj h).symm⟩

theorem canonical_of_unpack {s : Sign} {m : Nat} {e : Int} {hpos : 0 < m}
    (h : x.toModel.unpack = .finite s m e hpos) : Canonical m e := by
  have hcanonical : IsCanonical x.toModel.unpack := canonical_unpack _
  rwa [h] at hcanonical

/-- A double that is taken apart is found again. -/
theorem value?_pack_unpack (x : Float) :
    (Exact.ofBits (pack Format.binary64 x.toModel.unpack).toNat).value? = value? x := by
  have hcanonical : IsCanonical x.toModel.unpack := canonical_unpack _
  rw [exact_pack hcanonical, value?, exact_eq]

theorem value?_pack_zero (s : Sign) :
    (Exact.ofBits (pack Format.binary64 (.zero s)).toNat).value? = some 0 := by
  rw [exact_pack (u := .zero s) trivial, value?_zero]

/-! ### Mantissas of any length -/

/-- Digits that are moved up stand for the same number when the exponent is moved down. -/
theorem magnitude_decreaseExponent (m : Nat) (e t : Int) :
    ((decreaseExponent m e t).1 : ℚ) * 2 ^ (decreaseExponent m e t).2 = m * 2 ^ e := by
  unfold decreaseExponent
  dsimp only
  generalize (e - t).toNat = k
  rw [Nat.shiftLeft_eq, show e - (k : Int) = -k + e by omega, zpow_add₀ two_ne_zero, ← mul_assoc,
    magnitude_shift]

/-- A mantissa of any length is rounded to the nearest double. -/
theorem isNearest_round {m : Nat} (hpos : 0 < m) (e : Int) (s : Sign) :
    Exact.IsNearest (isMinus s) (m * 2 ^ e)
      (Exact.ofBits (pack Format.binary64 (round Format.binary64 s m e)).toNat) := by
  obtain ⟨t, ht⟩ : ∃ t, t = Format.binary64.targetExponent (totalExponent m e) := ⟨_, rfl⟩
  have hround : round Format.binary64 s m e = roundWithAccuracy Format.binary64 s
      (decreaseExponent m e t).1 (decreaseExponent m e t).2 .exact := by
    rw [ht]
    rfl
  have hdigits : 52 ≤ (decreaseExponent m e t).1.log2 ∨ (decreaseExponent m e t).2 ≤ -1074 := by
    rw [targetExponent_eq] at ht
    unfold decreaseExponent
    dsimp only
    rw [Nat.shiftLeft_eq, log2_mul_two_pow hpos]
    omega
  rw [hround, ← magnitude_decreaseExponent m e t]
  exact isNearest_roundWithAccuracy hdigits (represents_exact _) s

/-- A whole number of units that is a double is not rounded. -/
theorem value?_normalize {z e : Int} (h : Representable |(z : ℚ) * 2 ^ e|) (s : Sign) :
    (Exact.ofBits (pack Format.binary64
      (UnpackedFloat.normalize Format.binary64 z e s)).toNat).value? = some ((z : ℚ) * 2 ^ e) := by
  rw [abs_mul, abs_of_pos (zpow_pos two_pos e : (0 : ℚ) < 2 ^ e)] at h
  unfold UnpackedFloat.normalize
  rcases lt_trichotomy z 0 with hneg | rfl | hpos
  · obtain ⟨k, rfl⟩ : ∃ k : Nat, z = -(k : Int) := ⟨(-z).toNat, by omega⟩
    have hnearest := isNearest_round (m := k) (by omega) e .negative
    rw [Int.cast_neg, Int.cast_natCast, abs_neg, Nat.abs_cast] at h
    simp only [Int.compare_eq_lt.2 hneg, Int.neg_neg, Int.toNat_natCast]
    rw [hnearest.value? h, Int.cast_neg, Int.cast_natCast, neg_mul]
    rfl
  · rw [Int.cast_zero, zero_mul]
    exact value?_pack_zero s
  · obtain ⟨k, rfl⟩ := Int.eq_ofNat_of_zero_le hpos.le
    have hnearest := isNearest_round (m := k) (by omega) e .positive
    rw [Int.cast_natCast, Nat.abs_cast] at h
    simp only [Int.compare_eq_gt.2 hpos, Int.toNat_natCast]
    rw [hnearest.value? h, Int.cast_natCast]
    rfl

/-! ### Sums and products -/

/-- A number in units that are no larger than its own. -/
theorem apply_decreaseExponent (s : Sign) (m : Nat) {e t : Int} (hle : t ≤ e) :
    (s.apply (decreaseExponent m e t).1 : ℚ) * 2 ^ t = withSign s (m * 2 ^ e) := by
  have hmoved := magnitude_decreaseExponent m e t
  have hexponent : (decreaseExponent m e t).2 = t := by
    unfold decreaseExponent
    dsimp only
    omega
  rw [hexponent] at hmoved
  cases s with
  | positive => exact hmoved
  | negative =>
    rw [withSign_negative, ← hmoved, ← neg_mul, Sign.apply, Int.cast_neg, Int.cast_natCast]

/-- A sum that is a double is exact. -/
theorem value?_add (hx : value? x = some p) (hy : value? y = some q)
    (h : Representable |p + q|) : value? (x + y) = some (p + q) := by
  show (Exact.ofBits (pack Format.binary64
    (add Format.binary64 x.toModel.unpack y.toModel.unpack)).toNat).value? = _
  obtain ⟨s, hleft, rfl⟩ | ⟨s, m, e, hpos, hleft, rfl⟩ := unpack_of_value? hx
  · obtain ⟨s', hright, rfl⟩ | ⟨s', m', e', hpos', hright, hq⟩ := unpack_of_value? hy
    · rw [hleft, hright, add, add_zero]
      split <;> exact value?_pack_zero _
    · rw [zero_add, ← hy, ← value?_pack_unpack y, hleft, hright]
      rfl
  · obtain ⟨s', hright, rfl⟩ | ⟨s', m', e', hpos', hright, rfl⟩ := unpack_of_value? hy
    · rw [add_zero, ← hx, ← value?_pack_unpack x, hleft, hright]
      rfl
    · -- both are whole numbers of the smaller unit
      have hsum : ((s.apply (decreaseExponent m e (min e e')).1 +
          s'.apply (decreaseExponent m' e' (min e e')).1 : Int) : ℚ) * 2 ^ min e e' =
            withSign s (m * 2 ^ e) + withSign s' (m' * 2 ^ e') := by
        rw [Int.cast_add, add_mul, apply_decreaseExponent s m (min_le_left e e'),
          apply_decreaseExponent s' m' (min_le_right e e')]
      rw [← hsum] at h ⊢
      rw [hleft, hright]
      exact value?_normalize h .positive

/-- Mantissas of doubles have digits enough for their product to be rounded. -/
theorem product_digits {m m' : Nat} {e e' : Int} (h : Canonical m e) (h' : Canonical m' e')
    (hpos : 0 < m) (hpos' : 0 < m') : 2 ^ 52 ≤ m * m' ∨ e + e' ≤ -1074 := by
  rcases h.full with hfull | hleast
  · exact .inl (hfull.trans (Nat.le_mul_of_pos_right m hpos'))
  · rcases h'.full with hfull' | hleast'
    · exact .inl (hfull'.trans (Nat.le_mul_of_pos_left m' hpos))
    · exact .inr (by omega)

/-- A product that is a double is exact. -/
theorem value?_mul (hx : value? x = some p) (hy : value? y = some q)
    (h : Representable |p * q|) : value? (x * y) = some (p * q) := by
  show (Exact.ofBits (pack Format.binary64
    (mul Format.binary64 x.toModel.unpack y.toModel.unpack)).toNat).value? = _
  obtain ⟨s, hleft, rfl⟩ | ⟨s, m, e, hpos, hleft, rfl⟩ := unpack_of_value? hx
  · rw [zero_mul]
    obtain ⟨s', hright, -⟩ | ⟨s', m', e', hpos', hright, -⟩ := unpack_of_value? hy <;>
      rw [hleft, hright] <;> exact value?_pack_zero _
  · obtain ⟨s', hright, rfl⟩ | ⟨s', m', e', hpos', hright, rfl⟩ := unpack_of_value? hy
    · rw [mul_zero, hleft, hright]
      exact value?_pack_zero _
    · have hdigits := product_digits (canonical_of_unpack hleft) (canonical_of_unpack hright) hpos
        hpos'
      have hnearest := isNearest_mul hpos hpos' e e' s s' hdigits
      rw [abs_mul, abs_withSign, abs_withSign, ← abs_mul,
        abs_of_nonneg (mul_nonneg (magnitude_nonneg m e) (magnitude_nonneg m' e'))] at h
      rw [hleft, hright, hnearest.value? h, ← withSign_mul]
      rfl

/-! ### Natural numbers -/

theorem IsNatural.value? (h : IsNatural x n) : value? x = some (n : ℚ) := by
  obtain ⟨negative, m, e, hexact, hintegral, rfl, hsign⟩ := h.exact
  rw [Number.value?, hexact, Exact.value?, magnitude_of_isIntegral hintegral]
  cases negative with
  | false => rfl
  | true => rw [hsign rfl, Nat.cast_zero, neg_zero, ite_self]

theorem isNatural_of_value? (h : value? x = some (n : ℚ)) : IsNatural x n := by
  obtain ⟨negative, m, e, hexact, hvalue⟩ := exact_of_value? h
  have hnonneg := magnitude_nonneg m e
  have hwhole : ∃ k : Nat, (m : ℚ) * 2 ^ e = k := by
    cases negative with
    | false => exact ⟨n, hvalue.symm⟩
    | true =>
      have hn : (0 : ℚ) ≤ n := Nat.cast_nonneg n
      rw [if_pos rfl] at hvalue
      exact ⟨0, by rw [Nat.cast_zero]; linarith⟩
  obtain ⟨k, hk⟩ := hwhole
  constructor
  · rw [isInteger, hexact]
    exact isIntegral_of_magnitude hk
  · rw [toInteger_eq_truncated h]
    exact truncated_intCast n

theorem representable_natCast (h : n ≤ 2 ^ 53) : Representable n := by
  rcases h.lt_or_eq with hlt | rfl
  · exact ⟨_, (isNatural_ofNat hlt).value?⟩
  · exact ⟨9007199254740992.0, by decide +kernel⟩

section Whole

variable {m : Nat} (hx : value? x = some (m : ℚ)) (hy : value? y = some (n : ℚ))

include hx hy

theorem value?_add_natCast (h : m + n ≤ 2 ^ 53) :
    value? (x + y) = some ((m + n : Nat) : ℚ) := by
  rw [Nat.cast_add]
  refine value?_add hx hy ?_
  rw [← Nat.cast_add, Nat.abs_cast]
  exact representable_natCast h

theorem value?_mul_natCast (h : m * n ≤ 2 ^ 53) :
    value? (x * y) = some ((m * n : Nat) : ℚ) := by
  rw [Nat.cast_mul]
  refine value?_mul hx hy ?_
  rw [← Nat.cast_mul, Nat.abs_cast]
  exact representable_natCast h

end Whole

theorem isNearest_ofNat (n : Nat) : Exact.IsNearest false n (Exact.ofFloat (ofNat n)) := by
  have hnearest := isNearest_nearest false ⟨n, 0⟩
  rwa [zpow_zero, mul_one] at hnearest

/-- The double made of a natural number up to `2 ^ 53`. -/
theorem value?_ofNat (h : n ≤ 2 ^ 53) : value? (ofNat n) = some (n : ℚ) :=
  (isNearest_ofNat n).value? (representable_natCast h)

/-- A finite double made of a larger number is rounded, but no double is closer to the number. -/
theorem closest_of_value?_ofNat (h : value? (ofNat n) = some q) :
    0 ≤ q ∧ ∀ y r, value? y = some r → |q - n| ≤ |r - n| := by
  have hnearest := isNearest_ofNat n
  unfold value? at h
  cases hx : Exact.ofFloat (ofNat n) with rw [hx] at h hnearest
  | nan | infinite => cases h
  | finite negative m e =>
    cases hnearest with
    | finite _ hclose _ =>
      rw [← Option.some.inj h]
      exact ⟨magnitude_nonneg m e, hclose⟩

/-- Only zero is made into zero: one is closer to all the others. -/
theorem value?_ofNat_eq_zero_iff : value? (ofNat n) = some 0 ↔ n = 0 := by
  refine ⟨fun hzero => ?_, fun hn => hn ▸ value?_ofNat (Nat.zero_le _)⟩
  by_contra hn
  have hpos : (1 : ℚ) ≤ n := by exact_mod_cast Nat.pos_of_ne_zero hn
  obtain ⟨y, hy⟩ := representable_natCast (n := 1) (by norm_num)
  rw [Nat.cast_one] at hy
  have hless := (closest_of_value?_ofNat hzero).2 y 1 hy
  rw [zero_sub, abs_neg, Nat.abs_cast, abs_of_nonpos (by linarith)] at hless
  linarith

end LiveMarkup.Number
