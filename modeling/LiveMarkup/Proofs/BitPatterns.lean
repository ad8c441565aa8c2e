import LiveMarkup.Proofs.ExactValues

/-!
# Bit patterns of doubles

The exact view of a double is read off its bits.  Here it is the same as what the bits are taken
apart into for arithmetic, so that a result that is put together from a mantissa and an exponent has
these in its view.  Mantissas and exponents are those that a double has: 53 digits with the first of
them set, or fewer with the smallest exponent.

## Main definitions

* `Number.Normal`, `Number.Canonical` — mantissas and exponents of doubles.
* `Number.Exact.ofUnpacked` — the view of a double that is taken apart.
* `Number.Exact.negate` — the view with the other sign.

## Main results

* `Number.exact_eq` — the view of a double is that of its parts.
* `Number.exact_pack` — parts that are put together are found again.
* `Number.canonical_of_exact` — the mantissa and the exponent of every finite double.
* `Number.exact_neg` — negation changes the sign only.
-/

namespace LiveMarkup.Number

open Float.Model (Format UnpackedFloat totalExponent)
open Float.Model.UnpackedFloat

/-- Digits that are moved up. -/
theorem log2_mul_two_pow {m : Nat} (hpos : 0 < m) (k : Nat) : (m * 2 ^ k).log2 = m.log2 + k := by
  induction k with
  | zero => rw [Nat.pow_zero, Nat.mul_one, Nat.add_zero]
  | succ k ih =>
    have hne : m * 2 ^ k ≠ 0 := Nat.ne_of_gt (Nat.mul_pos hpos (Nat.pow_pos (by decide)))
    rw [Nat.pow_succ', Nat.mul_left_comm, Nat.log2_two_mul hne, ih, Nat.add_assoc]

/-! ### Mantissas that are filled -/

/-- The mantissa has all its 53 digits, and the exponent is one that a double has. -/
structure Normal (m : Nat) (e : Int) : Prop where
  low : 2 ^ 52 ≤ m
  high : m < 2 ^ 53
  least : -1074 ≤ e
  most : e ≤ 971

/-- The mantissa and the exponent of a double: the mantissa is filled, or the exponent is the
smallest. -/
structure Canonical (m : Nat) (e : Int) : Prop where
  high : m < 2 ^ 53
  least : -1074 ≤ e
  most : e ≤ 971
  full : 2 ^ 52 ≤ m ∨ e = -1074

section

variable {m : Nat} {e : Int}

namespace Normal

theorem pos (h : Normal m e) : 0 < m := Nat.lt_of_lt_of_le (by decide) h.low

theorem canonical (h : Normal m e) : Canonical m e := ⟨h.high, h.least, h.most, .inl h.low⟩

theorem log2 (h : Normal m e) (k : Nat) : (m * 2 ^ k).log2 = 52 + k := by
  rw [log2_mul_two_pow h.pos, (Nat.log2_eq_iff (Nat.ne_of_gt h.pos)).2 ⟨h.low, h.high⟩]

theorem targetExponent (h : Normal m e) (k : Nat) :
    Format.binary64.targetExponent (totalExponent (m * 2 ^ k) (e - k)) = e := by
  have hmin : Format.binary64.minExponent = -1074 := rfl
  have hbits : Format.binary64.mantissaBits = 53 := rfl
  have hleast := h.least
  rw [Format.targetExponent, totalExponent, h.log2, hmin, hbits]
  omega

/-- The exponent fits its field, and is none of the two values with a meaning of their own. -/
theorem toNat_exponent (h : Normal m e) :
    (BitVec.ofNat 11 (e + 1075).toNat).toNat = (e + 1075).toNat ∧
      0 < (e + 1075).toNat ∧ (e + 1075).toNat < 2047 := by
  have hleast := h.least
  have hmost := h.most
  rw [BitVec.toNat_ofNat]
  omega

end Normal

theorem Canonical.cast_le (h : Canonical m e) : (m : ℚ) ≤ 2 ^ 53 - 1 := by
  have hcast : ((m + 1 : Nat) : ℚ) ≤ (2 ^ 53 : Nat) := by exact_mod_cast h.high
  push_cast at hcast
  linarith

/-! ### Bits taken apart -/

theorem toNat_unpackMantissa (b : BitVec 64) :
    (@unpackMantissa Format.binary64 b).toNat = b.toNat % 2 ^ 52 := by
  unfold unpackMantissa
  rw [BitVec.toNat_cast, BitVec.extractLsb_toNat]
  rfl

theorem toNat_unpackExponent (b : BitVec 64) :
    (@unpackExponent Format.binary64 b).toNat = b.toNat / 2 ^ 52 % 2 ^ 11 := by
  unfold unpackExponent
  rw [BitVec.toNat_cast, BitVec.extractLsb_toNat, Nat.shiftRight_eq_div_pow]
  rfl

theorem toNat_unpackSign (b : BitVec 64) :
    (@unpackSign Format.binary64 b).toNat = b.toNat / 2 ^ 63 % 2 := by
  unfold unpackSign
  rw [BitVec.toNat_cast, BitVec.extractLsb_toNat, Nat.shiftRight_eq_div_pow]
  rfl

/-- The first digit of a filled mantissa, which is not kept. -/
theorem toNat_implicit (b : BitVec 52) : (1#1 ++ b).toNat = b.toNat + 2 ^ 52 := by
  rw [BitVec.toNat_append, ← Nat.shiftLeft_add_eq_or_of_lt b.isLt, Nat.shiftLeft_eq]
  exact Nat.add_comm _ _

/-- Whether the sign is a minus. -/
def isMinus : Sign → Bool
  | .negative => true
  | .positive => false

theorem isMinus_ofBitVec (b : BitVec 1) : isMinus (Sign.ofBitVec b) = (b.toNat == 1) := by
  revert b
  decide

/-- The view of a double that is taken apart. -/
def Exact.ofUnpacked : UnpackedFloat → Exact
  | .notANumber => .nan
  | .infinity s => .infinite (isMinus s)
  | .zero s => .finite (isMinus s) 0 (-1074)
  | .finite s m e _ => .finite (isMinus s) m e

theorem exact_ofBits (b : BitVec 64) :
    Exact.ofBits b.toNat = Exact.ofUnpacked (unpack Format.binary64 b) := by
  have hsign := isMinus_ofBitVec (@unpackSign Format.binary64 b)
  rw [toNat_unpackSign] at hsign
  have hspecial : @unpackExponent Format.binary64 b = -1#_ ↔
      b.toNat / 2 ^ 52 % 2 ^ 11 = 2047 := by
    rw [← BitVec.toNat_inj, toNat_unpackExponent]
    rfl
  have hsmall : @unpackExponent Format.binary64 b = 0#_ ↔
      b.toNat / 2 ^ 52 % 2 ^ 11 = 0 := by
    rw [← BitVec.toNat_inj, toNat_unpackExponent]
    rfl
  have hnone : @unpackMantissa Format.binary64 b = 0#_ ↔ b.toNat % 2 ^ 52 = 0 := by
    rw [← BitVec.toNat_inj, toNat_unpackMantissa]
    rfl
  unfold Exact.ofBits unpack
  simp only [hspecial, hsmall, hnone, Nat.pow_eq, toNat_unpackExponent]
  split
  · split
    · rw [Exact.ofUnpacked, hsign]
    · rfl
  · split
    · next hfield =>
      split
      · next hzero => rw [Exact.ofUnpacked, hsign, hzero]
      · rw [Exact.ofUnpacked, hsign, toNat_unpackMantissa, hfield]
        rfl
    · rw [Exact.ofUnpacked, hsign, toNat_implicit, toNat_unpackMantissa]
      rfl

theorem exact_eq (x : Float) : Exact.ofFloat x = Exact.ofUnpacked x.toModel.unpack :=
  exact_ofBits _

/-- The parts have the mantissa and the exponent of a double. -/
def IsCanonical : UnpackedFloat → Prop
  | .finite _ m e _ => Canonical m e
  | _ => True

theorem canonical_unpack (b : BitVec 64) : IsCanonical (unpack Format.binary64 b) := by
  have hbias : Format.binary64.exponentBias = 1023 := rfl
  have hmantissa : (@unpackMantissa Format.binary64 b).toNat < 2 ^ 52 := BitVec.isLt _
  have hfield : (@unpackExponent Format.binary64 b).toNat < 2 ^ 11 := BitVec.isLt _
  unfold unpack
  dsimp only
  split
  · split <;> trivial
  · next hspecial =>
    rw [← BitVec.toNat_inj] at hspecial
    change _ ≠ 2047 at hspecial
    split
    · next hsmall =>
      split
      · trivial
      · refine ⟨by omega, ?_, ?_, .inr ?_⟩ <;> rw [hsmall, hbias] <;> decide
    · next hsmall =>
      rw [← BitVec.toNat_inj] at hsmall
      change _ ≠ 0 at hsmall
      have hfull := toNat_implicit (@unpackMantissa Format.binary64 b)
      refine ⟨?_, ?_, ?_, .inl ?_⟩ <;> omega

theorem unpack_of_exact {x : Float} (h : Exact.ofFloat x = .finite false m e) (hpos : 0 < m) :
    x.toModel.unpack = .finite .positive m e hpos := by
  rw [exact_eq] at h
  cases hx : x.toModel.unpack with rw [hx, Exact.ofUnpacked] at h
  | notANumber | infinity => cases h
  | zero s =>
    injection h with _ hm
    exact absurd hpos (hm ▸ lt_irrefl 0)
  | finite s =>
    injection h with hs hm he
    subst hm he
    cases s
    · cases hs
    · rfl

theorem canonical_of_exact {x : Float} {negative : Bool}
    (h : Exact.ofFloat x = .finite negative m e) : Canonical m e := by
  have hcanonical : IsCanonical x.toModel.unpack := canonical_unpack _
  rw [exact_eq] at h
  cases hx : x.toModel.unpack with rw [hx] at h
  | notANumber | infinity => cases h
  | zero =>
    cases h
    exact ⟨by decide, by decide, by decide, .inr rfl⟩
  | finite =>
    rw [hx] at hcanonical
    cases h
    exact hcanonical

/-! ### Bits put together -/

theorem pack_normal (h : Normal m e) (s : Sign) :
    pack Format.binary64 (.finite s m e h.pos) =
      packComponents Format.binary64 s (BitVec.ofNat 11 (e + 1075).toNat) (BitVec.ofNat 52 m) := by
  have hlog := h.log2 0
  have hleast := h.least
  have hmost := h.most
  rw [Nat.pow_zero, Nat.mul_one] at hlog
  have hbias : e + (Format.binary64.exponentBias : Int) + (52 : Nat) = e + 1075 := by
    have : Format.binary64.exponentBias = 1023 := rfl
    omega
  have hbits : Format.binary64.mantissaBits = 53 := rfl
  unfold pack
  dsimp only
  rw [hbias, hlog, hbits, if_neg (by omega), if_pos rfl]

theorem unpack_pack_normal (h : Normal m e) (s : Sign) :
    unpack Format.binary64 (pack Format.binary64 (.finite s m e h.pos)) = .finite s m e h.pos := by
  obtain ⟨hfield, hlow, hhigh⟩ := h.toNat_exponent
  have hleast := h.least
  have hordinary : BitVec.ofNat 11 (e + 1075).toNat ≠ -1#_ := by
    intro hspecial
    have hmax := congrArg BitVec.toNat hspecial
    rw [hfield] at hmax
    simp at hmax
    omega
  have hnormal : BitVec.ofNat 11 (e + 1075).toNat ≠ 0#_ := by
    intro hspecial
    have hzero := congrArg BitVec.toNat hspecial
    rw [hfield] at hzero
    simp at hzero
    omega
  have hmantissa : (1#1 ++ BitVec.ofNat 52 m).toNat = m := by
    have hlow := h.low
    have hhigh := h.high
    rw [toNat_implicit, BitVec.toNat_ofNat]
    omega
  have hbias : Format.binary64.exponentBias = 1023 := rfl
  rw [pack_normal h]
  unfold unpack
  simp only [unpackMantissa_packComponents, unpackExponent_packComponents,
    unpackSign_packComponents, Sign.ofBitVec_toBitVec, hordinary, hnormal, if_false, hmantissa,
    hfield]
  congr 1
  omega

theorem unpack_pack_subnormal (hpos : 0 < m) (hlow : m < 2 ^ 52) (s : Sign) :
    unpack Format.binary64 (pack Format.binary64 (.finite s m (-1074) hpos)) =
      .finite s m (-1074) hpos := by
  have hlog : m.log2 < 52 := (Nat.log2_lt (Nat.ne_of_gt hpos)).2 hlow
  have hbits : Format.binary64.mantissaBits = 53 := rfl
  have hpack : pack Format.binary64 (.finite s m (-1074) hpos) =
      packComponents Format.binary64 s 0#_ (BitVec.ofNat 52 m) := by
    unfold pack
    dsimp only
    rw [hbits, if_neg (by decide), if_neg (by omega)]
  have hmantissa : (BitVec.ofNat 52 m).toNat = m := by
    rw [BitVec.toNat_ofNat]
    exact Nat.mod_eq_of_lt hlow
  have hsome : BitVec.ofNat 52 m ≠ 0#_ := by
    rw [← BitVec.toNat_inj.ne, hmantissa]
    exact Nat.ne_of_gt hpos
  rw [hpack]
  unfold unpack
  simp only [unpackMantissa_packComponents, unpackExponent_packComponents,
    unpackSign_packComponents, Sign.ofBitVec_toBitVec, hsome, hmantissa]
  rfl

end

variable {u : UnpackedFloat}

theorem unpack_pack (h : IsCanonical u) : unpack Format.binary64 (pack Format.binary64 u) = u := by
  cases u with
  | notANumber => rfl
  | infinity s | zero s => cases s <;> rfl
  | finite s m e hpos =>
    obtain ⟨hhigh, hleast, hmost, hfull⟩ := h
    by_cases hlow : 2 ^ 52 ≤ m
    · exact unpack_pack_normal ⟨hlow, hhigh, hleast, hmost⟩ s
    · obtain rfl := hfull.resolve_left hlow
      exact unpack_pack_subnormal hpos (Nat.lt_of_not_le hlow) s

theorem exact_pack (h : IsCanonical u) :
    Exact.ofBits (pack Format.binary64 u).toNat = Exact.ofUnpacked u := by
  rw [exact_ofBits, unpack_pack h]

/-! ### Negation -/

/-- The view with the other sign. -/
def Exact.negate : Exact → Exact
  | .nan => .nan
  | .infinite negative => .infinite (!negative)
  | .finite negative m e => .finite (!negative) m e

theorem isMinus_neg (s : Sign) : isMinus (-s) = !isMinus s := by cases s <;> rfl

theorem IsCanonical.neg (h : IsCanonical u) : IsCanonical u.neg := by
  cases u <;> exact h

theorem ofUnpacked_neg (u : UnpackedFloat) :
    Exact.ofUnpacked u.neg = (Exact.ofUnpacked u).negate := by
  cases u with
  | notANumber => rfl
  | infinity s => exact congrArg Exact.infinite (isMinus_neg s)
  | zero s | finite s => exact congrArg (Exact.finite · _ _) (isMinus_neg s)

theorem exact_neg (x : Float) : Exact.ofFloat (-x) = (Exact.ofFloat x).negate := by
  have hcanonical : IsCanonical x.toModel.unpack := canonical_unpack _
  calc
    Exact.ofFloat (-x) = Exact.ofBits (pack Format.binary64 x.toModel.unpack.neg).toNat := rfl
    _ = (Exact.ofUnpacked x.toModel.unpack).negate := by
      rw [exact_pack hcanonical.neg, ofUnpacked_neg]
    _ = (Exact.ofFloat x).negate := by rw [exact_eq]

end LiveMarkup.Number
