import LiveMarkup.Proofs.LeadingNumber
import LiveMarkup.Proofs.NearestDoubles

/-!
# Decimal literals

A decimal literal is digits with an optional fraction, or a fraction alone, and an optional
exponent.  The grammar gives the number that it writes.  What is split off a text as a literal is
one by the grammar, and a text that is a literal is read as a whole, as the double nearest to its
number.

## Main definitions

* `Number.SignText`, `Number.ExponentText`, `Number.DecimalText` — the grammar.

## Main results

* `Number.DecimalText.split`, `Number.exists_decimalText` — splitting agrees with the grammar.
* `Number.DecimalText.literal`, `Number.exists_literalText` — the same for whole signed literals.
-/

namespace LiveMarkup.Number

open Text

/-! ### The grammar -/

/-- A sign, or none; the flag says whether it is a minus. -/
inductive SignText : List Char → Bool → Prop
  | none : SignText [] false
  | plus : SignText ['+'] false
  | minus : SignText ['-'] true

/-- A mark, a sign or none, and digits that write an exponent, or nothing at all. -/
inductive ExponentText : List Char → Int → Prop
  | none : ExponentText [] 0
  | some {c : Char} {sign ds : List Char} {negative : Bool} {n : Nat} (hmark : c = 'e' ∨ c = 'E')
    (hsign : SignText sign negative) (hds : Writes ds n) :
    ExponentText (c :: (sign ++ ds)) (if negative then -(n : Int) else n)

/-- An unsigned decimal literal, and the number it writes. -/
inductive DecimalText : List Char → ℚ → Prop
  /-- Digits without a point. -/
  | whole {ds tail : List Char} {n : Nat} {e : Int} (hds : Writes ds n)
    (htail : ExponentText tail e) : DecimalText (ds ++ tail) (n * 10 ^ e)
  /-- Digits on at least one side of a point. -/
  | point {ds fs tail : List Char} {e : Int} (hsome : ds ≠ [] ∨ fs ≠ [])
    (hds : ∀ c ∈ ds, isDigit c = true) (hfs : ∀ c ∈ fs, isDigit c = true)
    (htail : ExponentText tail e) :
    DecimalText (ds ++ '.' :: (fs ++ tail))
      ((Nat.ofDigitChars 10 ds 0 + Nat.ofDigitChars 10 fs 0 / 10 ^ fs.length) * 10 ^ e)

/-! ### Signs -/

variable {cs sign front tail : List Char} {negative : Bool} {e : Int} {q : ℚ}

theorem SignText.splitSign (h : SignText sign negative) (hfront : front.head?.any isSign = false) :
    splitSign (sign ++ front) = (negative, front) := by
  cases h with
  | none => exact splitSign_of_not_isSign hfront
  | plus | minus => rfl

theorem exists_signText (cs : List Char) :
    ∃ sign, SignText sign (splitSign cs).1 ∧ cs = sign ++ (splitSign cs).2 := by
  unfold splitSign
  split
  · exact ⟨_, .minus, rfl⟩
  · exact ⟨_, .plus, rfl⟩
  · exact ⟨_, .none, rfl⟩

/-! ### Digits -/

theorem valueOfDigits_eq (cs : List Char) : valueOfDigits cs = Nat.ofDigitChars 10 cs 0 := by
  unfold valueOfDigits Nat.ofDigitChars
  simp only [Nat.mul_comm]

theorem Writes.head?_any_isSign {ds : List Char} {n : Nat} (h : Writes ds n) (rest : List Char) :
    (ds ++ rest).head?.any isSign = false := by
  obtain ⟨d, ds, rfl⟩ := List.exists_cons_of_ne_nil h.ne_nil
  exact not_isSign_of_isDigit (h.digits d List.mem_cons_self)

/-! ### Exponent parts -/

theorem ExponentText.splitExponent (h : ExponentText tail e) : splitExponent tail = (e, []) := by
  cases h with
  | none => rfl
  | @some c sign ds negative n hmark hsign hds =>
    have hfront := hds.head?_any_isSign []
    rw [List.append_nil] at hfront
    obtain ⟨htake, hdrop⟩ := @takeWhile_isDigit_append ds [] hds.digits rfl
    rw [List.append_nil] at htake hdrop
    obtain ⟨d, ds', hcons⟩ := List.exists_cons_of_ne_nil hds.ne_nil
    have hvalue : valueOfDigits ds = n := (valueOfDigits_eq ds).trans hds.value
    rw [hcons] at htake hvalue
    simp only [Number.splitExponent, if_pos hmark, hsign.splitSign hfront, hdrop]
    rw [hcons, htake]
    simp only [hvalue]

/-- What is read as an exponent part is one. -/
theorem exists_exponentText (cs : List Char) :
    ∃ used, ExponentText used (splitExponent cs).1 ∧ cs = used ++ (splitExponent cs).2 := by
  cases cs with
  | nil => exact ⟨[], .none, rfl⟩
  | cons c rest =>
    by_cases hmark : c = 'e' ∨ c = 'E'
    · obtain ⟨sign, hsign, hrest⟩ := exists_signText rest
      simp only [splitExponent, if_pos hmark]
      generalize hds : (splitSign rest).2.takeWhile isDigit = ds
      cases ds with
      | nil =>
        -- a mark without digits is left where it stands
        exact ⟨[], .none, rfl⟩
      | cons d ds =>
        have hwrites : Writes (d :: ds) (valueOfDigits (d :: ds)) :=
          ⟨List.cons_ne_nil d ds, fun c hc => List.mem_takeWhile_imp (hds ▸ hc),
            (valueOfDigits_eq _).symm⟩
        have hfollow : d :: ds ++ (splitSign rest).2.dropWhile isDigit = (splitSign rest).2 := by
          rw [← hds, List.takeWhile_append_dropWhile]
        refine ⟨c :: (sign ++ (d :: ds)), .some hmark hsign hwrites, ?_⟩
        show c :: rest = c :: (sign ++ (d :: ds)) ++ (splitSign rest).2.dropWhile isDigit
        rw [List.cons_append, List.append_assoc, hfollow, ← hrest]
    · rw [splitExponent, if_neg hmark]
      exact ⟨[], .none, rfl⟩

/-! ### Decimal literals -/

theorem ExponentText.head? (h : ExponentText tail e) :
    tail.head?.any isDigit = false ∧ tail.head?.any (· == '.') = false := by
  cases h with
  | none => exact ⟨rfl, rfl⟩
  | some hmark => rcases hmark with rfl | rfl <;> exact ⟨rfl, rfl⟩

/-- The digits after the point move the exponent. -/
theorem value_point (ds fs : List Char) (e : Int) :
    (valueOfDigits (ds ++ fs) : ℚ) * 10 ^ (e - fs.length) =
      (Nat.ofDigitChars 10 ds 0 + Nat.ofDigitChars 10 fs 0 / 10 ^ fs.length) * 10 ^ e := by
  rw [valueOfDigits_eq, Nat.ofDigitChars_append, Nat.ofDigitChars_eq_ofDigitChars_zero,
    zpow_sub₀ (by norm_num), zpow_natCast]
  push_cast
  field_simp

theorem DecimalText.split (h : DecimalText cs q) :
    ∃ d : Decimal, splitDecimal cs = some (d, []) ∧ (d.digits : ℚ) * 10 ^ d.exponent = q := by
  cases h with
  | @whole ds tail n e hds htail =>
    obtain ⟨hdigit, hpoint⟩ := htail.head?
    have hparts : DecimalParts ds [] [] tail := ⟨hds.digits, nofun, .inr ⟨rfl, rfl, hpoint⟩, hdigit⟩
    have hsplit := hparts.splitDecimal_eq
    rw [htail.splitExponent, if_neg (by simp [hds.ne_nil])] at hsplit
    refine ⟨_, hsplit, ?_⟩
    have hvalue := value_point ds [] e
    rw [hds.value] at hvalue
    simpa using hvalue
  | @point ds fs tail e hsome hds hfs htail =>
    have hparts : DecimalParts ds ['.'] fs tail := ⟨hds, hfs, .inl rfl, htail.head?.1⟩
    have hsplit := hparts.splitDecimal_eq
    rw [htail.splitExponent, if_neg (by simpa [imp_iff_not_or] using hsome)] at hsplit
    exact ⟨_, hsplit, value_point ds fs e⟩

/-- What is read as a decimal literal is one. -/
theorem exists_decimalText {d : Decimal} {rest : List Char} (h : splitDecimal cs = some (d, rest)) :
    ∃ used, DecimalText used (d.digits * 10 ^ d.exponent) ∧ cs = used ++ rest := by
  obtain ⟨whole, point, fraction, tail, rfl, hparts⟩ := exists_decimalParts cs
  obtain ⟨used, hused, htail⟩ := exists_exponentText tail
  rw [hparts.splitDecimal_eq] at h
  split at h
  · cases h
  · next hsome =>
    cases h
    dsimp only
    rw [value_point]
    rcases hparts.mark with rfl | ⟨rfl, rfl, -⟩
    · have hpoint : ¬whole = [] ∨ ¬fraction = [] := by simpa [imp_iff_not_or] using hsome
      refine ⟨_, .point hpoint hparts.digits hparts.places hused, ?_⟩
      simp [← htail]
    · have hwhole : Writes whole (Nat.ofDigitChars 10 whole 0) :=
        ⟨by simpa using hsome, hparts.digits, rfl⟩
      refine ⟨whole ++ used, by simpa using DecimalText.whole hwhole hused, ?_⟩
      rw [List.append_assoc, ← htail]
      rfl

/-! ### Signed literals -/

theorem DecimalText.head? (h : DecimalText cs q) : cs.head?.any isSign = false := by
  cases h with
  | whole hds => exact hds.head?_any_isSign _
  | @point ds fs tail e hsome hds hfs =>
    cases ds with
    | nil => rfl
    | cons d ds => exact not_isSign_of_isDigit (hds d List.mem_cons_self)

/-- A signed literal is read as the double nearest to its number. -/
theorem DecimalText.literal (hsign : SignText sign negative) (h : DecimalText cs q) :
    ∃ x, decimalLiteral? (sign ++ cs) = some x ∧ (Exact.ofFloat x).IsNearest negative q := by
  obtain ⟨d, hsplit, rfl⟩ := h.split
  refine ⟨nearest negative d, ?_, isNearest_nearest negative d⟩
  rw [decimalLiteral?, splitSignedDecimal, hsign.splitSign h.head?]
  dsimp only
  rw [hsplit]
  rfl

/-- Nothing but a signed literal is read as one. -/
theorem exists_literalText {x : Float} (h : decimalLiteral? cs = some x) :
    ∃ sign negative ds q, SignText sign negative ∧ DecimalText ds q ∧ cs = sign ++ ds := by
  obtain ⟨sign, hsign, hcs⟩ := exists_signText cs
  have hparts : splitSignedDecimal cs = some (x, []) := by
    unfold decimalLiteral? at h
    split at h
    · next hparts =>
      cases h
      exact hparts
    · cases h
  obtain ⟨⟨d, rest⟩, hsplit, hrest⟩ := Option.map_eq_some_iff.1 hparts
  cases hrest
  obtain ⟨used, hused, hall⟩ := exists_decimalText hsplit
  rw [List.append_nil] at hall
  exact ⟨sign, _, used, _, hsign, hused, hall ▸ hcs⟩

end LiveMarkup.Number
