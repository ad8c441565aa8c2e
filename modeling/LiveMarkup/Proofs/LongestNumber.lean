import LiveMarkup.Proofs.TextNumbers

/-!
# The longest number a text starts with

A text can start with several numbers, one inside the other: `1.5e3` starts with `1`, with `1.`,
with `1.5` and with all of itself.  The one that is read is the longest.  The scan goes on as long
as the grammar does, and takes an exponent part only if it is complete; so whatever else the text
starts with ends where the scan has ended, or before.

## Main definitions

* `LeadingText` — the texts that are read at the front of a text, with what they denote.
* `IsLongest` — the longest of them that a text starts with.

## Main results

* `Number.ExponentText.shorter`, `Number.DecimalText.shorter` — the scan goes at least as far as any
  exponent part or decimal literal.
* `leadingNumber_cases` — what is read, by what the text starts with.
* `IsLongest.eq`, `exists_isLongest` — there is one longest number, if there are any.
* `longest_number_is_read` — the number of every text.
-/

namespace LiveMarkup

open Number Text

/-! ### How far the scan goes -/

namespace Number

variable {cs tail : List Char} {e : Int} {q : ℚ}

theorem length_splitExponent_le (cs : List Char) : (splitExponent cs).2.length ≤ cs.length := by
  obtain ⟨used, -, hcs⟩ := exists_exponentText cs
  have hlength := congrArg List.length hcs
  rw [List.length_append] at hlength
  omega

/-- After digits that may go on, an exponent part is read at least to its end. -/
theorem ExponentText.shorter (h : ExponentText tail e) (more : List Char) :
    (Number.splitExponent ((tail ++ more).dropWhile isDigit)).2.length ≤ more.length := by
  have hdigits (cs : List Char) : (cs.dropWhile isDigit).length ≤ cs.length :=
    (List.dropWhile_suffix isDigit).length_le
  cases h with
  | none => exact (length_splitExponent_le _).trans (hdigits more)
  | @some c sign ds negative n hmark hsign hds =>
    have hletter : ¬isDigit c = true := by rcases hmark with rfl | rfl <;> decide
    have hfront := hds.head?_any_isSign more
    obtain ⟨d, ds', hcons⟩ := List.exists_cons_of_ne_nil hds.ne_nil
    rw [List.cons_append, List.append_assoc, List.dropWhile_cons_of_neg hletter]
    simp only [Number.splitExponent, if_pos hmark, hsign.splitSign hfront,
      List.takeWhile_append_of_pos hds.digits, List.dropWhile_append_of_pos hds.digits]
    rw [hcons]
    exact hdigits more

/-- A decimal literal is read at least to its end. -/
theorem DecimalText.shorter (h : DecimalText cs q) (more : List Char) :
    ∃ d rest, splitDecimal (cs ++ more) = some (d, rest) ∧ rest.length ≤ more.length := by
  cases h with
  | @whole ds tail n e hds htail =>
    cases htail with
    | none =>
      -- digits, a point and more digits may follow
      obtain ⟨whole, point, fraction, rest, rfl, hparts⟩ := exists_decimalParts more
      have hall : ∀ c ∈ ds ++ whole, isDigit c = true := fun c hc =>
        (List.mem_append.1 hc).elim (hds.digits c) (hparts.digits c)
      have hsplit := (DecimalParts.mk hall hparts.places hparts.mark hparts.rest).splitDecimal_eq
      rw [if_neg (by simp [hds.ne_nil]), List.append_assoc] at hsplit
      rw [List.append_nil]
      refine ⟨_, _, hsplit, (length_splitExponent_le rest).trans ?_⟩
      simp only [List.length_append]
      omega
    | @some c sign ds' negative n' hmark hsign hds' =>
      have htail := ExponentText.some hmark hsign hds'
      obtain ⟨hdigit, hpoint⟩ := htail.head?
      have hparts : DecimalParts ds [] [] (c :: (sign ++ ds') ++ more) :=
        ⟨hds.digits, nofun, .inr ⟨rfl, rfl, hpoint⟩, hdigit⟩
      have hsplit := hparts.splitDecimal_eq
      rw [if_neg (by simp [hds.ne_nil])] at hsplit
      have hshorter := htail.shorter more
      have hstop : (c :: (sign ++ ds') ++ more).dropWhile isDigit = c :: (sign ++ ds') ++ more :=
        List.dropWhile_cons_of_neg (Bool.eq_false_iff.1 hdigit)
      rw [hstop] at hshorter
      rw [List.append_assoc]
      exact ⟨_, _, hsplit, hshorter⟩
  | @point ds fs tail e hsome hds hfs htail =>
    have hfollow := List.takeWhile_append_dropWhile (p := isDigit) (l := tail ++ more)
    have hall : ∀ c ∈ fs ++ (tail ++ more).takeWhile isDigit, isDigit c = true := fun c hc =>
      (List.mem_append.1 hc).elim (hfs c) List.mem_takeWhile_imp
    have hsplit := (DecimalParts.mk hds hall (.inl rfl)
      (head?_dropWhile_isDigit (tail ++ more))).splitDecimal_eq
    have hdigit : ¬(ds.isEmpty && (fs ++ (tail ++ more).takeWhile isDigit).isEmpty) = true := by
      simp only [Bool.and_eq_true, List.isEmpty_iff, List.append_eq_nil_iff]
      rintro ⟨hnone, hnone', -⟩
      exact hsome.elim (absurd hnone) (absurd hnone')
    rw [if_neg hdigit, List.append_assoc, hfollow] at hsplit
    rw [List.append_assoc, List.cons_append, List.append_assoc]
    exact ⟨_, _, hsplit, htail.shorter more⟩

theorem DecimalText.ne_nil (h : DecimalText cs q) : cs ≠ [] := by
  cases h with
  | whole hds => exact fun hnil => hds.ne_nil (List.append_eq_nil_iff.1 hnil).1
  | point => exact fun hnil => List.cons_ne_nil _ _ (List.append_eq_nil_iff.1 hnil).2

end Number

/-! ### Numbers at the front -/

/-- A signed infinity or a signed decimal literal, and what it denotes. -/
inductive LeadingText : List Char → NumberDenoted → Prop
  | infinity {sign : List Char} {negative : Bool} (hsign : SignText sign negative) :
    LeadingText (sign ++ infinityWord) (.infinite negative)
  | decimal {sign ds : List Char} {negative : Bool} {q : ℚ} (hsign : SignText sign negative)
    (hds : DecimalText ds q) : LeadingText (sign ++ ds) (.finite negative q)

/-- The longest such text that a text starts with. -/
structure IsLongest (cs used : List Char) (n : NumberDenoted) : Prop where
  number : LeadingText used n
  front : used <+: cs
  longest : ∀ other m, LeadingText other m → other <+: cs → other.length ≤ used.length

theorem NumberDenoted.IsReadAs.ne_nan {n : NumberDenoted} {x : Exact} (h : n.IsReadAs x) :
    x ≠ .nan := by
  rintro rfl
  cases n with
  | infinite => cases h
  | finite => cases h

section Front

variable {cs sign ds : List Char} {negative : Bool} {q : ℚ}

/-- A text that starts with an infinity starts with no decimal literal. -/
theorem splitSignedDecimal_infinity (hsign : SignText sign negative)
    (hfront : sign ++ infinityWord <+: cs) : splitSignedDecimal cs = none := by
  obtain ⟨rest, rfl⟩ := hfront
  cases hsign <;> rfl

/-- A text that starts with a decimal literal is read at least to its end. -/
theorem exists_splitSignedDecimal (hsign : SignText sign negative) (hds : DecimalText ds q)
    (hfront : sign ++ ds <+: cs) :
    ∃ x rest, splitSignedDecimal cs = some (x, rest) ∧
      (sign ++ ds).length + rest.length ≤ cs.length := by
  obtain ⟨more, rfl⟩ := hfront
  obtain ⟨d, rest, hsplit, hle⟩ := hds.shorter more
  have hhead : (ds ++ more).head?.any isSign = false := by
    have hunsigned := hds.head?
    obtain ⟨c, ds, rfl⟩ := List.exists_cons_of_ne_nil hds.ne_nil
    exact hunsigned
  refine ⟨nearest negative d, rest, ?_, ?_⟩
  · rw [List.append_assoc, splitSignedDecimal, hsign.splitSign hhead]
    dsimp only
    rw [hsplit]
    rfl
  · rw [@List.length_append _ (sign ++ ds)]
    exact Nat.add_le_add_left hle _

end Front

/-- What is read: an infinity if the text starts with one, else the decimal literal that is split
off. -/
theorem leadingNumber_cases (text : String) :
    (∃ sign negative, SignText sign negative ∧ sign ++ infinityWord <+: trimStart text.toList ∧
      Exact.ofFloat (leadingNumber text) = .infinite negative) ∨
    leadingNumber text = ((splitSignedDecimal (trimStart text.toList)).map (·.1)).getD nan := by
  unfold leadingNumber
  dsimp only
  split
  · next hword =>
    left
    rcases Bool.or_eq_true_iff.1 hword with hword | hword
    · exact ⟨[], false, .none, List.isPrefixOf_iff_prefix.1 hword, rfl⟩
    · exact ⟨['+'], false, .plus, List.isPrefixOf_iff_prefix.1 hword, rfl⟩
  · split
    · next hword =>
      exact .inl ⟨['-'], true, .minus, List.isPrefixOf_iff_prefix.1 hword, rfl⟩
    · exact .inr rfl

/-- An infinity at the front is read. -/
theorem exact_leadingNumber_infinity {text : String} {sign : List Char} {negative : Bool}
    (hsign : SignText sign negative) (hfront : sign ++ infinityWord <+: trimStart text.toList) :
    Exact.ofFloat (leadingNumber text) = .infinite negative := by
  have hword := List.isPrefixOf_iff_prefix.2 hfront
  cases hsign with
  | none =>
    change infinityWord.isPrefixOf (trimStart text.toList) = true at hword
    simp only [leadingNumber, hword, Bool.true_or, if_true]
    rfl
  | plus =>
    change ('+' :: infinityWord).isPrefixOf (trimStart text.toList) = true at hword
    simp only [leadingNumber, hword, Bool.or_true, if_true]
    rfl
  | minus =>
    change ('-' :: infinityWord).isPrefixOf (trimStart text.toList) = true at hword
    have hother : (infinityWord.isPrefixOf (trimStart text.toList) ||
        ('+' :: infinityWord).isPrefixOf (trimStart text.toList)) = false := by
      obtain ⟨rest, hcs⟩ := hfront
      rw [← hcs]
      rfl
    simp only [leadingNumber, hword, hother, Bool.false_eq_true, if_true, if_false]
    rfl

/-- The number that the rest begins after is the longest. -/
theorem isLongest_of_rest {cs used rest : List Char} {n : NumberDenoted} (hn : LeadingText used n)
    (hcs : cs = used ++ rest) (hrest : (splitSignedDecimal cs).map (·.2) = some rest) :
    IsLongest cs used n := by
  refine ⟨hn, ⟨rest, hcs.symm⟩, fun other m hother hfront => ?_⟩
  cases hother with
  | infinity hsign =>
    rw [splitSignedDecimal_infinity hsign hfront] at hrest
    cases hrest
  | decimal hsign hds =>
    obtain ⟨x, rest', hsplit, hle⟩ := exists_splitSignedDecimal hsign hds hfront
    rw [hsplit] at hrest
    cases hrest
    have hlength := congrArg List.length hcs
    rw [List.length_append] at hlength
    dsimp only at hlength
    omega

/-- Two longest numbers are the same piece of the text. -/
theorem IsLongest.eq {cs used used' : List Char} {n n' : NumberDenoted} (h : IsLongest cs used n)
    (h' : IsLongest cs used' n') : used = used' := by
  have hle := h'.longest used n h.number h.front
  have hge := h.longest used' n' h'.number h'.front
  exact (List.prefix_of_prefix_length_le h.front h'.front hle).eq_of_length (le_antisymm hle hge)

/-- Of the numbers that a text starts with one is the longest. -/
theorem exists_isLongest {cs used : List Char} {n : NumberDenoted} (hn : LeadingText used n)
    (hfront : used <+: cs) : ∃ used' n', IsLongest cs used' n' := by
  -- a number that is not the longest leaves fewer characters to a longer one
  induction hk : cs.length - used.length using Nat.strongRecOn generalizing used n with
  | ind k ih =>
    by_cases hlongest : ∀ other m, LeadingText other m → other <+: cs → other.length ≤ used.length
    · exact ⟨used, n, hn, hfront, hlongest⟩
    · push Not at hlongest
      obtain ⟨other, m, hother, hfront', hlonger⟩ := hlongest
      have hle := hfront'.length_le
      exact ih (cs.length - other.length) (by omega) hother hfront' rfl

section Reading

variable {text : String} {used piece rest : List Char} {n : NumberDenoted} {x : Float}

/-- Where no decimal literal is split off, a number at the front is an infinity, which is read. -/
theorem LeadingText.isReadAs (h : LeadingText used n) (hfront : used <+: trimStart text.toList)
    (hsplit : splitSignedDecimal (trimStart text.toList) = none) :
    n.IsReadAs (Exact.ofFloat (leadingNumber text)) := by
  cases h with
  | infinity hsign => exact exact_leadingNumber_infinity hsign hfront
  | decimal hsign hds =>
    obtain ⟨x, rest, hsplit', -⟩ := exists_splitSignedDecimal hsign hds hfront
    rw [hsplit] at hsplit'
    cases hsplit'

theorem leadingNumber_eq (hsplit : splitSignedDecimal (trimStart text.toList) = some (x, rest)) :
    leadingNumber text = x := by
  obtain ⟨sign, negative, hsign, hfront, -⟩ | hread := leadingNumber_cases text
  · rw [splitSignedDecimal_infinity hsign hfront] at hsplit
    cases hsplit
  · rw [hread, hsplit]
    rfl

/-- What the piece that has been converted denotes is read. -/
theorem LeadingText.isReadAs_piece (h : LeadingText piece n)
    (hfront : piece <+: trimStart text.toList) (hliteral : decimalLiteral? piece = some x)
    (hread : leadingNumber text = x) : n.IsReadAs (Exact.ofFloat (leadingNumber text)) := by
  cases h with
  | infinity hsign => exact exact_leadingNumber_infinity hsign hfront
  | decimal hsign hds =>
    obtain ⟨y, hy, hnearest⟩ := hds.literal hsign
    rw [hliteral] at hy
    cases hy
    rw [hread]
    exact hnearest

end Reading

/-- What `parseFloat` makes of every text.  White space in front does not count.

* The longest signed infinity or signed decimal literal that the text starts with is read, as the
  infinity or as the double nearest to the number.
* The result is not a number exactly if the text starts with none of them.  Else there is a longest.
* The scan by positions never cuts the text at a wrong place, and the piece that it chooses is
  converted to the result. -/
theorem longest_number_is_read (s : Store) (text : String) :
    let cs := trimStart text.toList
    ∃ x, s.callFunction (.builtin .parseFloat) [.string text] = (s, .ok (.number x)) ∧
      (∀ used n, IsLongest cs used n → n.IsReadAs (Exact.ofFloat x)) ∧
      (Exact.ofFloat x = .nan ↔ ∀ used n, LeadingText used n → ¬used <+: cs) ∧
      (Exact.ofFloat x ≠ .nan → ∃ used n, IsLongest cs used n) ∧
      ∃ piece?, chosenPiece? cs = some piece? ∧
        ∀ piece ∈ piece?, decimalLiteral? piece = some x := by
  intro cs
  refine ⟨leadingNumber text, rfl, ?_⟩
  obtain ⟨hnone, hsplit⟩ | ⟨piece, x, rest, hpiece, hliteral, hcs, hsplit⟩ := chosenPiece?_cases cs
  · refine ⟨fun used n h => h.number.isReadAs h.front hsplit,
      ⟨fun hnan used n hn hfront => (hn.isReadAs hfront hsplit).ne_nan hnan, fun hother => ?_⟩,
      fun hnumber => ?_, none, hnone, nofun⟩
    all_goals obtain ⟨sign, negative, hsign, hfront, -⟩ | hread := leadingNumber_cases text
    · exact absurd hfront (hother _ _ (.infinity hsign))
    · rw [hread, hsplit]
      rfl
    · exact exists_isLongest (.infinity hsign) hfront
    · rw [hread, hsplit] at hnumber
      exact absurd rfl hnumber
  · have hread : leadingNumber text = x := leadingNumber_eq hsplit
    obtain ⟨sign, negative, ds, q, hsign, hds, rfl⟩ := exists_literalText hliteral
    have hlongest : IsLongest cs (sign ++ ds) (.finite negative q) :=
      isLongest_of_rest (.decimal hsign hds) hcs (by rw [hsplit]; rfl)
    have hpiece_read {n : NumberDenoted} (hn : LeadingText (sign ++ ds) n) :
        n.IsReadAs (Exact.ofFloat (leadingNumber text)) :=
      hn.isReadAs_piece hlongest.front hliteral hread
    refine ⟨fun used n h => hpiece_read (h.eq hlongest ▸ h.number),
      ⟨fun hnan => absurd hnan (hpiece_read hlongest.number).ne_nan,
        fun hother => absurd hlongest.front (hother _ _ hlongest.number)⟩,
      fun _ => ⟨_, _, hlongest⟩, some (sign ++ ds), hpiece, ?_⟩
    rintro _ ⟨⟩
    rw [hliteral, hread]

/-- An exponent part that is not complete is left where it stands. -/
theorem half_before_letters_is_read :
    let cs := trimStart " -.5e+em".toList
    IsLongest cs "-.5".toList (.finite true (1 / 2)) ∧
      ∃ x, Store.initial.callFunction (.builtin .parseFloat) [.string " -.5e+em"] =
          (.initial, .ok (.number x)) ∧ (Exact.ofFloat x).IsNearest true (1 / 2) := by
  intro cs
  have hvalue : ((Nat.ofDigitChars 10 [] 0 + Nat.ofDigitChars 10 ['5'] 0 / 10 ^ ['5'].length) *
      10 ^ (0 : Int) : ℚ) = 1 / 2 := by
    decide +kernel
  have hhalf : DecimalText ['.', '5'] (1 / 2) := by
    rw [← hvalue]
    exact @DecimalText.point [] ['5'] [] 0 (.inr (List.cons_ne_nil _ _)) nofun
      (List.forall_mem_singleton.2 rfl) .none
  have hrest : (splitSignedDecimal cs).map (·.2) = some "e+em".toList := rfl
  have hlongest : IsLongest cs "-.5".toList (.finite true (1 / 2)) :=
    isLongest_of_rest (.decimal .minus hhalf) rfl hrest
  obtain ⟨x, hcall, hread, -⟩ := longest_number_is_read .initial " -.5e+em"
  exact ⟨hlongest, x, hcall, hread _ _ hlongest⟩

end LiveMarkup
