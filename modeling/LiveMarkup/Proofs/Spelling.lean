import LiveMarkup.Proofs.Unparsing

/-!
# Tokens between blanks

A token that is followed by a blank or by the end of the text is read as it is written.  A name ends
where no letter or digit goes on with it, and a symbol where no longer symbol begins in the same
way; a number takes the same characters whatever comes after it, and a string ends with its quote.
So tokens with blanks between them are read one by one.

## Main definitions

* `EndsToken` — what stands after a token.

## Main results

* `splitLexeme_number_append` — a number is read in the same way before a blank.
* `splitLexeme_text` — so is every token.
* `spelled_blankSeparated` — so are any number of tokens.
-/

namespace LiveMarkup.Syntax

open Text Number

/-- Nothing, or text that begins with a blank. -/
def EndsToken (rest : List Char) : Prop := rest = [] ∨ ∃ cs, rest = ' ' :: cs

theorem EndsToken.head? {rest : List Char} (h : EndsToken rest) {P : Char → Bool}
    (hP : P ' ' = false) : ∀ c ∈ rest.head?, P c = false := by
  rcases h with rfl | ⟨cs, rfl⟩
  · simp
  · rintro c ⟨⟩
    exact hP

/-! ### Names -/

theorem takeWhile_append_of_head? {P : Char → Bool} {cs rest : List Char}
    (hcs : ∀ c ∈ cs, P c = true) (hrest : ∀ c ∈ rest.head?, P c = false) :
    (cs ++ rest).takeWhile P = cs ∧ (cs ++ rest).dropWhile P = rest := by
  have htake : rest.takeWhile P = [] := by
    cases rest with
    | nil => rfl
    | cons c rest => simp [hrest c rfl]
  have hdrop : rest.dropWhile P = rest := by
    cases rest with
    | nil => rfl
    | cons c rest => simp [hrest c rfl]
  rw [List.takeWhile_append_of_pos hcs, List.dropWhile_append_of_pos hcs, htake, hdrop]
  exact ⟨List.append_nil cs, rfl⟩

/-! ### Numbers -/

theorem EndsToken.splitNumber {rest : List Char} (h : EndsToken rest) (point mark : Bool) :
    splitNumber point mark rest = ([], rest) := by
  rcases h with rfl | ⟨cs, rfl⟩
  · rfl
  · rw [splitNumber.eq_def]
    simp [show isDigit ' ' = false from rfl]

theorem EndsToken.not_sign {rest : List Char} (h : EndsToken rest) :
    ∀ d ∈ rest.head?, ¬(d = '+' ∨ d = '-') := by
  rcases h with rfl | ⟨cs, rfl⟩
  · simp
  · rintro d ⟨⟩
    decide

/-- After an exponent mark without a sign, the number goes on with the next character. -/
theorem splitNumber_mark {point mark : Bool} {c : Char} {cs : List Char}
    (hdigit : ¬isDigit c = true) (hc : (c = 'e' ∨ c = 'E') ∧ (!mark) = true)
    (hcs : ∀ d ∈ cs.head?, ¬(d = '+' ∨ d = '-')) :
    splitNumber point mark (c :: cs) =
      (c :: (splitNumber point true cs).1, (splitNumber point true cs).2) := by
  have hpoint : c ≠ '.' ∧ c ≠ '_' := by
    rcases hc.1 with rfl | rfl <;> exact ⟨by decide, by decide⟩
  have hdot : ¬(c = '.' ∧ (!point) = true ∧ (!mark) = true) := fun h => hpoint.1 h.1
  rw [splitNumber.eq_def]
  dsimp only
  rw [if_neg hdigit, if_neg hpoint.2, if_neg hdot, if_pos hc]
  cases cs with
  | nil => rfl
  | cons d cs => simp only [if_neg (hcs d rfl)]

/-- What is taken for a decimal number is taken whatever comes after it, if that is a blank. -/
theorem splitNumber_append {point mark : Bool} {cs text rest : List Char}
    (h : splitNumber point mark cs = (text, rest)) :
    ∃ taken, cs = taken ++ rest ∧
      ∀ after, EndsToken after → splitNumber point mark (taken ++ after) = (text, after) := by
  fun_induction splitNumber point mark cs generalizing text with
  | case1 =>
    cases h
    exact ⟨[], rfl, fun after hafter => hafter.splitNumber _ _⟩
  | case2 point mark c cs hdigit text' rest' hread ih =>
    cases h
    obtain ⟨taken, rfl, htaken⟩ := ih hread
    refine ⟨c :: taken, rfl, fun after hafter => ?_⟩
    rw [List.cons_append, splitNumber.eq_def]
    dsimp only
    rw [if_pos hdigit, htaken after hafter]
  | case3 point mark cs hdigit ih =>
    obtain ⟨taken, rfl, htaken⟩ := ih h
    refine ⟨'_' :: taken, rfl, fun after hafter => ?_⟩
    rw [List.cons_append, splitNumber.eq_def]
    dsimp only
    rw [if_neg hdigit, if_pos rfl, htaken after hafter]
  | case4 point mark c cs hdigit hunder hpoint text' rest' hread ih =>
    cases h
    obtain ⟨taken, rfl, htaken⟩ := ih hread
    refine ⟨c :: taken, rfl, fun after hafter => ?_⟩
    rw [List.cons_append, splitNumber.eq_def]
    dsimp only
    rw [if_neg hdigit, if_neg hunder, if_pos hpoint, htaken after hafter]
  | case5 point mark c hdigit hunder hpoint hmark =>
    cases h
    refine ⟨[c], rfl, fun after hafter => ?_⟩
    rw [List.singleton_append, splitNumber_mark hdigit hmark hafter.not_sign, hafter.splitNumber]
  | case6 point mark c hdigit hunder hpoint hmark d cs hsign text' rest' hread ih =>
    cases h
    obtain ⟨taken, rfl, htaken⟩ := ih hread
    refine ⟨c :: d :: taken, rfl, fun after hafter => ?_⟩
    rw [List.cons_append, splitNumber.eq_def]
    dsimp only [List.cons_append]
    rw [if_neg hdigit, if_neg hunder, if_neg hpoint, if_pos hmark, if_pos hsign,
      htaken after hafter]
  | case7 point mark c hdigit hunder hpoint hmark d cs hsign text' rest' hread ih =>
    cases h
    obtain ⟨taken, heq, htaken⟩ := ih hread
    refine ⟨c :: taken, by rw [heq, List.cons_append], fun after hafter => ?_⟩
    have hsign : ∀ d ∈ (taken ++ after).head?, ¬(d = '+' ∨ d = '-') := by
      cases taken with
      | nil => exact hafter.not_sign
      | cons e taken =>
        cases heq
        rintro _ ⟨⟩
        exact hsign
    rw [List.cons_append, splitNumber_mark hdigit hmark hsign, htaken after hafter]
  | case8 point mark c cs =>
    cases h
    exact ⟨[], rfl, fun after hafter => hafter.splitNumber _ _⟩

theorem splitHexMark_append {cs digits : List Char} (h : splitHexMark cs = some digits) :
    ∃ mark, cs = mark ++ digits ∧ ∀ after, splitHexMark (mark ++ after) = some after := by
  unfold splitHexMark at h
  split at h
  · cases h
    exact ⟨['0', 'x'], rfl, fun _ => rfl⟩
  · cases h
    exact ⟨['0', 'X'], rfl, fun _ => rfl⟩
  · cases h

theorem splitHexMark_append_eq_none {taken rest after : List Char}
    (h : splitHexMark (taken ++ rest) = none) (hafter : EndsToken after) :
    splitHexMark (taken ++ after) = none := by
  -- only the first two characters matter, and a blank is none of them
  rcases taken with _ | ⟨c, _ | ⟨d, taken⟩⟩
  · rcases hafter with rfl | ⟨cs, rfl⟩ <;> rfl
  · rcases hafter with rfl | ⟨cs, rfl⟩ <;> simp [splitHexMark]
  · unfold splitHexMark at h ⊢
    split
    · next heq =>
      cases heq
      cases h
    · next heq =>
      cases heq
      cases h
    · rfl

/-- What is taken for a number is taken whatever comes after it, if that is a blank. -/
theorem splitNumberToken_append {cs rest : List Char} {kind : TokenKind}
    (h : splitNumberToken cs = .ok (kind, rest)) :
    ∃ taken, cs = taken ++ rest ∧
      ∀ after, EndsToken after → splitNumberToken (taken ++ after) = .ok (kind, after) := by
  unfold splitNumberToken at h
  split at h
  · next digits hmark =>
    obtain ⟨mark, rfl, hread⟩ := splitHexMark_append hmark
    split at h
    · next n hword =>
      cases h
      refine ⟨mark ++ digits.takeWhile isHexDigit, ?_, fun after hafter => ?_⟩
      · rw [List.append_assoc, List.takeWhile_append_dropWhile]
      · obtain ⟨htake, hdrop⟩ := takeWhile_append_of_head? (P := isHexDigit)
          (List.all_eq_true.1 (List.all_takeWhile (l := digits))) (hafter.head? (by decide))
        unfold splitNumberToken
        rw [List.append_assoc, hread]
        dsimp only
        rw [htake, hdrop, hword]
    · cases h
  · next hmark =>
    obtain ⟨taken, heq, hread⟩ := splitNumber_append (rfl : splitNumber false false cs = (_, _))
    dsimp only at h
    split at h
    · cases h
    split at h
    · next x hx =>
      cases h
      refine ⟨taken, heq, fun after hafter => ?_⟩
      unfold splitNumberToken
      rw [splitHexMark_append_eq_none (heq ▸ hmark) hafter]
      dsimp only
      rw [hread after hafter]
      dsimp only
      have hname : after.head?.any isNameStart = false :=
        (Option.any_eq_false _ _).2 (hafter.head? (by decide))
      rw [hname, hx]
      rfl
    · cases h

theorem splitLexeme_eq_number {c : Char} {cs rest : List Char} {x : Float}
    (h : splitLexeme c cs = .ok (.number x, rest)) :
    isNameStart c = false ∧ startsNumber c cs = true ∧
      splitNumberToken (c :: cs) = .ok (.number x, rest) := by
  unfold splitLexeme at h
  split at h
  · cases h
  · next hc =>
    split at h
    · next hstart => exact ⟨Bool.eq_false_iff.2 hc, hstart, h⟩
    · split at h
      · rcases hread : splitString c (c :: cs) .plain cs with _ | _ <;> rw [hread] at h <;> cases h
      · rcases hread : splitSymbol c cs with _ | _ <;> rw [hread] at h <;> cases h

theorem breaks_of_startsNumber {c : Char} {cs : List Char} (h : startsNumber c cs = true) :
    breaks c = false := by
  have hnumeral : Scan.continuesNumeral c = true := by
    simp only [startsNumber, Bool.or_eq_true, Bool.and_eq_true, beq_iff_eq] at h
    rcases h with hdigit | ⟨rfl, -⟩
    · have hdigit : c.isDigit = true := hdigit
      simp [Scan.continuesNumeral, Char.isAlphanum, hdigit]
    · rfl
  simp [breaks, hnumeral]

/-- A number token begins in the same way if other text comes after it. -/
theorem startsNumber_append {c : Char} {taken rest after : List Char} {kind : TokenKind}
    (hstart : startsNumber c (taken ++ rest) = true)
    (hread : splitNumberToken (c :: taken) = .ok (kind, [])) :
    startsNumber c (taken ++ after) = true := by
  simp only [startsNumber, Bool.or_eq_true, Bool.and_eq_true, beq_iff_eq] at hstart ⊢
  rcases hstart with hdigit | ⟨rfl, hdigit⟩
  · exact .inl hdigit
  · refine .inr ⟨rfl, ?_⟩
    cases taken with
    | nil => cases hread
    | cons d taken => exact hdigit

/-- What is taken for a number is taken whatever comes after it, if that is a blank. -/
theorem splitLexeme_number_append {c : Char} {cs rest : List Char} {x : Float}
    (h : splitLexeme c cs = .ok (.number x, rest)) :
    ∃ taken, cs = taken ++ rest ∧
      ∀ after, EndsToken after → splitLexeme c (taken ++ after) = .ok (.number x, after) := by
  obtain ⟨hc, hstart, hread⟩ := splitLexeme_eq_number h
  obtain ⟨taken, rfl⟩ := isSuffix_of_splitNumberToken hread hstart
  obtain ⟨lexeme, heq, htaken⟩ := splitNumberToken_append hread
  obtain rfl : lexeme = c :: taken := List.append_cancel_right heq.symm
  refine ⟨taken, rfl, fun after hafter => ?_⟩
  have halone := htaken [] (.inl rfl)
  rw [List.append_nil] at halone
  unfold splitLexeme
  rw [if_neg (Bool.not_eq_true _ ▸ hc), if_pos (startsNumber_append hstart halone)]
  exact htaken after hafter

/-! ### Strings and symbols -/

/-- An escaped string is read back up to its closing quote. -/
theorem splitString_escaped (opened cs rest : List Char) :
    splitString '"' opened .plain (cs.flatMap escaped ++ '"' :: rest) = .ok (cs, rest) := by
  induction cs with
  | nil => rfl
  | cons c cs ih =>
    rw [List.flatMap_cons, List.append_assoc, escaped]
    split
    · next hc =>
      -- the backslash is passed over, and the character stands for itself
      have hself : escapedChar c = c ∧ c ≠ 'u' ∧ c ≠ '\n' := by rcases hc with rfl | rfl <;> decide
      rw [List.cons_append, splitString, if_neg (by decide), if_neg (by decide), if_pos rfl]
      rw [List.cons_append, splitString, if_neg hself.2.1, if_neg hself.2.2, hself.1]
      rw [List.nil_append, ih]
      rfl
    · next hc =>
      obtain ⟨hquote, hslash⟩ := not_or.1 hc
      split
      · next hline =>
        subst hline
        rw [List.cons_append, splitString, if_neg (by decide), if_neg (by decide), if_pos rfl]
        rw [List.cons_append, splitString, if_neg (by decide), if_neg (by decide), List.nil_append,
          ih]
        rfl
      · next hline =>
        rw [List.cons_append, splitString, if_neg hquote, if_neg hline, if_neg hslash]
        rw [List.nil_append, ih]
        rfl

/-- The longest symbol that a text begins with is the one before a blank. -/
theorem splitSymbol_text (s : Symbol) {rest : List Char} (hrest : EndsToken rest) :
    ∃ c cs, s.text.toList ++ rest = c :: cs ∧ c ∈ '.' :: symbolChars ∧ startsNumber c cs = false ∧
      skipTrivia .plain false (c :: cs) = .ok (false, c :: cs) ∧
      splitSymbol c cs = .ok (s, rest) := by
  rcases hrest with rfl | ⟨rest, rfl⟩
  · cases s <;> exact ⟨_, _, rfl, by decide, rfl, rfl, rfl⟩
  · cases s <;> exact ⟨_, _, rfl, by decide, rfl, rfl, rfl⟩

/-! ### All tokens -/

/-- A token before a blank or the end of the text is read as it is written. -/
theorem splitLexeme_text {σ : Style} {kind : TokenKind} (hkind : kind.Readable σ)
    {rest : List Char} (hrest : EndsToken rest) :
    ∃ c cs, kind.text σ ++ rest = c :: cs ∧
      skipTrivia .plain false (c :: cs) = .ok (false, c :: cs) ∧
      splitLexeme c cs = .ok (kind, rest) := by
  cases kind with
  | number x =>
    obtain ⟨c, cs, heq, hread⟩ := hkind
    obtain ⟨taken, htaken, hafter⟩ := splitLexeme_number_append hread
    rw [List.append_nil] at htaken
    subst htaken
    have hbreaks : breaks c = false := breaks_of_startsNumber (splitLexeme_eq_number hread).2.1
    exact ⟨c, cs ++ rest, by rw [TokenKind.text, heq, List.cons_append],
      skipTrivia_of_not_breaks hbreaks false _, hafter rest hrest⟩
  | string s =>
    refine ⟨'"', s.toList.flatMap escaped ++ '"' :: rest, by simp [TokenKind.text], rfl, ?_⟩
    have hstart : ∀ cs, startsNumber '"' cs = false := fun _ => rfl
    unfold splitLexeme
    rw [if_neg (by decide), if_neg (by simp [hstart]), if_pos (.inl rfl), splitString_escaped]
    simp only [Except.map, String.ofList_toList]
  | name s =>
    obtain ⟨c, cs, heq, hc, hcs⟩ := isName_iff.1 hkind
    obtain ⟨htake, hdrop⟩ := takeWhile_append_of_head? hcs (hrest.head? (by decide))
    refine ⟨c, cs ++ rest, by rw [TokenKind.text, heq, List.cons_append],
      skipTrivia_of_isNameStart hc false _, ?_⟩
    unfold splitLexeme
    rw [if_pos hc, htake, hdrop, ← heq, String.ofList_toList]
  | symbol s =>
    obtain ⟨c, cs, heq, hc, hstart, hskip, hread⟩ := splitSymbol_text s hrest
    have hall : ('.' :: symbolChars).all
        (fun c => !isNameStart c && c != '"' && c != '\'') = true := by decide
    have hchar := List.all_eq_true.1 hall c hc
    simp only [Bool.and_eq_true, Bool.not_eq_true', bne_iff_ne] at hchar
    obtain ⟨⟨hname, hdouble⟩, hsingle⟩ := hchar
    refine ⟨c, cs, heq, hskip, ?_⟩
    unfold splitLexeme
    rw [if_neg (by simp [hname]), if_neg (by simp [hstart]), if_neg (by simp [hdouble, hsingle]),
      hread]
    rfl
  | finish => exact hkind.elim

/-- What comes after a token that `kinds` follow. -/
def afterToken (σ : Style) (kinds : List TokenKind) : List Char :=
  if kinds.isEmpty then [] else ' ' :: blankSeparated σ kinds

theorem endsToken_afterToken (σ : Style) (kinds : List TokenKind) :
    EndsToken (afterToken σ kinds) := by
  unfold afterToken
  split
  · exact .inl rfl
  · exact .inr ⟨_, rfl⟩

theorem blankSeparated_cons (σ : Style) (kind : TokenKind) (kinds : List TokenKind) :
    blankSeparated σ (kind :: kinds) = kind.text σ ++ afterToken σ kinds := by
  cases kinds with
  | nil => simp [blankSeparated, afterToken]
  | cons next rest =>
    simp only [blankSeparated, List.map_cons, List.intercalate_cons_cons, List.append_assoc]
    rfl

/-- Tokens with blanks between them are read as they are written. -/
theorem spelled_blankSeparated {σ : Style} {kinds : List TokenKind}
    (h : ∀ kind ∈ kinds, kind.Readable σ) :
    ∃ tokens, Spelled (blankSeparated σ kinds) tokens ∧ Spelled (afterToken σ kinds) tokens ∧
      tokens.map Token.kind = kinds ++ [.finish] ∧ ∀ t ∈ tokens, t.newlineBefore = false := by
  induction kinds with
  | nil => exact ⟨_, .finish rfl, .finish rfl, rfl, by simp⟩
  | cons kind kinds ih =>
    obtain ⟨hkind, hkinds⟩ := List.forall_mem_cons.1 h
    obtain ⟨tokens, -, hspelled, hmap, hunbroken⟩ := ih hkinds
    obtain ⟨c, cs, heq, hskip, hlexeme⟩ :=
      splitLexeme_text hkind (endsToken_afterToken σ kinds)
    rw [← blankSeparated_cons] at heq
    refine ⟨⟨kind, c :: cs, false⟩ :: tokens, ?_, ?_, ?_, ?_⟩
    · exact heq ▸ .token hskip hlexeme hspelled
    · rw [afterToken, if_neg (by simp), heq]
      exact .token hskip hlexeme hspelled
    · rw [List.map_cons, hmap, List.cons_append]
    · exact List.forall_mem_cons.2 ⟨rfl, hunbroken⟩

end LiveMarkup.Syntax
