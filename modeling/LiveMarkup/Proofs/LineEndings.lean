import LiveMarkup.Proofs.Partition

/-!
# Line breaks of two characters

A text may end its lines with a line feed or with a carriage return and a line feed.  The two texts
have the same tokens, with the same line breaks between them, as long as no string literal goes on
over the end of a line.  A backslash there takes the carriage return, and the line feed after it is
the end of a literal that was not closed.

## Main definitions

* `withReturns` — a text with a carriage return in front of each line feed.
* `Token.SpansLines` — a string literal that goes on over the end of a line.

## Main results

* `splitString_inside` — a string literal is read as what its inside stands for.
* `skipTrivia_withReturns`, `splitLexeme_withReturns` — skipping and taking one token, with carriage
  returns.
* `tokens_with_returns` — which texts have tokens with carriage returns, and that they are the same.
-/

namespace LiveMarkup.Syntax

open Text Number

/-! ### Texts with carriage returns -/

/-- A text with a carriage return in front of each line feed. -/
def withReturns (cs : List Char) : List Char :=
  cs.flatMap fun c => if c = '\n' then ['\r', '\n'] else [c]

@[simp] theorem withReturns_nil : withReturns [] = [] := rfl

@[simp] theorem withReturns_newline (cs : List Char) :
    withReturns ('\n' :: cs) = '\r' :: '\n' :: withReturns cs := rfl

theorem withReturns_cons {c : Char} (hc : c ≠ '\n') (cs : List Char) :
    withReturns (c :: cs) = c :: withReturns cs := by
  simp [withReturns, hc]

theorem withReturns_append (cs ds : List Char) :
    withReturns (cs ++ ds) = withReturns cs ++ withReturns ds :=
  List.flatMap_append

theorem withReturns_of_not_mem {cs : List Char} (h : '\n' ∉ cs) : withReturns cs = cs := by
  induction cs with
  | nil => rfl
  | cons c cs ih =>
    obtain ⟨hc, hcs⟩ := List.ne_and_not_mem_of_not_mem_cons h
    rw [withReturns_cons (Ne.symm hc), ih hcs]

/-- What begins with neither of the two characters began so before. -/
theorem exists_of_withReturns_eq_cons {cs ds : List Char} {d : Char}
    (h : withReturns cs = d :: ds) (hd : d ≠ '\r') :
    ∃ cs', cs = d :: cs' ∧ ds = withReturns cs' := by
  cases cs with
  | nil => cases h
  | cons c cs =>
    by_cases hc : c = '\n'
    · subst hc
      cases h
      exact absurd rfl hd
    · rw [withReturns_cons hc] at h
      cases h
      exact ⟨cs, rfl, rfl⟩

/-- Up to a character other than the two, a text without line feeds is as it was. -/
theorem exists_of_withReturns_eq_append {cs before after : List Char} {d : Char}
    (h : withReturns cs = before ++ d :: after) (hbefore : '\n' ∉ before)
    (hd : d ≠ '\r' ∧ d ≠ '\n') :
    ∃ rest, cs = before ++ d :: rest ∧ after = withReturns rest := by
  induction before generalizing cs with
  | nil =>
    obtain ⟨rest, rfl, rfl⟩ := exists_of_withReturns_eq_cons h hd.1
    exact ⟨rest, rfl, rfl⟩
  | cons b before ih =>
    obtain ⟨-, hmore⟩ := List.ne_and_not_mem_of_not_mem_cons hbefore
    cases cs with
    | nil => cases h
    | cons c cs =>
      by_cases hc : c = '\n'
      · subst hc
        obtain ⟨rfl, htail⟩ := List.cons.inj h
        -- the line feed is either what comes next or before it
        cases before with
        | nil => exact absurd (List.cons.inj htail).1.symm hd.2
        | cons e before =>
          obtain ⟨rfl, -⟩ := List.cons.inj htail
          exact absurd List.mem_cons_self hmore
      · rw [withReturns_cons hc] at h
        obtain ⟨rfl, htail⟩ := List.cons.inj h
        obtain ⟨rest, rfl, rfl⟩ := ih htail hmore
        exact ⟨rest, rfl, rfl⟩

/-- Each line feed comes after a carriage return. -/
theorem exists_of_withReturns_eq_append_newline {cs before after : List Char}
    (h : withReturns cs = before ++ '\n' :: after) : ∃ init, before = init ++ ['\r'] := by
  induction cs generalizing before with
  | nil => exact absurd h.symm (List.append_ne_nil_of_right_ne_nil _ (List.cons_ne_nil _ _))
  | cons c cs ih =>
    by_cases hc : c = '\n'
    · subst hc
      cases before with
      | nil => cases h
      | cons b before =>
        obtain ⟨rfl, htail⟩ := List.cons.inj h
        cases before with
        | nil => exact ⟨[], rfl⟩
        | cons e before =>
          obtain ⟨rfl, hrest⟩ := List.cons.inj htail
          obtain ⟨init, rfl⟩ := ih hrest
          exact ⟨'\r' :: '\n' :: init, rfl⟩
    · rw [withReturns_cons hc] at h
      cases before with
      | nil => exact absurd (List.cons.inj h).1 hc
      | cons b before =>
        obtain ⟨rfl, htail⟩ := List.cons.inj h
        obtain ⟨init, rfl⟩ := ih htail
        exact ⟨c :: init, rfl⟩

/-! ### Between tokens -/

/-- The same mark, in the text with carriage returns. -/
def Trivia.withReturns : Trivia → Trivia
  | .block opened => .block (Syntax.withReturns opened)
  | trivia => trivia

/-- The same result, in the text with carriage returns. -/
def returned {α : Type} : Except Located (α × List Char) → Except Located (α × List Char)
  | .ok (a, rest) => .ok (a, withReturns rest)
  | .error (fault, place) => .error (fault, withReturns place)

theorem opensComment_withReturns (cs : List Char) :
    opensComment (withReturns cs) = opensComment cs := by
  -- a comment opens with two characters, of which none is a line break
  rcases cs with _ | ⟨c, cs⟩
  · rfl
  by_cases hc : c = '\n'
  · subst hc
    rfl
  rw [withReturns_cons hc]
  rcases cs with _ | ⟨d, cs⟩
  · rfl
  by_cases hd : d = '\n'
  · subst hd
    rw [withReturns_newline, opensComment_eq_false, opensComment_eq_false] <;> rintro _ - ⟨⟩
  · rw [withReturns_cons hd]
    unfold opensComment
    split <;> simp_all

theorem skipTrivia_withReturns_cons {c : Char} {cs : List Char} (hc : c ≠ '\n')
    (hcomment : opensComment (c :: cs) = false) (broken : Bool) :
    skipTrivia .plain broken (withReturns (c :: cs)) =
      if c = '\n' ∨ c = '\r' then skipTrivia .plain true (withReturns cs)
      else if isBlank c then skipTrivia .plain broken (withReturns cs)
      else .ok (broken, withReturns (c :: cs)) := by
  rw [← opensComment_withReturns] at hcomment
  rw [withReturns_cons hc] at hcomment ⊢
  exact skipTrivia_cons hcomment broken

/-- A carriage return is skipped like the line feed after it. -/
theorem skipTrivia_withReturns (trivia : Trivia) (broken : Bool) (cs : List Char) :
    skipTrivia trivia.withReturns broken (withReturns cs) =
      returned (skipTrivia trivia broken cs) := by
  fun_induction skipTrivia trivia broken cs with
  | case1 | case7 | case10 => rfl
  | case2 broken cs ih | case3 broken cs ih | case8 broken cs ih | case11 opened broken cs ih =>
    exact ih
  | case4 broken c cs hline hblock hc ih =>
    by_cases hbreak : c = '\n'
    · subst hbreak
      exact ih
    · have hstep := skipTrivia_withReturns_cons hbreak (opensComment_eq_false hline hblock) broken
      rw [if_pos hc] at hstep
      exact hstep.trans ih
  | case5 broken c cs hline hblock hc hblank ih =>
    have hbreak : c ≠ '\n' := fun h => hc (.inl h)
    have hstep := skipTrivia_withReturns_cons hbreak (opensComment_eq_false hline hblock) broken
    rw [if_neg hc, if_pos hblank] at hstep
    exact hstep.trans ih
  | case6 broken c cs hline hblock hc hblank =>
    have hbreak : c ≠ '\n' := fun h => hc (.inl h)
    have hstep := skipTrivia_withReturns_cons hbreak (opensComment_eq_false hline hblock) broken
    rw [if_neg hc, if_neg hblank] at hstep
    exact hstep
  | case9 broken c cs hbreak ih =>
    rw [withReturns_cons hbreak]
    exact (if_neg hbreak).trans ih
  | case12 opened broken c cs hend ih =>
    by_cases hbreak : c = '\n'
    · subst hbreak
      -- the carriage return is one more character of the comment
      rw [beq_self_eq_true, Bool.or_true] at ih ⊢
      rw [← ih, withReturns_newline, Trivia.withReturns, skipTrivia, skipTrivia]
      · simp
      · rintro rest ⟨⟩
      · rintro rest ⟨⟩
    · rw [withReturns_cons hbreak, Trivia.withReturns, skipTrivia]
      · exact ih
      · rintro more rfl hmore
        obtain ⟨rest, rfl, -⟩ := exists_of_withReturns_eq_cons hmore (by decide)
        exact hend rest rfl rfl

/-! ### Names, numbers and symbols -/

section Runs

variable {P : Char → Bool} (hreturn : P '\r' = false) (hnewline : P '\n' = false)

include hreturn hnewline

theorem any_head?_withReturns (cs : List Char) :
    (withReturns cs).head?.any P = cs.head?.any P := by
  rcases cs with _ | ⟨c, cs⟩
  · rfl
  by_cases hc : c = '\n'
  · subst hc
    simp [hreturn, hnewline]
  · rw [withReturns_cons hc]
    rfl

/-- A run of characters that are no line breaks ends where it did. -/
theorem takeWhile_withReturns (cs : List Char) :
    (withReturns cs).takeWhile P = cs.takeWhile P ∧
      (withReturns cs).dropWhile P = withReturns (cs.dropWhile P) := by
  induction cs with
  | nil => exact ⟨rfl, rfl⟩
  | cons c cs ih =>
    by_cases hc : c = '\n'
    · subst hc
      simp [hreturn, hnewline]
    · rw [withReturns_cons hc, List.takeWhile_cons, List.takeWhile_cons, List.dropWhile_cons,
        List.dropWhile_cons]
      split
      · exact ⟨congrArg (c :: ·) ih.1, ih.2⟩
      · exact ⟨rfl, (withReturns_cons hc cs).symm⟩

end Runs

theorem splitNumber_withReturns (point mark : Bool) (cs : List Char) :
    splitNumber point mark (withReturns cs) =
      ((splitNumber point mark cs).1, withReturns (splitNumber point mark cs).2) := by
  have hexponent : ∀ {c : Char}, c = 'e' ∨ c = 'E' → c ≠ '\n' := by
    rintro c (rfl | rfl) <;> decide
  fun_induction splitNumber point mark cs with
  | case1 => rfl
  | case2 point mark c cs hc text rest heq ih =>
    have hbreak : c ≠ '\n' := by
      rintro rfl
      exact absurd hc (by decide)
    rw [withReturns_cons hbreak, splitNumber.eq_def]
    dsimp only
    rw [if_pos hc, ih, heq]
  | case3 point mark cs hdigit ih =>
    rw [withReturns_cons (by decide), splitNumber.eq_def]
    exact ih
  | case4 point mark c cs hdigit hline hc text rest heq ih =>
    have hbreak : c ≠ '\n' := hc.1 ▸ by decide
    rw [withReturns_cons hbreak, splitNumber.eq_def]
    dsimp only
    rw [if_neg hdigit, if_neg hline, if_pos hc, ih, heq]
  | case5 point mark c hdigit hline hpoint hc =>
    have hbreak := hexponent hc.1
    rw [withReturns_cons hbreak, splitNumber.eq_def]
    dsimp only
    rw [if_neg hdigit, if_neg hline, if_neg hpoint, if_pos hc]
    rfl
  | case6 point mark c hdigit hline hpoint hc d cs hd text rest heq ih =>
    have hbreak := hexponent hc.1
    have hbreak' : d ≠ '\n' := by rcases hd with rfl | rfl <;> decide
    rw [withReturns_cons hbreak, withReturns_cons hbreak', splitNumber.eq_def]
    dsimp only
    rw [if_neg hdigit, if_neg hline, if_neg hpoint, if_pos hc, if_pos hd, ih, heq]
  | case7 point mark c hdigit hline hpoint hc d cs hd text rest heq ih =>
    have hbreak := hexponent hc.1
    rw [withReturns_cons hbreak, splitNumber.eq_def]
    dsimp only
    rw [if_neg hdigit, if_neg hline, if_neg hpoint, if_pos hc]
    -- the exponent mark may be the last character of its line
    by_cases hbreak' : d = '\n'
    · subst hbreak'
      rw [withReturns_newline] at ih ⊢
      rw [heq] at ih
      dsimp only
      rw [if_neg (by decide), ih]
    · rw [withReturns_cons hbreak'] at ih ⊢
      rw [heq] at ih
      dsimp only
      rw [if_neg hd, ih]
  | case8 point mark c cs hdigit hline hpoint hc =>
    by_cases hbreak : c = '\n'
    · subst hbreak
      rw [withReturns_newline, splitNumber.eq_def]
      simp [show isDigit '\r' = false by decide]
    · rw [withReturns_cons hbreak, splitNumber.eq_def]
      dsimp only
      rw [if_neg hdigit, if_neg hline, if_neg hpoint, if_neg hc]

theorem splitHexMark_withReturns (cs : List Char) :
    splitHexMark (withReturns cs) = (splitHexMark cs).map withReturns := by
  have hkept : ∀ {mark : Char} (digits : List Char), mark ≠ '\n' →
      withReturns ('0' :: mark :: digits) = '0' :: mark :: withReturns digits := by
    intro mark digits hmark
    rw [withReturns_cons (by decide), withReturns_cons hmark]
  rw [splitHexMark.eq_def]
  split
  · next heq =>
    obtain ⟨more, rfl, hmore⟩ := exists_of_withReturns_eq_cons heq (by decide)
    obtain ⟨digits, rfl, rfl⟩ := exists_of_withReturns_eq_cons hmore.symm (by decide)
    rfl
  · next heq =>
    obtain ⟨more, rfl, hmore⟩ := exists_of_withReturns_eq_cons heq (by decide)
    obtain ⟨digits, rfl, rfl⟩ := exists_of_withReturns_eq_cons hmore.symm (by decide)
    rfl
  · next hlower hupper =>
    rw [splitHexMark]
    · rfl
    · rintro digits rfl
      exact hlower _ (hkept digits (by decide))
    · rintro digits rfl
      exact hupper _ (hkept digits (by decide))

theorem splitNumberToken_withReturns (cs : List Char) :
    splitNumberToken (withReturns cs) = returned (splitNumberToken cs) := by
  unfold splitNumberToken
  rw [splitHexMark_withReturns]
  cases splitHexMark cs with
  | some digits =>
    obtain ⟨htake, hdrop⟩ :=
      takeWhile_withReturns (P := isHexDigit) (by decide) (by decide) digits
    dsimp only [Option.map_some]
    rw [htake, hdrop]
    split <;> rfl
  | none =>
    dsimp only [Option.map_none]
    rw [splitNumber_withReturns, any_head?_withReturns (by decide) (by decide)]
    dsimp only
    split
    · rfl
    · split <;> rfl

theorem longer_withReturns (cs : List Char) (short : Symbol) {choices : List (Char × Symbol)}
    (hchoices : choices.lookup '\r' = none ∧ choices.lookup '\n' = none) :
    longer (withReturns cs) short choices =
      ((longer cs short choices).1, withReturns (longer cs short choices).2) := by
  rcases cs with _ | ⟨c, cs⟩
  · rfl
  by_cases hc : c = '\n'
  · subst hc
    rw [withReturns_newline, longer, longer, hchoices.1, hchoices.2]
    rfl
  · rw [withReturns_cons hc, longer, longer]
    split
    · rfl
    · rw [withReturns_cons hc]

theorem splitQuestion_withReturns (cs : List Char) :
    splitQuestion (withReturns cs) = ((splitQuestion cs).1, withReturns (splitQuestion cs).2) := by
  rw [splitQuestion.eq_def]
  split
  · next heq =>
    obtain ⟨rest, rfl, rfl⟩ := exists_of_withReturns_eq_cons heq (by decide)
    rfl
  · next heq =>
    obtain ⟨rest, rfl, rfl⟩ := exists_of_withReturns_eq_cons heq (by decide)
    rw [any_head?_withReturns (by decide) (by decide), splitQuestion]
    split <;> rfl
  · next hquestion hdot =>
    rw [splitQuestion]
    · rintro rest rfl
      exact hquestion _ (withReturns_cons (by decide) rest)
    · rintro rest rfl
      exact hdot _ (withReturns_cons (by decide) rest)

/-- No symbol has a line break in it, and none is longer for what comes after a line break. -/
theorem splitSymbol_withReturns {c : Char} (hc : c ≠ '\n') (cs : List Char) :
    splitSymbol c (withReturns cs) = returned (splitSymbol c cs) := by
  have hlonger : ∀ {cs : List Char} {short : Symbol} {choices : List (Char × Symbol)},
      choices.lookup '\r' = none ∧ choices.lookup '\n' = none →
      (.ok (longer (withReturns cs) short choices) : Except Located _) =
        returned (.ok (longer cs short choices)) := by
    intro cs short choices hchoices
    rw [longer_withReturns cs short hchoices]
    rfl
  unfold splitSymbol
  split
  case h_1 | h_2 | h_3 | h_4 | h_5 | h_6 | h_7 | h_8 | h_9 | h_10 => rfl
  case h_11 =>
    rw [splitQuestion_withReturns]
    rfl
  case h_12 | h_13 | h_14 | h_15 | h_16 | h_17 | h_18 => exact hlonger (by decide)
  case h_19 =>
    split
    · next heq =>
      obtain ⟨rest, rfl, rfl⟩ := exists_of_withReturns_eq_cons heq (by decide)
      exact hlonger (by decide)
    · next hequal =>
      split
      · next rest => exact absurd (withReturns_cons (by decide) rest) (hequal _)
      · rfl
  case h_20 =>
    split
    · next heq =>
      obtain ⟨rest, rfl, rfl⟩ := exists_of_withReturns_eq_cons heq (by decide)
      exact hlonger (by decide)
    · next heq =>
      obtain ⟨rest, rfl, rfl⟩ := exists_of_withReturns_eq_cons heq (by decide)
      rfl
    · next hequal hgreater =>
      split
      · next rest => exact absurd (withReturns_cons (by decide) rest) (hequal _)
      · next rest => exact absurd (withReturns_cons (by decide) rest) (hgreater _)
      · rfl
  case h_21 | h_22 =>
    split
    · next heq =>
      obtain ⟨rest, rfl, rfl⟩ := exists_of_withReturns_eq_cons heq (by decide)
      rfl
    · next hsame =>
      split
      · next rest => exact absurd (withReturns_cons (by decide) rest) (hsame _)
      · rw [returned, withReturns_cons hc]
  case h_23 => rw [returned, withReturns_cons hc]

/-! ### Strings -/

/-- A literal goes on over the end of a line only after a backslash. -/
theorem Inside.exists_continued {quote : Char} {inside text : List Char}
    (h : Inside quote inside text) (hline : '\n' ∈ inside) :
    ∃ before after, inside = before ++ '\\' :: '\n' :: after := by
  -- what comes later in the literal comes later in what has more in front
  have hlater : ∀ {cs : List Char} (more : List Char),
      (∃ before after, cs = before ++ '\\' :: '\n' :: after) →
      ∃ before after, more ++ cs = before ++ '\\' :: '\n' :: after := by
    rintro _ more ⟨before, after, rfl⟩
    exact ⟨more ++ before, after, by simp⟩
  have hdigit : ∀ {digits : List Char}, (∀ c ∈ digits, isHexDigit c = true) → '\n' ∉ digits :=
    fun hdigits hmem => absurd (hdigits _ hmem) (by decide)
  induction h with
  | nothing => cases hline
  | @plain c _ _ hc _ ih =>
    rcases List.mem_cons.1 hline with heq | hline
    · exact absurd heq.symm hc.2.1
    · exact hlater [c] (ih hline)
  | @escaped c _ _ hc _ ih =>
    rcases List.mem_cons.1 hline with heq | hline
    · cases heq
    rcases List.mem_cons.1 hline with heq | hline
    · exact absurd heq.symm hc.2
    · exact hlater ['\\', c] (ih hline)
  | continued => exact ⟨[], _, rfl⟩
  | @code digits cs _ _ _ hdigits _ _ ih =>
    have hline : '\n' ∈ cs := by simpa [hdigit hdigits] using hline
    exact hlater ('\\' :: 'u' :: digits) (ih hline)
  | @braced digits cs _ _ hdigits _ _ ih =>
    have hline : '\n' ∈ cs := by simpa [hdigit hdigits] using hline
    simpa using hlater ('\\' :: 'u' :: '\x7b' :: digits ++ ['\x7d']) (ih hline)

/-- With carriage returns a literal is read exactly if it is on one line. -/
theorem splitString_withReturns {quote : Char} {opened cs text rest' : List Char}
    (hquote : quote = '"' ∨ quote = '\'') :
    splitString quote opened .plain (withReturns cs) = .ok (text, rest') ↔
      ∃ inside rest, cs = inside ++ quote :: rest ∧ rest' = withReturns rest ∧
        Inside quote inside text ∧ '\n' ∉ inside := by
  have hbreak : quote ≠ '\r' ∧ quote ≠ '\n' := by rcases hquote with rfl | rfl <;> decide
  constructor
  · intro h
    obtain ⟨inside, heq, hinside⟩ := goesOn_of_splitString h
    -- a line feed in it comes after a backslash, but here all come after a carriage return
    have hline : '\n' ∉ inside := by
      intro hmem
      obtain ⟨before, after, rfl⟩ := hinside.exists_continued hmem
      have hslash : withReturns cs = (before ++ ['\\']) ++ '\n' :: (after ++ quote :: rest') := by
        simp [heq]
      obtain ⟨init, hinit⟩ := exists_of_withReturns_eq_append_newline hslash
      simp at hinit
    obtain ⟨rest, rfl, rfl⟩ := exists_of_withReturns_eq_append heq hline hbreak
    exact ⟨inside, rest, rfl, rfl, hinside, hline⟩
  · rintro ⟨inside, rest, rfl, rfl, hinside, hline⟩
    rw [withReturns_append, withReturns_of_not_mem hline, withReturns_cons hbreak.2]
    exact splitString_inside hquote hinside opened _

/-! ### One token -/

/-- The token is a string literal that goes on over the end of a line. -/
def Token.SpansLines (t : Token) : Prop :=
  ∃ quote inside text rest, (quote = '"' ∨ quote = '\'') ∧ Inside quote inside text ∧
    t.kind = .string (String.ofList text) ∧ t.place = quote :: inside ++ quote :: rest ∧
    '\n' ∈ inside

theorem returned_eq_ok {α : Type} {read : Except Located (α × List Char)} {a : α}
    {rest' : List Char} :
    returned read = .ok (a, rest') ↔ ∃ rest, read = .ok (a, rest) ∧ rest' = withReturns rest := by
  rcases read with ⟨fault, place⟩ | ⟨b, rest⟩
  · simp [returned]
  · simp only [returned, Except.ok.injEq, Prod.mk.injEq]
    constructor
    · rintro ⟨rfl, rfl⟩
      exact ⟨rest, ⟨rfl, rfl⟩, rfl⟩
    · rintro ⟨_, ⟨rfl, rfl⟩, rfl⟩
      exact ⟨rfl, rfl⟩

theorem splitLexeme_quote {quote : Char} (hquote : quote = '"' ∨ quote = '\'') (cs : List Char) :
    splitLexeme quote cs =
      (splitString quote (quote :: cs) .plain cs).map fun (text, rest) =>
        (.string (String.ofList text), rest) := by
  have hname : isNameStart quote = false := by rcases hquote with rfl | rfl <;> decide
  have hnumber : startsNumber quote cs = false := by rcases hquote with rfl | rfl <;> rfl
  rw [splitLexeme, hname, hnumber, if_neg Bool.false_ne_true, if_neg Bool.false_ne_true,
    if_pos hquote]

/-- What is no string literal is read as before. -/
theorem splitLexeme_returned {c : Char} (hc : c ≠ '\n') (hquote : ¬(c = '"' ∨ c = '\''))
    (cs : List Char) : splitLexeme c (withReturns cs) = returned (splitLexeme c cs) := by
  obtain ⟨htake, hdrop⟩ :=
    takeWhile_withReturns (P := isNameContinue) (by decide) (by decide) cs
  have hstart : startsNumber c (withReturns cs) = startsNumber c cs := by
    rw [startsNumber, startsNumber, any_head?_withReturns (by decide) (by decide)]
  have hnumber := splitNumberToken_withReturns (c :: cs)
  rw [withReturns_cons hc] at hnumber
  unfold splitLexeme
  rw [htake, hdrop, hstart, hnumber, splitSymbol_withReturns hc, if_neg hquote, if_neg hquote]
  split
  · rfl
  · split
    · rfl
    · rcases splitSymbol c cs with e | result <;> rfl

/-- With carriage returns a token is taken exactly if it was before, other than a string literal on
several lines, and is the same. -/
theorem splitLexeme_withReturns {c : Char} {cs rest' : List Char} {kind : TokenKind}
    (hc : c ≠ '\n') (broken : Bool) :
    splitLexeme c (withReturns cs) = .ok (kind, rest') ↔
      ∃ rest, splitLexeme c cs = .ok (kind, rest) ∧ rest' = withReturns rest ∧
        ¬Token.SpansLines ⟨kind, c :: cs, broken⟩ := by
  by_cases hquote : c = '"' ∨ c = '\''
  · rw [splitLexeme_quote hquote, splitLexeme_quote hquote]
    constructor
    · intro h
      rcases hread : splitString c (c :: withReturns cs) .plain (withReturns cs) with
        e | ⟨text, rest⟩
      · rw [hread] at h
        cases h
      rw [hread] at h
      cases h
      obtain ⟨inside, rest, rfl, rfl, hinside, hline⟩ := (splitString_withReturns hquote).1 hread
      refine ⟨rest, by rw [splitString_inside hquote hinside]; rfl, rfl, ?_⟩
      -- the literal ends at one place only
      rintro ⟨quote, other, text', rest', -, hother, -, hplace, hmem⟩
      obtain ⟨rfl, htail⟩ := List.cons.inj hplace
      have hsame := (splitString_inside hquote hinside [] rest).symm.trans
        ((congrArg _ htail).trans (splitString_inside hquote hother [] rest'))
      cases hsame
      exact hline (List.append_cancel_right htail ▸ hmem)
    · rintro ⟨rest, h, rfl, hline⟩
      rcases hread : splitString c (c :: cs) .plain cs with e | ⟨text, rest⟩
      · rw [hread] at h
        cases h
      rw [hread] at h
      cases h
      obtain ⟨inside, rfl, hinside⟩ := goesOn_of_splitString hread
      have hmem : '\n' ∉ inside := fun hmem =>
        hline ⟨c, inside, text, _, hquote, hinside, rfl, rfl, hmem⟩
      rw [(splitString_withReturns hquote).2 ⟨inside, _, rfl, rfl, hinside, hmem⟩]
      rfl
  · rw [splitLexeme_returned hc hquote, returned_eq_ok]
    refine exists_congr fun rest => and_congr_right fun h => (and_iff_left ?_).symm
    rintro ⟨quote, inside, text, rest', hother, -, -, hplace, -⟩
    cases hplace
    exact hquote hother

/-! ### All tokens -/

/-- The same token, in the text with carriage returns. -/
def Token.withReturns (t : Token) : Token := { t with place := Syntax.withReturns t.place }

theorem ne_newline_of_skipTrivia {broken : Bool} {c : Char} {cs rest : List Char}
    (h : skipTrivia .plain false cs = .ok (broken, c :: rest)) : c ≠ '\n' := by
  obtain ⟨skipped, -, hskipped⟩ := skips_of_skipTrivia h
  rintro rfl
  exact absurd (Skipped.head_not_blank hskipped '\n' rfl) (by decide)

theorem skipTrivia_withReturns_eq_ok {cs rest' : List Char} {broken : Bool} :
    skipTrivia .plain false (withReturns cs) = .ok (broken, rest') ↔
      ∃ rest, skipTrivia .plain false cs = .ok (broken, rest) ∧ rest' = withReturns rest := by
  rw [← returned_eq_ok, ← skipTrivia_withReturns]
  rfl

/-- With carriage returns a text has tokens exactly if it had some before and no string literal
among them goes on over the end of a line; they are the same. -/
theorem spelled_withReturns {cs : List Char} {tokens' : List Token} :
    Spelled (withReturns cs) tokens' ↔
      ∃ tokens, Spelled cs tokens ∧ (∀ t ∈ tokens, ¬t.SpansLines) ∧
        tokens' = tokens.map Token.withReturns := by
  constructor
  · intro h
    generalize heq : withReturns cs = ds at h
    induction h generalizing cs with
    | finish hskip =>
      subst heq
      obtain ⟨rest, hskipped, hrest⟩ := skipTrivia_withReturns_eq_ok.1 hskip
      cases rest with
      | nil =>
        refine ⟨_, .finish hskipped, List.forall_mem_singleton.2 ?_, rfl⟩
        rintro ⟨_, _, _, _, -, -, hkind, -⟩
        cases hkind
      | cons c rest =>
        rw [withReturns_cons (ne_newline_of_skipTrivia hskipped)] at hrest
        cases hrest
    | token hskip hlexeme _ ih =>
      subst heq
      -- the token begins with a character other than a line feed, which is kept
      obtain ⟨rest, hskipped, hrest⟩ := skipTrivia_withReturns_eq_ok.1 hskip
      cases rest with
      | nil => cases hrest
      | cons c rest =>
        have hc := ne_newline_of_skipTrivia hskipped
        rw [withReturns_cons hc] at hrest
        cases hrest
        obtain ⟨rest', htaken, hmore, hline⟩ := (splitLexeme_withReturns hc _).1 hlexeme
        obtain ⟨tokens, hspelled, hlines, rfl⟩ := ih hmore.symm
        refine ⟨_, .token hskipped htaken hspelled, List.forall_mem_cons.2 ⟨hline, hlines⟩, ?_⟩
        rw [List.map_cons, Token.withReturns, withReturns_cons hc]
  · rintro ⟨tokens, h, hlines, rfl⟩
    induction h with
    | finish hskip =>
      exact .finish (skipTrivia_withReturns_eq_ok.2 ⟨[], hskip, rfl⟩)
    | @token cs rest rest' broken c kind tokens hskip hlexeme _ ih =>
      have hc := ne_newline_of_skipTrivia hskip
      obtain ⟨hline, hlines⟩ := List.forall_mem_cons.1 hlines
      rw [List.map_cons, Token.withReturns, withReturns_cons hc]
      refine .token (skipTrivia_withReturns_eq_ok.2 ⟨_, hskip, (withReturns_cons hc rest).symm⟩)
        ((splitLexeme_withReturns hc _).2 ⟨rest', hlexeme, rfl, hline⟩) (ih hlines)

/-- With a carriage return in front of each line feed a text has tokens exactly if it had some
before and no string literal among them goes on over the end of a line.  They are of the same kinds,
with line breaks before the same ones. -/
theorem tokens_with_returns (source : String) (tokens' : List Token) :
    tokenize (String.ofList (withReturns source.toList)) = .ok tokens' ↔
      ∃ tokens, tokenize source = .ok tokens ∧ (∀ t ∈ tokens, ¬t.SpansLines) ∧
        tokens' = tokens.map Token.withReturns := by
  simp only [tokenize_eq_ok, String.toList_ofList]
  exact spelled_withReturns

/-- A string literal that goes on over the end of a line is lost with a carriage return there. -/
theorem continued_literal_is_lost :
    '\r' ∉ "'a\\\nb'".toList ∧ (tokenize "'a\\\nb'").isOk = true ∧
      (tokenize (String.ofList (withReturns "'a\\\nb'".toList))).isOk = false := by
  decide +kernel

end LiveMarkup.Syntax
