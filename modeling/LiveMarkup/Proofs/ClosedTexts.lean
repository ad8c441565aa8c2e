import LiveMarkup.Proofs.Spelling

/-!
# Texts before a closing parenthesis

The lexer never looks further than one character past a lexeme, and no lexeme goes on with a closing
parenthesis.  So the tokens of a text are the same before a closing parenthesis as at the end of
everything, if there are no comments: a comment up to the end of the line would go on.

## Main definitions

* `CommentFree` — a text without comments.
* `Alongside` — the tokens of a text, and the same tokens with others after them.

## Main results

* `splitLexeme_append_close` — a lexeme is the same before a closing parenthesis.
* `spelled_append_close` — so are the tokens of a text.
-/

namespace LiveMarkup.Syntax

open Text Number

/-! ### Between tokens -/

/-- Whether a comment comes next. -/
def opensComment : List Char → Bool
  | '/' :: '/' :: _ | '/' :: '*' :: _ => true
  | _ => false

/-- Whether there is no comment between the tokens of the rest of a text, nor after them. -/
def commentFreeFrom : Nat → List Char → Bool
  | 0, _ => true
  | fuel + 1, cs =>
    match cs.dropWhile isBlank with
    | [] => true
    | c :: rest =>
      !opensComment (c :: rest) &&
        match splitLexeme c rest with
        | .error _ => true
        | .ok (_, rest) => commentFreeFrom fuel rest

/-- There is no comment in the text; what looks like one in a string is none. -/
def CommentFree (source : String) : Prop :=
  commentFreeFrom (source.toList.length + 1) source.toList = true

instance (source : String) : Decidable (CommentFree source) :=
  inferInstanceAs (Decidable (_ = true))

/-- Whether a line ends with the character. -/
def endsLine (c : Char) : Bool := c == '\n' || c == '\r'

theorem skipTrivia_cons {c : Char} {cs : List Char} (h : opensComment (c :: cs) = false)
    (broken : Bool) : skipTrivia .plain broken (c :: cs) =
      if c = '\n' ∨ c = '\r' then skipTrivia .plain true cs
      else if isBlank c then skipTrivia .plain broken cs else .ok (broken, c :: cs) := by
  have hline : ∀ rest, c = '/' → cs = '/' :: rest → False := by
    rintro rest rfl rfl
    cases h
  have hblock : ∀ rest, c = '/' → cs = '*' :: rest → False := by
    rintro rest rfl rfl
    cases h
  rw [skipTrivia]
  · exact hline
  · exact hblock

/-- Where no comment comes next, only blanks are skipped. -/
theorem skipTrivia_of_blanks {cs : List Char} (h : opensComment (cs.dropWhile isBlank) = false)
    (broken : Bool) :
    skipTrivia .plain broken cs =
      .ok (broken || (cs.takeWhile isBlank).any endsLine, cs.dropWhile isBlank) := by
  induction cs generalizing broken with
  | nil => simp [skipTrivia]
  | cons c cs ih =>
    by_cases hc : isBlank c = true
    · have hcomment : opensComment (c :: cs) = false := by
        unfold opensComment
        split
        · next heq =>
          cases heq
          exact absurd hc (by decide)
        · next heq =>
          cases heq
          exact absurd hc (by decide)
        · rfl
      rw [List.dropWhile_cons_of_pos hc] at h ⊢
      rw [List.takeWhile_cons_of_pos hc, List.any_cons, skipTrivia_cons hcomment, ← Bool.or_assoc]
      split
      · next hend =>
        have hends : endsLine c = true := by simpa [endsLine] using hend
        rw [ih h, hends, Bool.or_true]
      · next hend =>
        have hends : endsLine c = false := by simpa [endsLine] using hend
        rw [ih h, hends, Bool.or_false]
    · rw [List.dropWhile_cons_of_neg hc] at h ⊢
      have hend : ¬(c = '\n' ∨ c = '\r') := by
        rintro (rfl | rfl) <;> exact hc (by decide)
      rw [skipTrivia_cons h, if_neg hend, if_neg hc, List.takeWhile_cons_of_neg hc, List.any_nil,
        Bool.or_false]

/-- Characters are taken up to a closing parenthesis at most. -/
theorem takeWhile_append_close {P : Char → Bool} (hP : P ')' = false) (cs more : List Char) :
    (cs ++ ')' :: more).takeWhile P = cs.takeWhile P ∧
      (cs ++ ')' :: more).dropWhile P = cs.dropWhile P ++ ')' :: more := by
  induction cs with
  | nil => simp [hP]
  | cons c cs ih =>
    by_cases hc : P c = true
    · simp [hc, ih]
    · simp [hc]

theorem any_head?_append {P : Char → Bool} (hP : P ')' = false) (cs more : List Char) :
    (cs ++ ')' :: more).head?.any P = cs.head?.any P := by
  cases cs with
  | nil => simp [hP]
  | cons c cs => rfl

theorem opensComment_append (cs more : List Char) :
    opensComment (cs ++ ')' :: more) = opensComment cs := by
  -- the first two characters decide, and a parenthesis is neither a slash nor a star
  unfold opensComment
  rcases cs with _ | ⟨c, _ | ⟨d, cs⟩⟩
  · rfl
  · rw [List.singleton_append]
    split <;> simp_all
  · rw [List.cons_append, List.cons_append]
    split <;> simp_all

/-! ### Numbers -/

/-- No number goes on with a closing parenthesis. -/
theorem splitNumber_close (point mark : Bool) (more : List Char) :
    splitNumber point mark (')' :: more) = ([], ')' :: more) := by
  rw [splitNumber.eq_def]
  simp [show isDigit ')' = false from rfl]

theorem splitNumber_append_close {point mark : Bool} {cs text rest : List Char}
    (h : splitNumber point mark cs = (text, rest)) (more : List Char) :
    splitNumber point mark (cs ++ ')' :: more) = (text, rest ++ ')' :: more) := by
  fun_induction splitNumber point mark cs generalizing text with
  | case1 =>
    cases h
    exact splitNumber_close _ _ more
  | case2 point mark c cs hdigit text' rest' hread ih =>
    cases h
    rw [List.cons_append, splitNumber.eq_def]
    dsimp only
    rw [if_pos hdigit, ih hread]
  | case3 point mark cs hdigit ih =>
    rw [List.cons_append, splitNumber.eq_def]
    dsimp only
    rw [if_neg hdigit, if_pos rfl, ih h]
  | case4 point mark c cs hdigit hunder hpoint text' rest' hread ih =>
    cases h
    rw [List.cons_append, splitNumber.eq_def]
    dsimp only
    rw [if_neg hdigit, if_neg hunder, if_pos hpoint, ih hread]
  | case5 point mark c hdigit hunder hpoint hmark =>
    cases h
    have hsign : ∀ d ∈ (')' :: more).head?, ¬(d = '+' ∨ d = '-') := by
      rintro d ⟨⟩
      decide
    rw [List.singleton_append, splitNumber_mark hdigit hmark hsign, splitNumber_close]
    rfl
  | case6 point mark c hdigit hunder hpoint hmark d cs hsign text' rest' hread ih =>
    cases h
    rw [List.cons_append, List.cons_append, splitNumber.eq_def]
    dsimp only
    rw [if_neg hdigit, if_neg hunder, if_neg hpoint, if_pos hmark, if_pos hsign, ih hread]
  | case7 point mark c hdigit hunder hpoint hmark d cs hsign text' rest' hread ih =>
    cases h
    have hsign : ∀ e ∈ ((d :: cs) ++ ')' :: more).head?, ¬(e = '+' ∨ e = '-') := by
      rintro e ⟨⟩
      exact hsign
    rw [List.cons_append, splitNumber_mark hdigit hmark hsign, ih hread]
  | case8 point mark c cs hdigit hunder hpoint hmark =>
    cases h
    rw [List.cons_append, splitNumber.eq_def]
    dsimp only
    rw [if_neg hdigit, if_neg hunder, if_neg hpoint, if_neg hmark]

theorem splitHexMark_append_close (cs more : List Char) :
    splitHexMark (cs ++ ')' :: more) = (splitHexMark cs).map (· ++ ')' :: more) := by
  rcases cs with _ | ⟨c, _ | ⟨d, cs⟩⟩
  · rfl
  · rw [List.singleton_append]
    unfold splitHexMark
    split <;> simp_all
  · rw [List.cons_append, List.cons_append]
    unfold splitHexMark
    split <;> simp_all

theorem splitNumberToken_append_close {cs rest : List Char} {kind : TokenKind}
    (h : splitNumberToken cs = .ok (kind, rest)) (more : List Char) :
    splitNumberToken (cs ++ ')' :: more) = .ok (kind, rest ++ ')' :: more) := by
  unfold splitNumberToken at h ⊢
  rw [splitHexMark_append_close]
  cases hmark : splitHexMark cs with
  | some digits =>
    rw [hmark] at h
    dsimp only [Option.map_some] at h ⊢
    obtain ⟨htake, hdrop⟩ := takeWhile_append_close (P := isHexDigit) rfl digits more
    rw [htake, hdrop]
    split at h
    · next n hword =>
      cases h
      rfl
    · cases h
  | none =>
    rw [hmark] at h
    dsimp only [Option.map_none] at h ⊢
    rw [splitNumber_append_close (rfl : splitNumber false false cs = (_, _))]
    dsimp only
    rw [any_head?_append rfl]
    split at h
    · cases h
    · next hname =>
      rw [if_neg hname]
      split at h
      · next x hx =>
        cases h
        rfl
      · cases h

/-! ### Strings -/

/-- What is being read inside a string, with more text after it. -/
def StringPart.extend (more : List Char) : StringPart → StringPart
  | .plain => .plain
  | .escaped start => .escaped (start ++ more)
  | .code start digits left => .code (start ++ more) digits left
  | .braced start digits => .braced (start ++ more) digits

theorem consRead_append {d : Char} {read longer : Except Located (List Char × List Char)}
    {text rest more : List Char} (h : consRead d read = .ok (text, rest))
    (hread : ∀ {text}, read = .ok (text, rest) → longer = .ok (text, rest ++ more)) :
    consRead d longer = .ok (text, rest ++ more) := by
  unfold consRead at h ⊢
  cases read with
  | error e => cases h
  | ok result =>
    cases h
    rw [hread rfl]
    rfl

/-- A string ends with its quote, whatever comes after it. -/
theorem splitString_append {quote : Char} {opened cs text rest : List Char} {part : StringPart}
    (h : splitString quote opened part cs = .ok (text, rest)) (more : List Char) :
    splitString quote (opened ++ more) (part.extend more) (cs ++ more) =
      .ok (text, rest ++ more) := by
  fun_induction splitString quote opened part cs generalizing text with
  | case1 | case2 | case3 | case4 | case6 | case14 | case16 | case18 | case20 => cases h
  | case5 cs =>
    cases h
    rw [List.cons_append, StringPart.extend, splitString, if_pos rfl]
  | case7 cs hquote hline ih =>
    rw [List.cons_append, StringPart.extend, splitString, if_neg hquote, if_neg hline, if_pos rfl]
    exact ih h
  | case8 c cs hquote hline hslash ih =>
    rw [List.cons_append, StringPart.extend, splitString, if_neg hquote, if_neg hline,
      if_neg hslash]
    exact consRead_append h ih
  | case9 start cs ih =>
    rw [List.cons_append, StringPart.extend, splitString, if_pos rfl]
    exact ih h
  | case10 start cs hcode ih =>
    rw [List.cons_append, StringPart.extend, splitString, if_neg hcode, if_pos rfl]
    exact ih h
  | case11 start c cs hcode hline ih =>
    rw [List.cons_append, StringPart.extend, splitString, if_neg hcode, if_neg hline]
    exact consRead_append h ih
  | case12 start digits left c cs hopen ih =>
    rw [List.cons_append, StringPart.extend, splitString, if_pos hopen]
    exact ih h
  | case13 start digits left c cs hopen hdigit hleft d hd ih =>
    rw [List.cons_append, StringPart.extend, splitString, if_neg hopen, if_pos hdigit, if_pos hleft]
    rw [hd]
    exact consRead_append h ih
  | case15 start digits left c cs hopen hdigit hleft ih =>
    rw [List.cons_append, StringPart.extend, splitString, if_neg hopen, if_pos hdigit, if_neg hleft]
    exact ih h
  | case17 start digits cs d hd ih =>
    rw [List.cons_append, StringPart.extend, splitString, if_pos rfl, hd]
    exact consRead_append h ih
  | case19 start digits c cs hclose hdigit ih =>
    rw [List.cons_append, StringPart.extend, splitString, if_neg hclose, if_pos hdigit]
    exact ih h

/-! ### Symbols -/

theorem longer_append_close {cs rest : List Char} {short symbol : Symbol}
    {choices : List (Char × Symbol)} (h : longer cs short choices = (symbol, rest))
    (hchoices : choices.lookup ')' = none) (more : List Char) :
    longer (cs ++ ')' :: more) short choices = (symbol, rest ++ ')' :: more) := by
  unfold longer at h ⊢
  cases cs with
  | nil =>
    cases h
    rw [List.nil_append]
    dsimp only
    rw [hchoices]
  | cons d cs =>
    rw [List.cons_append]
    dsimp only at h ⊢
    split at h
    · cases h
      rfl
    · cases h
      rfl

theorem splitQuestion_append_close {cs rest : List Char} {symbol : Symbol}
    (h : splitQuestion cs = (symbol, rest)) (more : List Char) :
    splitQuestion (cs ++ ')' :: more) = (symbol, rest ++ ')' :: more) := by
  unfold splitQuestion at h
  split at h
  · cases h
    rfl
  · next cs =>
    rw [List.cons_append, splitQuestion, any_head?_append rfl]
    split at h
    · next hdigit =>
      cases h
      rw [if_pos hdigit]
      rfl
    · next hdigit =>
      cases h
      rw [if_neg hdigit]
  · next hquestion hdot =>
    cases h
    cases cs with
    | nil => rfl
    | cons c cs =>
      rw [List.cons_append, splitQuestion]
      · rintro _ ⟨⟩
        exact hquestion cs rfl
      · rintro _ ⟨⟩
        exact hdot cs rfl

/-- No symbol goes on with a closing parenthesis. -/
theorem splitSymbol_append_close {c : Char} {cs rest : List Char} {symbol : Symbol}
    (h : splitSymbol c cs = .ok (symbol, rest)) (more : List Char) :
    splitSymbol c (cs ++ ')' :: more) = .ok (symbol, rest ++ ')' :: more) := by
  have hlonger : ∀ {cs : List Char} {short : Symbol} {choices : List (Char × Symbol)},
      (.ok (longer cs short choices) : Except Located _) = .ok (symbol, rest) →
      choices.lookup ')' = none →
      (.ok (longer (cs ++ ')' :: more) short choices) : Except Located _) =
        .ok (symbol, rest ++ ')' :: more) := fun h hchoices =>
    congrArg Except.ok (longer_append_close (Except.ok.inj h) hchoices more)
  unfold splitSymbol at h ⊢
  split at h
  case h_1 | h_2 | h_3 | h_4 | h_5 | h_6 | h_7 | h_8 | h_9 | h_10 =>
    cases h
    rfl
  case h_11 => exact congrArg Except.ok (splitQuestion_append_close (Except.ok.inj h) more)
  case h_12 | h_13 | h_14 | h_15 | h_16 | h_17 | h_18 => exact hlonger h rfl
  case h_19 =>
    split at h
    · exact hlonger h rfl
    · next hequal =>
      cases h
      cases cs with
      | nil => rfl
      | cons d cs =>
        dsimp only [List.cons_append]
        split
        · next heq =>
          cases heq
          exact (hequal _ rfl).elim
        · rfl
  case h_20 =>
    split at h
    · exact hlonger h rfl
    · cases h
    · next hequal hgreater =>
      cases h
      cases cs with
      | nil => rfl
      | cons d cs =>
        dsimp only [List.cons_append]
        split
        · next heq =>
          cases heq
          exact (hequal _ rfl).elim
        · next heq =>
          cases heq
          exact (hgreater _ rfl).elim
        · rfl
  case h_21 | h_22 =>
    split at h
    · cases h
      rfl
    · cases h
  case h_23 => cases h

/-! ### All lexemes -/

/-- A lexeme is the same before a closing parenthesis. -/
theorem splitLexeme_append_close {c : Char} {cs rest : List Char} {kind : TokenKind}
    (h : splitLexeme c cs = .ok (kind, rest)) (more : List Char) :
    splitLexeme c (cs ++ ')' :: more) = .ok (kind, rest ++ ')' :: more) := by
  have hstart : startsNumber c (cs ++ ')' :: more) = startsNumber c cs := by
    unfold startsNumber
    rw [any_head?_append rfl]
  unfold splitLexeme at h ⊢
  rw [hstart]
  split at h
  · next hname =>
    cases h
    obtain ⟨htake, hdrop⟩ := takeWhile_append_close (P := isNameContinue) (by decide) cs more
    rw [if_pos hname, htake, hdrop]
  · next hname =>
    rw [if_neg hname]
    split at h
    · next hnumber =>
      rw [if_pos hnumber]
      exact splitNumberToken_append_close h more
    · next hnumber =>
      rw [if_neg hnumber]
      split at h
      · next hquote =>
        rw [if_pos hquote]
        cases hread : splitString c (c :: cs) .plain cs with
        | error e =>
          rw [hread] at h
          cases h
        | ok result =>
          rw [hread] at h
          cases h
          have happend := splitString_append hread (')' :: more)
          rw [List.cons_append, StringPart.extend] at happend
          rw [happend]
          rfl
      · next hquote =>
        rw [if_neg hquote]
        cases hsymbol : splitSymbol c cs with
        | error e =>
          rw [hsymbol] at h
          cases h
        | ok result =>
          rw [hsymbol] at h
          cases h
          rw [splitSymbol_append_close hsymbol]
          rfl

/-! ### All tokens -/

/-- The second tokens are of the same kinds as the first, on new lines or not as they are, and go on
with `rest` where the first ones end. -/
inductive Alongside (rest : List Token) : List Token → List Token → Prop
  | finish (place : List Char) (broken : Bool) : Alongside rest [⟨.finish, place, broken⟩] rest
  | token {kind : TokenKind} (place place' : List Char) (broken : Bool) {ts us : List Token}
    (hkind : kind.isFinish = false) (h : Alongside rest ts us) :
    Alongside rest (⟨kind, place, broken⟩ :: ts) (⟨kind, place', broken⟩ :: us)

theorem opensComment_of_commentFree {fuel : Nat} {cs : List Char}
    (h : commentFreeFrom (fuel + 1) cs = true) : opensComment (cs.dropWhile isBlank) = false := by
  rw [commentFreeFrom] at h
  split at h
  · next hdrop =>
    rw [hdrop]
    rfl
  · next hdrop =>
    rw [hdrop]
    exact Bool.not_eq_eq_eq_not.1 (Bool.and_eq_true_iff.1 h).1

theorem commentFreeFrom_rest {fuel : Nat} {c : Char} {cs rest rest' : List Char}
    {kind : TokenKind} (h : commentFreeFrom (fuel + 1) cs = true)
    (hdrop : cs.dropWhile isBlank = c :: rest) (hlexeme : splitLexeme c rest = .ok (kind, rest')) :
    commentFreeFrom fuel rest' = true := by
  rw [commentFreeFrom, hdrop] at h
  dsimp only at h
  rw [hlexeme] at h
  exact (Bool.and_eq_true_iff.1 h).2

/-- Where no comment comes next, the same blanks are skipped before a closing parenthesis. -/
theorem skipTrivia_append_close {cs next : List Char} {broken : Bool}
    (hfree : opensComment (cs.dropWhile isBlank) = false)
    (h : skipTrivia .plain false cs = .ok (broken, next)) (more : List Char) :
    cs.dropWhile isBlank = next ∧
      skipTrivia .plain false (cs ++ ')' :: more) = .ok (broken, next ++ ')' :: more) := by
  obtain ⟨htake, hdrop⟩ := takeWhile_append_close (P := isBlank) rfl cs more
  rw [skipTrivia_of_blanks hfree] at h
  cases h
  refine ⟨rfl, ?_⟩
  rw [skipTrivia_of_blanks (by rw [hdrop, opensComment_append, hfree]), htake, hdrop]

/-- The tokens of a text without comments are the same before a closing parenthesis. -/
theorem spelled_append_close {cs more : List Char} {ts after : List Token} (h : Spelled cs ts)
    (hmore : Spelled more after) {fuel : Nat} (hfuel : cs.length < fuel)
    (hfree : commentFreeFrom fuel cs = true) :
    ∃ place broken us, Alongside (⟨.symbol .rightParen, place, broken⟩ :: after) ts us ∧
      Spelled (cs ++ ')' :: more) us := by
  induction h generalizing fuel with
  | @finish cs broken hskip =>
    obtain ⟨fuel, rfl⟩ := Nat.exists_eq_succ_of_ne_zero (Nat.ne_zero_of_lt hfuel)
    obtain ⟨-, hclose⟩ := skipTrivia_append_close (opensComment_of_commentFree hfree) hskip more
    exact ⟨')' :: more, broken, _, .finish [] broken, .token hclose rfl hmore⟩
  | @token cs next next' broken c kind ts hskip hlexeme h ih =>
    obtain ⟨fuel, rfl⟩ := Nat.exists_eq_succ_of_ne_zero (Nat.ne_zero_of_lt hfuel)
    obtain ⟨hdrop, hclose⟩ :=
      skipTrivia_append_close (opensComment_of_commentFree hfree) hskip more
    have hshorter : next'.length < fuel := by
      have hle := (isSuffix_of_skipTrivia hskip).length_le
      have hlt := length_lt_of_splitLexeme hlexeme
      omega
    obtain ⟨place, broken', us, halong, hspelled⟩ :=
      ih hshorter (commentFreeFrom_rest hfree hdrop hlexeme)
    have hkind : kind.isFinish = false := by
      obtain ⟨lexeme, -, hlexeme⟩ := lexeme_of_splitLexeme hlexeme
      cases hlexeme <;> rfl
    exact ⟨place, broken', _, .token (c :: next) (c :: next ++ ')' :: more) broken hkind halong,
      .token hclose (splitLexeme_append_close hlexeme more) hspelled⟩

end LiveMarkup.Syntax
