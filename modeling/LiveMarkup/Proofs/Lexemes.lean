import LiveMarkup.Proofs.Words

/-!
# Lexemes

The lexer takes a text apart into what is skipped and what makes up the tokens, in turn.  What is
skipped ends with white space or with the mark that closes a comment, and every lexeme ends in a way
that tells its kind.  Nothing is lost: the place of a token is the text from its lexeme on.

## Main definitions

* `Lexeme` — the characters of one token, and what may come after them.
* `Spelled` — a text and its tokens.

## Main results

* `skipped_of_skipTrivia` — what stands between two tokens.
* `lexeme_of_splitLexeme` — what is taken off for one token.
* `tokenize_eq_ok` — the lexer gives the tokens that a text spells, and no others.
-/

namespace LiveMarkup.Syntax

open Text Number

/-! ### Between tokens -/

/-- Characters that end with white space or a slash. -/
def EndsSkipped (skipped : List Char) : Prop :=
  ∃ init c, skipped = init ++ [c] ∧ (isBlank c = true ∨ c = '/')

theorem EndsSkipped.cons {skipped : List Char} (h : EndsSkipped skipped) (c : Char) :
    EndsSkipped (c :: skipped) := by
  obtain ⟨init, d, rfl, hd⟩ := h
  exact ⟨c :: init, d, rfl, hd⟩

/-- What is skipped before more text ends with white space or a comment.  If it is nothing, there is
no line break in it. -/
theorem skipped_of_skipTrivia {trivia : Trivia} {broken broken' : Bool} {cs rest : List Char}
    (h : skipTrivia trivia broken cs = .ok (broken', rest)) (hrest : rest ≠ []) :
    ∃ skipped, cs = skipped ++ rest ∧
      ((skipped = [] ∧ trivia = .plain ∧ broken' = broken) ∨ EndsSkipped skipped) := by
  -- one more blank in front: it is the last one if nothing comes after it
  have hblank : ∀ {skipped : List Char} {c : Char} {F : Prop}, isBlank c = true →
      (skipped = [] ∧ F) ∨ EndsSkipped skipped → EndsSkipped (c :: skipped) := by
    rintro skipped c F hc (⟨rfl, -⟩ | hends)
    · exact ⟨[], c, rfl, .inl hc⟩
    · exact hends.cons c
  fun_induction skipTrivia trivia broken cs with
  | case1 | case7 =>
    cases h
    exact absurd rfl hrest
  | case2 broken cs ih =>
    obtain ⟨skipped, rfl, hends⟩ := ih h
    rcases hends with ⟨-, hline, -⟩ | hends
    · cases hline
    · exact ⟨'/' :: '/' :: skipped, rfl, .inr ((hends.cons '/').cons '/')⟩
  | case3 broken cs ih =>
    obtain ⟨skipped, rfl, hends⟩ := ih h
    rcases hends with ⟨-, hline, -⟩ | hends
    · cases hline
    · exact ⟨'/' :: '*' :: skipped, rfl, .inr ((hends.cons '*').cons '/')⟩
  | case4 broken c cs _ _ hc ih =>
    obtain ⟨skipped, rfl, hends⟩ := ih h
    have hc : isBlank c = true := by rcases hc with rfl | rfl <;> decide
    exact ⟨c :: skipped, rfl, .inr (hblank hc hends)⟩
  | case5 broken c cs _ _ _ hc ih =>
    obtain ⟨skipped, rfl, hends⟩ := ih h
    exact ⟨c :: skipped, rfl, .inr (hblank hc hends)⟩
  | case6 broken c cs =>
    cases h
    exact ⟨[], rfl, .inl ⟨rfl, rfl, rfl⟩⟩
  | case8 broken cs ih =>
    obtain ⟨skipped, rfl, hends⟩ := ih h
    exact ⟨'\n' :: skipped, rfl, .inr (hblank (by decide) hends)⟩
  | case9 broken c cs _ ih =>
    obtain ⟨skipped, rfl, hends⟩ := ih h
    rcases hends with ⟨-, hline, -⟩ | hends
    · cases hline
    · exact ⟨c :: skipped, rfl, .inr (hends.cons c)⟩
  | case10 => cases h
  | case11 opened broken cs ih =>
    obtain ⟨skipped, rfl, hends⟩ := ih h
    refine ⟨'*' :: '/' :: skipped, rfl, .inr ?_⟩
    rcases hends with ⟨rfl, -⟩ | hends
    · exact ⟨['*'], '/', rfl, .inr rfl⟩
    · exact (hends.cons '/').cons '*'
  | case12 opened broken c cs _ ih =>
    obtain ⟨skipped, rfl, hends⟩ := ih h
    rcases hends with ⟨-, hblock, -⟩ | hends
    · cases hblock
    · exact ⟨c :: skipped, rfl, .inr (hends.cons c)⟩

theorem isSuffix_of_skipTrivia {trivia : Trivia} {broken broken' : Bool} {cs rest : List Char}
    (h : skipTrivia trivia broken cs = .ok (broken', rest)) : rest <:+ cs := by
  by_cases hrest : rest = []
  · exact hrest ▸ List.nil_suffix
  · obtain ⟨skipped, rfl, -⟩ := skipped_of_skipTrivia h hrest
    exact List.suffix_append skipped rest

/-! ### Strings -/

/-- A string literal ends with its quote. -/
theorem closes_of_splitString {quote : Char} {opened cs text rest : List Char} {part : StringPart}
    (h : splitString quote opened part cs = .ok (text, rest)) :
    ∃ inside, cs = inside ++ quote :: rest := by
  have hcons : ∀ {c : Char} {cs : List Char}, (∃ inside, cs = inside ++ quote :: rest) →
      ∃ inside, c :: cs = inside ++ quote :: rest := by
    rintro c _ ⟨inside, rfl⟩
    exact ⟨c :: inside, rfl⟩
  fun_induction splitString quote opened part cs generalizing text with
  | case1 | case2 | case3 | case4 | case6 | case14 | case16 | case18 | case20 => cases h
  | case5 cs =>
    cases h
    exact ⟨[], rfl⟩
  | case7 | case9 | case10 | case12 | case15 | case19 =>
    rename_i ih
    exact hcons (ih h)
  | case8 | case11 | case13 | case17 =>
    rename_i ih
    obtain ⟨text', hread⟩ := words_of_consRead h
    exact hcons (ih hread)

/-! ### One token -/

/-- The characters of a token of the kind, with the rest of the text after them. -/
inductive Lexeme : TokenKind → List Char → List Char → Prop
  | name {c : Char} {cs rest : List Char} (hc : isNameStart c = true)
    (hcs : ∀ d ∈ cs, isNameContinue d = true) (hrest : ∀ d ∈ rest.head?, isNameContinue d = false) :
    Lexeme (.name (String.ofList (c :: cs))) (c :: cs) rest
  | number {x : Float} {lexeme rest : List Char} (hne : lexeme ≠ []) :
    Lexeme (.number x) lexeme rest
  | string {s : String} {quote : Char} {inside rest : List Char}
    (hquote : quote = '"' ∨ quote = '\'') : Lexeme (.string s) (quote :: inside ++ [quote]) rest
  | symbol {s : Symbol} {rest : List Char} : Lexeme (.symbol s) s.text.toList rest

theorem Symbol.text_ne_nil (symbol : Symbol) : symbol.text.toList ≠ [] := by
  cases symbol <;> exact List.cons_ne_nil _ _

theorem Lexeme.ne_nil {kind : TokenKind} {lexeme rest : List Char} (h : Lexeme kind lexeme rest) :
    lexeme ≠ [] := by
  cases h with
  | number hne => exact hne
  | name | string => exact List.cons_ne_nil _ _
  | @symbol s => exact s.text_ne_nil

theorem isSuffix_of_passes {cs rest : List Char} (h : Scan.Passes cs rest) : rest <:+ cs := by
  induction h with
  | refl => exact List.suffix_refl _
  | cons _ _ ih => exact ih.trans (List.suffix_cons _ _)

/-- A number token takes at least one character. -/
theorem isSuffix_of_splitNumberToken {c : Char} {cs rest : List Char} {kind : TokenKind}
    (h : splitNumberToken (c :: cs) = .ok (kind, rest)) (hstart : startsNumber c cs = true) :
    rest <:+ cs := by
  unfold splitNumberToken at h
  split at h
  · next digits hmark =>
    have hdigits : digits <:+ cs := by
      unfold splitHexMark at hmark
      split at hmark
      · next heq =>
        cases heq
        cases hmark
        exact List.suffix_cons _ _
      · next heq =>
        cases heq
        cases hmark
        exact List.suffix_cons _ _
      · cases hmark
    split at h
    · cases h
      exact (List.dropWhile_suffix _).trans hdigits
    · cases h
  · have hsuffix : (splitNumber false false (c :: cs)).2 <:+ cs := by
      simp only [startsNumber, Bool.or_eq_true, Bool.and_eq_true, beq_iff_eq] at hstart
      rw [splitNumber.eq_def]
      dsimp only
      split
      · exact isSuffix_of_passes (passes_splitNumber false false cs)
      · next hdigit =>
        obtain ⟨rfl, -⟩ : c = '.' ∧ _ := hstart.resolve_left hdigit
        exact isSuffix_of_passes (passes_splitNumber true false cs)
    dsimp only at h
    split at h
    · cases h
    · split at h
      · cases h
        exact hsuffix
      · cases h

theorem longer_eq {cs rest : List Char} {short symbol : Symbol} {choices : List (Char × Symbol)}
    (h : longer cs short choices = (symbol, rest)) :
    (symbol = short ∧ rest = cs) ∨ ∃ d, (d, symbol) ∈ choices ∧ cs = d :: rest := by
  unfold longer at h
  split at h
  · cases h
    exact .inl ⟨rfl, rfl⟩
  · split at h
    · next hlookup =>
      cases h
      obtain ⟨before, after, heq, -⟩ := List.lookup_eq_some_iff.1 hlookup
      exact .inr ⟨_, by simp [heq], rfl⟩
    · cases h
      exact .inl ⟨rfl, rfl⟩

/-- The characters of a symbol are those that it is written with. -/
theorem text_of_splitSymbol {c : Char} {cs rest : List Char} {symbol : Symbol}
    (h : splitSymbol c cs = .ok (symbol, rest)) : c :: cs = symbol.text.toList ++ rest := by
  -- a symbol that can be made longer is written with one character more
  have hlonger : ∀ (before : List Char) {cs : List Char} {short : Symbol}
      {choices : List (Char × Symbol)},
      (.ok (longer cs short choices) : Except Located _) = .ok (symbol, rest) →
      short.text.toList = before →
      (∀ p ∈ choices, p.2.text.toList = before ++ [p.1]) →
      before ++ cs = symbol.text.toList ++ rest := by
    intro before cs short choices h hshort hchoices
    rcases longer_eq (Except.ok.inj h) with ⟨rfl, rfl⟩ | ⟨d, hd, rfl⟩
    · rw [hshort]
    · simp [hchoices _ hd]
  unfold splitSymbol at h
  split at h
  case h_1 | h_2 | h_3 | h_4 | h_5 | h_6 | h_7 | h_8 | h_9 | h_10 =>
    cases h
    rfl
  case h_11 =>
    unfold splitQuestion at h
    split at h
    · cases h
      rfl
    · split at h
      · cases h
        rfl
      · cases h
        rfl
    · cases h
      rfl
  case h_12 => exact hlonger ['+'] h rfl (by decide)
  case h_13 => exact hlonger ['-'] h rfl (by decide)
  case h_14 => exact hlonger ['*'] h rfl (by decide)
  case h_15 => exact hlonger ['/'] h rfl (by decide)
  case h_16 => exact hlonger ['%'] h rfl (by decide)
  case h_17 => exact hlonger ['<'] h rfl (by decide)
  case h_18 => exact hlonger ['>'] h rfl (by decide)
  case h_19 =>
    split at h
    · exact hlonger ['!', '='] h rfl (by decide)
    · cases h
      rfl
  case h_20 =>
    split at h
    · exact hlonger ['=', '='] h rfl (by decide)
    · cases h
    · cases h
      rfl
  case h_21 | h_22 =>
    split at h
    · cases h
      rfl
    · cases h
  case h_23 => cases h

/-- What is taken off a text for one token. -/
theorem lexeme_of_splitLexeme {c : Char} {cs rest : List Char} {kind : TokenKind}
    (h : splitLexeme c cs = .ok (kind, rest)) :
    ∃ lexeme, c :: cs = lexeme ++ rest ∧ Lexeme kind lexeme rest := by
  unfold splitLexeme at h
  split at h
  · next hc =>
    cases h
    refine ⟨c :: cs.takeWhile isNameContinue, ?_, .name hc ?_ ?_⟩
    · rw [List.cons_append, List.takeWhile_append_dropWhile]
    · exact List.all_eq_true.1 List.all_takeWhile
    · intro d hd
      simpa [Option.mem_def.1 hd] using List.head?_dropWhile_not isNameContinue cs
  · split at h
    · next hstart =>
      obtain ⟨⟨x, rfl⟩, -⟩ := passes_splitNumberToken h
      obtain ⟨taken, rfl⟩ := isSuffix_of_splitNumberToken h hstart
      exact ⟨c :: taken, rfl, .number (List.cons_ne_nil _ _)⟩
    · split at h
      · next hquote =>
        cases hread : splitString c (c :: cs) .plain cs with
        | error e =>
          rw [hread] at h
          cases h
        | ok result =>
          rw [hread] at h
          cases h
          obtain ⟨inside, heq⟩ := closes_of_splitString hread
          exact ⟨c :: inside ++ [c], by simp [heq], .string hquote⟩
      · cases hsymbol : splitSymbol c cs with
        | error e =>
          rw [hsymbol] at h
          cases h
        | ok result =>
          rw [hsymbol] at h
          cases h
          exact ⟨result.1.text.toList, text_of_splitSymbol hsymbol, .symbol⟩

theorem length_lt_of_splitLexeme {c : Char} {cs rest : List Char} {kind : TokenKind}
    (h : splitLexeme c cs = .ok (kind, rest)) : rest.length < (c :: cs).length := by
  obtain ⟨lexeme, heq, hlexeme⟩ := lexeme_of_splitLexeme h
  have hpos := List.length_pos_iff.2 hlexeme.ne_nil
  rw [heq, List.length_append]
  omega

/-! ### All tokens -/

/-- The tokens are those of the text, the last one being its end. -/
inductive Spelled : List Char → List Token → Prop
  | finish {cs : List Char} {broken : Bool}
    (hskip : skipTrivia .plain false cs = .ok (broken, [])) :
    Spelled cs [⟨.finish, [], broken⟩]
  | token {cs rest rest' : List Char} {broken : Bool} {c : Char} {kind : TokenKind}
    {tokens : List Token} (hskip : skipTrivia .plain false cs = .ok (broken, c :: rest))
    (hlexeme : splitLexeme c rest = .ok (kind, rest')) (h : Spelled rest' tokens) :
    Spelled cs (⟨kind, c :: rest, broken⟩ :: tokens)

/-- Every token takes a character, so the text runs out before the fuel does. -/
theorem tokensFrom_eq_ok {fuel : Nat} {cs : List Char} {tokens : List Token}
    (hfuel : cs.length < fuel) : tokensFrom fuel cs = .ok tokens ↔ Spelled cs tokens := by
  induction fuel generalizing cs tokens with
  | zero => exact absurd hfuel (Nat.not_lt_zero _)
  | succ fuel ih =>
    have hleft : ∀ {broken : Bool} {c : Char} {rest rest' : List Char} {kind : TokenKind},
        skipTrivia .plain false cs = .ok (broken, c :: rest) →
        splitLexeme c rest = .ok (kind, rest') → rest'.length < fuel := by
      intro broken c rest rest' kind hskip hlexeme
      have hle := (isSuffix_of_skipTrivia hskip).length_le
      have hlt := length_lt_of_splitLexeme hlexeme
      omega
    simp only [tokensFrom]
    constructor
    · intro h
      rcases hskip : skipTrivia .plain false cs with e | ⟨broken, next⟩
      · rw [hskip] at h
        cases h
      rw [hskip] at h
      cases next with
      | nil =>
        cases h
        exact .finish hskip
      | cons c rest =>
        rcases hlexeme : splitLexeme c rest with e | ⟨kind, rest'⟩
        · simp only [hlexeme, bind, Except.bind] at h
          cases h
        rcases hmore : tokensFrom fuel rest' with e | more
        · simp only [hlexeme, hmore, bind, Except.bind] at h
          cases h
        simp only [hlexeme, hmore, bind, Except.bind, pure, Except.pure, Except.ok.injEq] at h
        subst h
        exact .token hskip hlexeme ((ih (hleft hskip hlexeme)).1 hmore)
    · intro h
      cases h with
      | finish hskip =>
        rw [hskip]
        rfl
      | token hskip hlexeme h =>
        rw [hskip]
        simp only [hlexeme, (ih (hleft hskip hlexeme)).2 h, bind, Except.bind, pure, Except.pure]

/-- The lexer gives the tokens that a text spells. -/
theorem tokenize_eq_ok {source : String} {tokens : List Token} :
    tokenize source = .ok tokens ↔ Spelled source.toList tokens :=
  tokensFrom_eq_ok (Nat.lt_succ_self _)

/-- Only the last token is the end of the text. -/
theorem Spelled.finish_last {cs : List Char} {tokens before after : List Token} {t : Token}
    (h : Spelled cs tokens) (heq : tokens = before ++ t :: after)
    (ht : t.kind.isFinish = true) : after = [] := by
  induction h generalizing before with
  | finish hskip =>
    cases before with
    | nil =>
      cases heq
      rfl
    | cons u before => simp at heq
  | token hskip hlexeme _ ih =>
    cases before with
    | nil =>
      cases heq
      obtain ⟨lexeme, -, hkind⟩ := lexeme_of_splitLexeme hlexeme
      cases hkind <;> cases ht
    | cons u before =>
      cases heq
      exact ih rfl

end LiveMarkup.Syntax
