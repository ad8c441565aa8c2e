import LiveMarkup.Interpreter.Validator
import LiveMarkup.Proofs.NamesAfterNumbers

/-!
# Texts that are let through have no direct calls of denied names

The search for denied calls looks at characters and knows no tokens.  It recognises a name only at
the start of the text or after a character that ends a word, and word characters are not the
characters of names.  So a name token is hidden from the search if it stands right after a word
character that is no part of the name.  Every token but a number ends in a way that rules this out,
and a text with a name right after a number does not parse.

## Main definitions

* `Token.Calls` — a name with an opening parenthesis after it.

## Main results

* `Validator.deniedHere?_of_check` — where a text that was let through has been searched.
* `Spelled.visible` — the search comes to every name of a text whose tokens are apart.
* `no_direct_call` — a text that is let through and parses has no direct call of a denied name.
-/

namespace LiveMarkup

open Syntax Text

/-! ### Where the search looks -/

theorem endsWord_of_isBlank {c : Char} (h : isBlank c = true) : endsWord c = true := by
  obtain ⟨r, hr, hle⟩ := exists_range_of_inRanges h
  have hall : ∀ r ∈ blankRanges, ∀ k < r.2 + 1 - r.1, endsWord (Char.ofNat (r.1 + k)) = true := by
    decide +kernel
  have hk := hall r hr (c.toNat - r.1) (by omega)
  rwa [Nat.add_sub_cancel' hle.1, Char.ofNat_toNat] at hk

theorem endsWord_of_mem_text {symbol : Symbol} {c : Char} (h : c ∈ symbol.text.toList) :
    endsWord c = true := by
  have hall : symbol.text.toList.all endsWord = true := by cases symbol <;> decide +kernel
  exact List.all_eq_true.1 hall c h

/-- The end of a text after which a name is recognised. -/
def Opens (before : List Char) : Prop := ∀ c ∈ before.getLast?, endsWord c = true

theorem opens_append (before : List Char) {c : Char} (hc : endsWord c = true) :
    Opens (before ++ [c]) := by
  intro d hd
  obtain rfl : c = d := by simpa using hd
  exact hc

namespace Validator

variable {v : Validator} {text : String}

theorem deniedHere?_of_deniedLater? {before after : List Char} {c : Char} (hc : endsWord c = true)
    (h : v.deniedLater? (before ++ c :: after) = none) : v.deniedHere? after = none := by
  induction before with
  | nil =>
    rw [List.nil_append, deniedLater?, hc, if_pos rfl, Option.or_eq_none_iff] at h
    exact h.1
  | cons d before ih =>
    rw [List.cons_append, deniedLater?, Option.or_eq_none_iff] at h
    exact ih h.2

/-- A text that is let through has no denied call at its start, nor after the end of a word. -/
theorem deniedHere?_of_check (h : v.check text = .ok ()) {before after : List Char}
    (heq : text.toList = before ++ after) (hbefore : Opens before) :
    v.deniedHere? after = none := by
  have hnone : v.firstDenied? text = none := by
    unfold check at h
    split at h
    · cases h
    · next hnone => exact hnone
  obtain ⟨hhere, hlater⟩ := Option.or_eq_none_iff.1 hnone
  rcases List.eq_nil_or_concat before with rfl | ⟨init, c, rfl⟩
  · rwa [heq, List.nil_append] at hhere
  · rw [heq, List.concat_eq_append, List.append_assoc, List.singleton_append] at hlater
    exact deniedHere?_of_deniedLater? (hbefore c (by simp)) hlater

end Validator

/-! ### Names in a text -/

/-- What holds at the end of a token, with the text before and after it: no name comes at once, or
the search would recognise it, or the token is a number. -/
def Syntax.TokenKind.Leaves (kind : TokenKind) (before after : List Char) : Prop :=
  (∀ c ∈ after.head?, isNameStart c = false) ∨ Opens before ∨ ∃ x, kind = .number x

theorem Syntax.Lexeme.leaves {kind : TokenKind} {lexeme rest : List Char}
    (h : Lexeme kind lexeme rest) (before : List Char) : kind.Leaves (before ++ lexeme) rest := by
  cases h with
  | name hc hcs hrest =>
    refine .inl fun c hc => Bool.eq_false_iff.2 fun hstart => ?_
    have hcontinue := hrest c hc
    rw [isNameContinue_of_isNameStart hstart] at hcontinue
    cases hcontinue
  | number => exact .inr (.inr ⟨_, rfl⟩)
  | @string s quote inside _ hquote =>
    have hquote : endsWord quote = true := by rcases hquote with rfl | rfl <;> decide +kernel
    have hopens := opens_append (before ++ quote :: inside) hquote
    exact .inr (.inl (by simpa using hopens))
  | @symbol symbol =>
    refine .inr (.inl fun c hc => ?_)
    rw [List.getLast?_append_of_ne_nil _ symbol.text_ne_nil] at hc
    exact endsWord_of_mem_text (List.mem_of_getLast? hc)

/-- The search comes to a name that follows a token, if it is apart from that token. -/
theorem opens_of_skipTrivia {before cs rest : List Char} {broken : Bool} {c : Char} {t u : Token}
    (hskip : skipTrivia .plain false cs = .ok (broken, c :: rest)) (hc : isNameStart c = true)
    (hbefore : t.kind.Leaves before cs) (hapart : t.Apart u) {name : String}
    (hname : u.kind = .name name) (hbroken : u.newlineBefore = broken) :
    ∃ skipped, cs = skipped ++ c :: rest ∧ Opens (before ++ skipped) := by
  obtain ⟨skipped, rfl, ⟨rfl, -, rfl⟩ | hends⟩ :=
    skipped_of_skipTrivia hskip (List.cons_ne_nil c rest)
  · refine ⟨[], rfl, ?_⟩
    rw [List.append_nil]
    rcases hbefore with hstart | hopens | ⟨x, hnumber⟩
    · rw [hstart c rfl] at hc
      cases hc
    · exact hopens
    · rw [hapart x name hnumber hname] at hbroken
      cases hbroken
  · obtain ⟨init, d, rfl, hd⟩ := hends
    refine ⟨init ++ [d], rfl, ?_⟩
    rw [← List.append_assoc]
    refine opens_append _ ?_
    rcases hd with hd | rfl
    · exact endsWord_of_isBlank hd
    · decide +kernel

/-- The search comes to every name of a text whose tokens are apart. -/
theorem Syntax.Spelled.visible {cs : List Char} {tokens : List Token} (h : Spelled cs tokens)
    {t : Token} (hchain : (t :: tokens).IsChain Token.Apart) {before : List Char}
    (hbefore : t.kind.Leaves before cs) {u : Token} (hu : u ∈ tokens) {name : String}
    (hname : u.kind = .name name) :
    ∃ passed, before ++ cs = passed ++ u.place ∧ Opens passed := by
  induction h generalizing t before with
  | finish hskip =>
    obtain rfl := List.mem_singleton.1 hu
    cases hname
  | @token cs rest rest' broken c kind tokens hskip hlexeme _ ih =>
    obtain ⟨hapart, hmore⟩ := List.isChain_cons_cons.1 hchain
    obtain ⟨lexeme, heq, hkind⟩ := lexeme_of_splitLexeme hlexeme
    rcases List.mem_cons.1 hu with rfl | hu
    · obtain rfl : kind = .name name := hname
      have hc : isNameStart c = true := by
        cases hkind with
        | name hc =>
          cases heq
          exact hc
      obtain ⟨skipped, rfl, hopens⟩ := opens_of_skipTrivia hskip hc hbefore hapart rfl rfl
      exact ⟨before ++ skipped, by rw [List.append_assoc], hopens⟩
    · obtain ⟨skipped, rfl⟩ := isSuffix_of_skipTrivia hskip
      have hleaves := hkind.leaves (before ++ skipped)
      obtain ⟨passed, hpassed, hopens⟩ := ih hmore hleaves hu
      refine ⟨passed, ?_, hopens⟩
      rw [← hpassed, heq, List.append_assoc, List.append_assoc]

/-! ### Calls -/

/-- The first token is the given name, the second one an opening parenthesis, and nothing but white
space stands between them. -/
def Syntax.Token.Calls (name : String) (t u : Token) : Prop :=
  t.kind = .name name ∧ u.kind = .symbol .leftParen ∧
    ∃ white, (∀ c ∈ white, isBlank c = true) ∧ t.place = name.toList ++ white ++ u.place

/-- The text of an opening parenthesis begins with it. -/
theorem Syntax.Spelled.paren {cs : List Char} {tokens : List Token} (h : Spelled cs tokens)
    {u : Token} (hu : u ∈ tokens) (hparen : u.kind = .symbol .leftParen) :
    ∃ rest, u.place = '(' :: rest := by
  induction h with
  | finish =>
    obtain rfl := List.mem_singleton.1 hu
    cases hparen
  | @token _ _ rest' _ _ _ _ _ hlexeme _ ih =>
    rcases List.mem_cons.1 hu with rfl | hu
    · obtain ⟨lexeme, heq, hkind⟩ := lexeme_of_splitLexeme hlexeme
      cases hparen
      cases hkind
      exact ⟨rest', heq⟩
    · exact ih hu

theorem beginsWithCall_append {name : String} {white rest : List Char}
    (hwhite : ∀ c ∈ white, isBlank c = true) :
    beginsWithCall (name.toList ++ white ++ '(' :: rest) name = true := by
  have htrim : trimStart (white ++ '(' :: rest) = '(' :: rest := by
    have hparen : isBlank '(' = false := by decide
    rw [trimStart, List.dropWhile_append_of_pos hwhite, List.dropWhile_cons, hparen]
    rfl
  simp [beginsWithCall, opensCall, htrim]

/-- A text that a validator lets through and that parses has no call of a denied name by that name,
whatever the parameters and the mode. -/
theorem no_direct_call {v : Validator} {source : String} (hcheck : v.check source = .ok ())
    {params : List String} {mode : Mode} {program : Program}
    (hparse : parse source params mode = .ok program) :
    ∃ tokens, tokenize source = .ok tokens ∧
      ∀ t u, [t, u] <:+: tokens → ∀ name ∈ v.names, ¬ Token.Calls name t u := by
  obtain ⟨tokens, htokens, hchain⟩ := apart_of_parse hparse
  refine ⟨tokens, htokens, ?_⟩
  rintro t u hinfix name hdenied ⟨hname, hparen, white, hwhite, hplace⟩
  have hspelled := tokenize_eq_ok.1 htokens
  have ht : t ∈ tokens := hinfix.subset (by simp)
  have hu : u ∈ tokens := hinfix.subset (by simp)
  -- the end of the text stands for the token before the first one
  have hfirst : (⟨.finish, [], false⟩ :: tokens : List Token).IsChain Token.Apart := by
    cases tokens with
    | nil => exact .singleton _
    | cons first rest => exact .cons_cons (fun _ _ hnumber => by cases hnumber) hchain
  have hstart : TokenKind.finish.Leaves [] source.toList := .inr (.inl (by simp [Opens]))
  obtain ⟨passed, heq, hopens⟩ := hspelled.visible hfirst hstart ht hname
  have hhere := Validator.deniedHere?_of_check hcheck heq hopens
  obtain ⟨rest, hrest⟩ := hspelled.paren hu hparen
  have hcall : beginsWithCall t.place name = true := by
    rw [hplace, hrest]
    exact beginsWithCall_append hwhite
  exact List.find?_eq_none.1 hhere name hdenied hcall

/-- A longer name may be called, and the denied name may be mentioned. -/
theorem medieval_no_direct_call :
    Validator.check ⟨["eval"]⟩ "medieval(eval)" = .ok () ∧
      (parse "medieval(eval)" [] .expression).isOk = true ∧
      ∃ tokens, tokenize "medieval(eval)" = .ok tokens ∧
        ∀ t u, [t, u] <:+: tokens → ∀ name ∈ ["eval"], ¬ Token.Calls name t u := by
  have hcheck : Validator.check ⟨["eval"]⟩ "medieval(eval)" = .ok () := by decide +kernel
  have hparses : (parse "medieval(eval)" [] .expression).isOk = true := by decide +kernel
  refine ⟨hcheck, hparses, ?_⟩
  cases hparse : parse "medieval(eval)" [] .expression with
  | ok program => exact no_direct_call hcheck hparse
  | error e =>
    rw [hparse] at hparses
    cases hparses

end LiveMarkup
