import LiveMarkup.Proofs.ClosedTexts

/-!
# Texts as tokens and what stands between them

A text that has tokens is made of nothing but white space, comments and lexemes, in turn and without
gaps.  White space and comments are taken as far as they go, a comment up to where it first ends.  A
lexeme says what its token is: a name is its own characters, a symbol those it is written with, and
numbers and strings are read from their lexemes.

## Main definitions

* `Skipped` — white space and comments.
* `Inside` — the inside of a string literal, and the text that it stands for.
* `Spelling` — the characters of a token.
* `Partition` — a text as tokens with what is skipped before them.

## Main results

* `skips_of_skipTrivia` — what is skipped is white space and comments.
* `splitString_inside` — a string literal is read as what its inside stands for.
* `spelling_of_splitLexeme` — what is taken off for a token spells it.
* `partition_of_spelled` — so a text is its tokens and what is skipped.
-/

namespace LiveMarkup.Syntax

open Text Number

/-! ### Between tokens -/

/-- White space and comments, as far as they go, and the rest of the text. -/
inductive Skipped : List Char → List Char → Prop
  | nothing {rest : List Char} (hblank : ∀ c ∈ rest.head?, isBlank c = false)
    (hcomment : opensComment rest = false) : Skipped [] rest
  | blank {c : Char} {skipped rest : List Char} (hc : isBlank c = true)
    (h : Skipped skipped rest) : Skipped (c :: skipped) rest
  /-- A comment up to the end of its line, or of the text. -/
  | line (text : List Char) {skipped rest : List Char} (htext : '\n' ∉ text)
    (hend : ∀ c ∈ (skipped ++ rest).head?, c = '\n') (h : Skipped skipped rest) :
    Skipped ('/' :: '/' :: text ++ skipped) rest
  /-- A comment up to the first mark that closes it. -/
  | block (text : List Char) {skipped rest : List Char} (htext : ¬['*', '/'] <:+: text)
    (h : Skipped skipped rest) :
    Skipped ('/' :: '*' :: text ++ '*' :: '/' :: skipped) rest

theorem Skipped.nil : Skipped [] [] := by
  refine .nothing ?_ rfl
  rintro c ⟨⟩

/-- No white space comes after what is skipped. -/
theorem Skipped.head_not_blank {skipped rest : List Char} (h : Skipped skipped rest) :
    ∀ c ∈ rest.head?, isBlank c = false := by
  induction h with
  | nothing hblank => exact hblank
  | blank _ _ ih => exact ih
  | line _ _ _ _ ih => exact ih
  | block _ _ _ ih => exact ih

/-- What is skipped after an opening mark. -/
def Trivia.Skips : Trivia → List Char → List Char → Prop
  | .plain, skipped, rest => Skipped skipped rest
  | .line, skipped, rest => Skipped ('/' :: '/' :: skipped) rest
  | .block _, skipped, rest => Skipped ('/' :: '*' :: skipped) rest

theorem skips_line {skipped rest : List Char} (h : Skipped ('/' :: '/' :: skipped) rest) :
    ∃ text more, skipped = text ++ more ∧ '\n' ∉ text ∧ (∀ c ∈ (more ++ rest).head?, c = '\n') ∧
      Skipped more rest := by
  generalize heq : '/' :: '/' :: skipped = taken at h
  cases h with
  | nothing => cases heq
  | blank hc =>
    cases heq
    exact absurd hc (by decide)
  | line _ htext hend h =>
    cases heq
    exact ⟨_, _, rfl, htext, hend, h⟩
  | block => cases heq

theorem skips_block {skipped rest : List Char} (h : Skipped ('/' :: '*' :: skipped) rest) :
    ∃ text more, skipped = text ++ '*' :: '/' :: more ∧ ¬['*', '/'] <:+: text ∧
      Skipped more rest := by
  generalize heq : '/' :: '*' :: skipped = taken at h
  cases h with
  | nothing => cases heq
  | blank hc =>
    cases heq
    exact absurd hc (by decide)
  | line => cases heq
  | block _ htext h =>
    cases heq
    exact ⟨_, _, rfl, htext, h⟩

theorem opensComment_eq_false {c : Char} {cs : List Char}
    (hline : ∀ rest, c = '/' → cs = '/' :: rest → False)
    (hblock : ∀ rest, c = '/' → cs = '*' :: rest → False) : opensComment (c :: cs) = false := by
  unfold opensComment
  split
  · next heq =>
    cases heq
    exact (hline _ rfl rfl).elim
  · next heq =>
    cases heq
    exact (hblock _ rfl rfl).elim
  · rfl

/-- What is skipped is white space and comments. -/
theorem skips_of_skipTrivia {trivia : Trivia} {broken broken' : Bool} {cs rest : List Char}
    (h : skipTrivia trivia broken cs = .ok (broken', rest)) :
    ∃ skipped, cs = skipped ++ rest ∧ trivia.Skips skipped rest := by
  fun_induction skipTrivia trivia broken cs with
  | case1 broken =>
    cases h
    exact ⟨[], rfl, .nil⟩
  | case2 broken cs ih =>
    obtain ⟨skipped, rfl, hskips⟩ := ih h
    exact ⟨_, rfl, hskips⟩
  | case3 broken cs ih =>
    obtain ⟨skipped, rfl, hskips⟩ := ih h
    exact ⟨_, rfl, hskips⟩
  | case4 broken c cs _ _ hc ih =>
    obtain ⟨skipped, rfl, hskips⟩ := ih h
    have hc : isBlank c = true := by rcases hc with rfl | rfl <;> decide
    exact ⟨c :: skipped, rfl, .blank hc hskips⟩
  | case5 broken c cs _ _ _ hc ih =>
    obtain ⟨skipped, rfl, hskips⟩ := ih h
    exact ⟨c :: skipped, rfl, .blank hc hskips⟩
  | case6 broken c cs hline hblock _ hc =>
    cases h
    refine ⟨[], rfl, .nothing ?_ (opensComment_eq_false hline hblock)⟩
    rintro d ⟨⟩
    exact Bool.eq_false_iff.2 hc
  | case7 broken =>
    cases h
    refine ⟨[], rfl, .line [] List.not_mem_nil ?_ .nil⟩
    rintro c ⟨⟩
  | case8 broken cs ih =>
    obtain ⟨skipped, rfl, hskips⟩ := ih h
    refine ⟨'\n' :: skipped, rfl, .line [] List.not_mem_nil ?_ (.blank (by decide) hskips)⟩
    rintro d ⟨⟩
    rfl
  | case9 broken c cs hc ih =>
    obtain ⟨skipped, rfl, hskips⟩ := ih h
    obtain ⟨text, more, rfl, htext, hend, hmore⟩ := skips_line hskips
    exact ⟨c :: (text ++ more), rfl,
      .line (c :: text) (List.not_mem_cons_of_ne_of_not_mem (Ne.symm hc) htext) hend hmore⟩
  | case10 => cases h
  | case11 opened broken cs ih =>
    obtain ⟨skipped, rfl, hskips⟩ := ih h
    exact ⟨'*' :: '/' :: skipped, rfl, .block [] (by decide) hskips⟩
  | case12 opened broken c cs hend ih =>
    obtain ⟨skipped, rfl, hskips⟩ := ih h
    obtain ⟨text, more, rfl, htext, hmore⟩ := skips_block hskips
    refine ⟨c :: (text ++ '*' :: '/' :: more), by simp, .block (c :: text) ?_ hmore⟩
    -- a mark would be at the front, and there the comment would have ended
    intro hinfix
    rcases List.infix_cons_iff.1 hinfix with hfront | hinfix
    · obtain ⟨tail, htail⟩ := hfront
      cases htail
      exact hend (tail ++ '*' :: '/' :: more ++ rest) rfl (by simp)
    · exact htext hinfix

/-! ### Strings -/

/-- The characters inside a string literal, and the text that they stand for. -/
inductive Inside (quote : Char) : List Char → List Char → Prop
  | nothing : Inside quote [] []
  | plain {c : Char} {cs text : List Char} (hc : c ≠ quote ∧ c ≠ '\n' ∧ c ≠ '\\')
    (h : Inside quote cs text) : Inside quote (c :: cs) (c :: text)
  | escaped {c : Char} {cs text : List Char} (hc : c ≠ 'u' ∧ c ≠ '\n')
    (h : Inside quote cs text) : Inside quote ('\\' :: c :: cs) (escapedChar c :: text)
  /-- A line that goes on with the next one. -/
  | continued {cs text : List Char} (h : Inside quote cs text) :
    Inside quote ('\\' :: '\n' :: cs) text
  | code {digits cs text : List Char} {d : Char} (hlength : digits.length = 4)
    (hdigits : ∀ c ∈ digits, isHexDigit c = true) (hd : charOfCode? digits = some d)
    (h : Inside quote cs text) : Inside quote ('\\' :: 'u' :: digits ++ cs) (d :: text)
  | braced {digits cs text : List Char} {d : Char}
    (hdigits : ∀ c ∈ digits, isHexDigit c = true) (hd : charOfCode? digits = some d)
    (h : Inside quote cs text) :
    Inside quote ('\\' :: 'u' :: '\x7b' :: digits ++ '\x7d' :: cs) (d :: text)

/-- The inside of a string goes on with the characters, after those that have been read of an
escape. -/
def StringPart.GoesOn (quote : Char) : StringPart → List Char → List Char → Prop
  | .plain, inside, text => Inside quote inside text
  | .escaped _, inside, text => Inside quote ('\\' :: inside) text
  | .code _ digits left, inside, text =>
    digits.length + left = 4 → 0 < left → (∀ c ∈ digits, isHexDigit c = true) →
      Inside quote ('\\' :: 'u' :: digits ++ inside) text
  | .braced _ digits, inside, text =>
    (∀ c ∈ digits, isHexDigit c = true) →
      Inside quote ('\\' :: 'u' :: '\x7b' :: digits ++ inside) text

theorem exists_of_consRead {d : Char} {read : Except Located (List Char × List Char)}
    {text rest : List Char} (h : consRead d read = .ok (text, rest)) :
    ∃ text', text = d :: text' ∧ read = .ok (text', rest) := by
  cases read with
  | error e => cases h
  | ok result =>
    cases h
    exact ⟨_, rfl, rfl⟩

/-- A string is read from its inside. -/
theorem goesOn_of_splitString {quote : Char} {opened cs text rest : List Char} {part : StringPart}
    (h : splitString quote opened part cs = .ok (text, rest)) :
    ∃ inside, cs = inside ++ quote :: rest ∧ part.GoesOn quote inside text := by
  have hsnoc : ∀ {digits : List Char} {c : Char}, (∀ d ∈ digits, isHexDigit d = true) →
      isHexDigit c = true → ∀ d ∈ digits ++ [c], isHexDigit d = true := by
    intro digits c hdigits hc d hd
    rcases List.mem_append.1 hd with hd | hd
    · exact hdigits d hd
    · exact List.mem_singleton.1 hd ▸ hc
  fun_induction splitString quote opened part cs generalizing text with
  | case1 | case2 | case3 | case4 | case6 | case14 | case16 | case18 | case20 => cases h
  | case5 cs =>
    cases h
    exact ⟨[], rfl, .nothing⟩
  | case7 cs _ _ ih =>
    obtain ⟨inside, rfl, hinside⟩ := ih h
    exact ⟨'\\' :: inside, rfl, hinside⟩
  | case8 c cs hquote hline hslash ih =>
    obtain ⟨text, rfl, hread⟩ := exists_of_consRead h
    obtain ⟨inside, rfl, hinside⟩ := ih hread
    exact ⟨c :: inside, rfl, .plain ⟨hquote, hline, hslash⟩ hinside⟩
  | case9 start cs ih =>
    obtain ⟨inside, rfl, hinside⟩ := ih h
    exact ⟨'u' :: inside, rfl, hinside rfl (by decide) (List.forall_mem_nil _)⟩
  | case10 start cs _ ih =>
    obtain ⟨inside, rfl, hinside⟩ := ih h
    exact ⟨'\n' :: inside, rfl, .continued hinside⟩
  | case11 start c cs hcode hline ih =>
    obtain ⟨text, rfl, hread⟩ := exists_of_consRead h
    obtain ⟨inside, rfl, hinside⟩ := ih hread
    exact ⟨c :: inside, rfl, .escaped ⟨hcode, hline⟩ hinside⟩
  | case12 start digits left c cs hopen ih =>
    obtain ⟨rfl, rfl⟩ := hopen
    obtain ⟨inside, rfl, hinside⟩ := ih h
    refine ⟨'\x7b' :: inside, rfl, fun hlength _ _ => ?_⟩
    obtain rfl := List.length_eq_zero_iff.1 (Nat.add_eq_right.1 hlength)
    exact hinside (List.forall_mem_nil _)
  | case13 start digits left c cs hopen hdigit hleft d hd ih =>
    obtain ⟨text, rfl, hread⟩ := exists_of_consRead h
    obtain ⟨inside, rfl, hinside⟩ := ih hread
    refine ⟨c :: inside, rfl, fun hlength hpos hdigits => ?_⟩
    have hfour : (digits ++ [c]).length = 4 := by
      rw [List.length_append, List.length_singleton]
      omega
    simpa using Inside.code hfour (hsnoc hdigits hdigit) hd hinside
  | case15 start digits left c cs hopen hdigit hleft ih =>
    obtain ⟨inside, rfl, hinside⟩ := ih h
    refine ⟨c :: inside, rfl, fun hlength hpos hdigits => ?_⟩
    have hleft : (digits ++ [c]).length + (left - 1) = 4 := by
      rw [List.length_append, List.length_singleton]
      omega
    simpa using hinside hleft (by omega) (hsnoc hdigits hdigit)
  | case17 start digits cs d hd ih =>
    obtain ⟨text, rfl, hread⟩ := exists_of_consRead h
    obtain ⟨inside, rfl, hinside⟩ := ih hread
    exact ⟨'\x7d' :: inside, rfl, fun hdigits => .braced hdigits hd hinside⟩
  | case19 start digits c cs hclose hdigit ih =>
    obtain ⟨inside, rfl, hinside⟩ := ih h
    refine ⟨c :: inside, rfl, fun hdigits => ?_⟩
    simpa using hinside (hsnoc hdigits hdigit)

/-- The last digit of an escape gives the character that they all write. -/
theorem splitString_digits {quote d : Char} {opened start done digits cs : List Char}
    (hne : digits ≠ []) (hdigits : ∀ c ∈ digits, isHexDigit c = true)
    (hd : charOfCode? (done ++ digits) = some d) :
    splitString quote opened (.code start done digits.length) (digits ++ cs) =
      consRead d (splitString quote opened .plain cs) := by
  induction digits generalizing done with
  | nil => exact absurd rfl hne
  | cons c digits ih =>
    obtain ⟨hc, hmore⟩ := List.forall_mem_cons.1 hdigits
    have hopen : ¬(c = '\x7b' ∧ (c :: digits).length = 4) := by
      rintro ⟨rfl, -⟩
      exact absurd hc (by decide)
    rw [List.cons_append, splitString, if_neg hopen, if_pos hc]
    cases digits with
    | nil =>
      rw [List.length_singleton, if_pos (Nat.le_refl 1), hd, List.nil_append]
    | cons e digits =>
      rw [if_neg (by simp), List.length_cons, Nat.add_sub_cancel]
      exact ih (List.cons_ne_nil _ _) hmore (by simpa using hd)

theorem splitString_braced {quote d : Char} {opened start done digits cs : List Char}
    (hdigits : ∀ c ∈ digits, isHexDigit c = true) (hd : charOfCode? (done ++ digits) = some d) :
    splitString quote opened (.braced start done) (digits ++ '\x7d' :: cs) =
      consRead d (splitString quote opened .plain cs) := by
  induction digits generalizing done with
  | nil =>
    rw [List.append_nil] at hd
    rw [List.nil_append, splitString, if_pos rfl, hd]
  | cons c digits ih =>
    obtain ⟨hc, hmore⟩ := List.forall_mem_cons.1 hdigits
    have hclose : c ≠ '\x7d' := by
      rintro rfl
      exact absurd hc (by decide)
    rw [List.cons_append, splitString, if_neg hclose, if_pos hc]
    exact ih hmore (by simpa using hd)

/-- A string literal is read as what its inside stands for. -/
theorem splitString_inside {quote : Char} {inside text : List Char}
    (hquote : quote = '"' ∨ quote = '\'') (h : Inside quote inside text) (opened rest : List Char) :
    splitString quote opened .plain (inside ++ quote :: rest) = .ok (text, rest) := by
  have hslash : '\\' ≠ quote := by rcases hquote with rfl | rfl <;> decide
  have hescape : ∀ cs, splitString quote opened .plain ('\\' :: cs) =
      splitString quote opened (.escaped ('\\' :: cs)) cs := by
    intro cs
    rw [splitString, if_neg hslash, if_neg (by decide), if_pos rfl]
  induction h with
  | nothing => rw [List.nil_append, splitString, if_pos rfl]
  | plain hc _ ih =>
    rw [List.cons_append, splitString, if_neg hc.1, if_neg hc.2.1, if_neg hc.2.2, ih]
    rfl
  | escaped hc _ ih =>
    rw [List.cons_append, List.cons_append, hescape, splitString, if_neg hc.1, if_neg hc.2, ih]
    rfl
  | continued _ ih =>
    rw [List.cons_append, List.cons_append, hescape, splitString, if_neg (by decide), if_pos rfl,
      ih]
  | code hlength hdigits hd _ ih =>
    simp only [List.cons_append, List.append_assoc]
    rw [hescape, splitString, if_pos rfl, ← hlength,
      splitString_digits (List.ne_nil_of_length_pos (by omega)) hdigits
        (show charOfCode? ([] ++ _) = some _ from hd), ih]
    rfl
  | braced hdigits hd _ ih =>
    simp only [List.cons_append, List.append_assoc]
    rw [hescape, splitString, if_pos rfl, splitString, if_pos ⟨rfl, rfl⟩,
      splitString_braced hdigits (show charOfCode? ([] ++ _) = some _ from hd), ih]
    rfl

/-! ### Numbers -/

/-- A decimal number takes the characters that it is read from and underscores, and no digit comes
after it. -/
theorem taken_of_splitNumber {point mark : Bool} {cs text rest : List Char}
    (h : splitNumber point mark cs = (text, rest)) :
    ∃ taken, cs = taken ++ rest ∧ taken.filter (· ≠ '_') = text ∧
      ∀ c ∈ rest.head?, isDigit c = false := by
  fun_induction splitNumber point mark cs generalizing text with
  | case1 =>
    cases h
    refine ⟨[], rfl, rfl, ?_⟩
    rintro c ⟨⟩
  | case2 point mark c cs hc text' rest' heq ih =>
    cases h
    obtain ⟨taken, rfl, rfl, hrest⟩ := ih heq
    have hne : c ≠ '_' := by
      rintro rfl
      exact absurd hc (by decide)
    exact ⟨c :: taken, rfl, by simp [hne], hrest⟩
  | case3 point mark cs _ ih =>
    obtain ⟨taken, rfl, rfl, hrest⟩ := ih h
    exact ⟨'_' :: taken, rfl, rfl, hrest⟩
  | case4 point mark c cs _ _ hc text' rest' heq ih =>
    cases h
    obtain ⟨taken, rfl, rfl, hrest⟩ := ih heq
    obtain ⟨rfl, -⟩ := hc
    exact ⟨'.' :: taken, rfl, rfl, hrest⟩
  | case5 point mark c _ _ _ hc =>
    cases h
    refine ⟨[c], rfl, by rcases hc.1 with rfl | rfl <;> rfl, ?_⟩
    rintro d ⟨⟩
  | case6 point mark c _ _ _ hc d cs hd text' rest' heq ih =>
    cases h
    obtain ⟨taken, rfl, rfl, hrest⟩ := ih heq
    refine ⟨c :: d :: taken, rfl, ?_, hrest⟩
    rcases hc.1 with rfl | rfl <;> rcases hd with rfl | rfl <;> rfl
  | case7 point mark c _ _ _ hc d cs hd text' rest' heq ih =>
    cases h
    obtain ⟨taken, htaken, rfl, hrest⟩ := ih heq
    refine ⟨c :: taken, by rw [htaken, List.cons_append], ?_, hrest⟩
    rcases hc.1 with rfl | rfl <;> rfl
  | case8 point mark c cs hc =>
    cases h
    refine ⟨[], rfl, rfl, ?_⟩
    rintro d ⟨⟩
    exact Bool.eq_false_iff.2 hc

/-! ### Tokens -/

/-- The characters of a token of the kind, with the rest of the text after them. -/
inductive Spelling : TokenKind → List Char → List Char → Prop
  | name {c : Char} {cs rest : List Char} (hc : isNameStart c = true)
    (hcs : ∀ d ∈ cs, isNameContinue d = true) (hrest : ∀ d ∈ rest.head?, isNameContinue d = false) :
    Spelling (.name (String.ofList (c :: cs))) (c :: cs) rest
  | hexadecimal {mark : Char} {digits rest : List Char} {n : Nat} (hmark : mark = 'x' ∨ mark = 'X')
    (hdigits : ∀ c ∈ digits, isHexDigit c = true) (hn : readWord 16 digits = .ok n)
    (hrest : ∀ c ∈ rest.head?, isHexDigit c = false) :
    Spelling (.number (ofNat n)) ('0' :: mark :: digits) rest
  /-- Underscores between digits do not count. -/
  | decimal {c : Char} {cs rest : List Char} {x : Float} (hc : isDigit c = true ∨ c = '.')
    (hx : decimalLiteral? ((c :: cs).filter (· ≠ '_')) = some x)
    (hrest : ∀ d ∈ rest.head?, isDigit d = false ∧ isNameStart d = false) :
    Spelling (.number x) (c :: cs) rest
  | string {quote : Char} {inside text rest : List Char} (hquote : quote = '"' ∨ quote = '\'')
    (hinside : Inside quote inside text) :
    Spelling (.string (String.ofList text)) (quote :: inside ++ [quote]) rest
  | symbol {s : Symbol} {rest : List Char} : Spelling (.symbol s) s.text.toList rest

theorem Spelling.ne_nil {kind : TokenKind} {lexeme rest : List Char}
    (h : Spelling kind lexeme rest) : lexeme ≠ [] := by
  cases h with
  | symbol => exact Symbol.text_ne_nil _
  | _ => exact List.cons_ne_nil _ _

/-- What is taken off for a number spells it. -/
theorem spelling_of_splitNumberToken {c : Char} {cs rest : List Char} {kind : TokenKind}
    (h : splitNumberToken (c :: cs) = .ok (kind, rest)) (hstart : startsNumber c cs = true) :
    ∃ lexeme, c :: cs = lexeme ++ rest ∧ Spelling kind lexeme rest := by
  unfold splitNumberToken at h
  split at h
  · next digits hmark =>
    obtain ⟨mark, hx, heq⟩ :
        ∃ mark, (mark = 'x' ∨ mark = 'X') ∧ c :: cs = '0' :: mark :: digits := by
      unfold splitHexMark at hmark
      split at hmark
      · next heq =>
        cases hmark
        exact ⟨'x', .inl rfl, heq⟩
      · next heq =>
        cases hmark
        exact ⟨'X', .inr rfl, heq⟩
      · cases hmark
    split at h
    · next n hn =>
      cases h
      refine ⟨'0' :: mark :: digits.takeWhile isHexDigit, ?_, .hexadecimal hx ?_ hn ?_⟩
      · rw [heq, List.cons_append, List.cons_append, List.takeWhile_append_dropWhile]
      · exact List.all_eq_true.1 List.all_takeWhile
      · intro d hd
        simpa [Option.mem_def.1 hd] using List.head?_dropWhile_not isHexDigit digits
    · cases h
  · obtain ⟨text, rest', hsplit⟩ :
      ∃ text rest', splitNumber false false (c :: cs) = (text, rest') := ⟨_, _, rfl⟩
    obtain ⟨taken, htaken, rfl, hrest⟩ := taken_of_splitNumber hsplit
    rw [hsplit] at h
    dsimp only at h
    split at h
    · cases h
    · next hname =>
      split at h
      · next x hx =>
        cases h
        -- at least the first character is taken, as it is no name and no symbol
        have hc : isDigit c = true ∨ c = '.' := by
          simp only [startsNumber, Bool.or_eq_true, Bool.and_eq_true, beq_iff_eq] at hstart
          exact hstart.imp_right And.left
        cases taken with
        | nil => cases hx
        | cons d taken =>
          cases htaken
          refine ⟨c :: taken, rfl, .decimal hc hx fun d hd => ⟨hrest d hd, ?_⟩⟩
          simpa [Option.mem_def.1 hd] using hname
      · cases h

theorem splitLexeme_eq_string {c : Char} {cs rest : List Char} {s : String}
    (h : splitLexeme c cs = .ok (.string s, rest)) :
    (c = '"' ∨ c = '\'') ∧ ∃ text, s = String.ofList text ∧
      splitString c (c :: cs) .plain cs = .ok (text, rest) := by
  unfold splitLexeme at h
  split at h
  · cases h
  · split at h
    · obtain ⟨⟨x, hkind⟩, -⟩ := passes_splitNumberToken h
      cases hkind
    · split at h
      · next hquote =>
        cases hread : splitString c (c :: cs) .plain cs with
        | error e =>
          rw [hread] at h
          cases h
        | ok result =>
          rw [hread] at h
          cases h
          exact ⟨hquote, result.1, rfl, rfl⟩
      · cases hsymbol : splitSymbol c cs with
        | error e =>
          rw [hsymbol] at h
          cases h
        | ok result =>
          rw [hsymbol] at h
          cases h

/-- What is taken off for a token spells it. -/
theorem spelling_of_splitLexeme {c : Char} {cs rest : List Char} {kind : TokenKind}
    (h : splitLexeme c cs = .ok (kind, rest)) :
    ∃ lexeme, c :: cs = lexeme ++ rest ∧ Spelling kind lexeme rest := by
  obtain ⟨lexeme, heq, hlexeme⟩ := lexeme_of_splitLexeme h
  cases hlexeme with
  | name hc hcs hrest => exact ⟨_, heq, .name hc hcs hrest⟩
  | number =>
    obtain ⟨-, hstart, hread⟩ := splitLexeme_eq_number h
    exact spelling_of_splitNumberToken hread hstart
  | string =>
    obtain ⟨hquote, text, rfl, hread⟩ := splitLexeme_eq_string h
    obtain ⟨inside, rfl, hinside⟩ := goesOn_of_splitString hread
    exact ⟨c :: inside ++ [c], by simp, .string hquote hinside⟩
  | symbol => exact ⟨_, heq, .symbol⟩

/-! ### Texts -/

/-- A text as its tokens and what is skipped before each of them, in turn; at its end there is a
token of nothing. -/
inductive Partition : List Char → List Token → Prop
  | finish {skipped : List Char} {broken : Bool} (hskipped : Skipped skipped []) :
    Partition skipped [⟨.finish, [], broken⟩]
  | token {skipped lexeme rest : List Char} {kind : TokenKind} {broken : Bool}
    {tokens : List Token} (hskipped : Skipped skipped (lexeme ++ rest))
    (hlexeme : Spelling kind lexeme rest) (h : Partition rest tokens) :
    Partition (skipped ++ lexeme ++ rest) (⟨kind, lexeme ++ rest, broken⟩ :: tokens)

/-- A text is its tokens and what is skipped. -/
theorem partition_of_spelled {cs : List Char} {tokens : List Token} (h : Spelled cs tokens) :
    Partition cs tokens := by
  induction h with
  | finish hskip =>
    obtain ⟨skipped, rfl, hskips⟩ := skips_of_skipTrivia hskip
    rw [List.append_nil]
    exact .finish hskips
  | token hskip hlexeme _ ih =>
    obtain ⟨skipped, rfl, hskips⟩ := skips_of_skipTrivia hskip
    obtain ⟨lexeme, heq, hspelling⟩ := spelling_of_splitLexeme hlexeme
    rw [heq] at hskips ⊢
    rw [← List.append_assoc]
    exact .token hskips hspelling ih

end LiveMarkup.Syntax
