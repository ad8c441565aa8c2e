import LiveMarkup.Interpreter.Dependencies
import Mathlib.Data.List.Basic

/-!
# The search for words finds every name token

The search for words and the lexer read a text independently of each other.  They agree on where
string literals begin and end, but not on comments, which the search does not know, nor on numerals,
which the search takes to go on with any letter, digit, underscore or point.  So while tokens are
read, the search can be in a numeral or in the middle of a word; it is never inside a literal at the
start of a token, provided no comment has a quote in it.  A numeral can swallow only a name that
follows a number or a point, and such a name is never a variable.

## Main definitions

* `commentText` — what stands in the comments of a text.
* `openNames` — the names among tokens that follow neither a number nor a point.
* `Scan.Loose` — a search that is not inside a literal.

## Main results

* `Scan.words_word` — a word goes on as long as a name does.
* `words_of_splitLexeme` — what the search makes of one token.
* `openNames_subset_words` — the search finds every name that can be a variable.
-/

namespace LiveMarkup

open Syntax Text Number

/-! ### Characters -/

theorem isNameContinue_of_isNameStart {c : Char} (h : isNameStart c = true) :
    isNameContinue c = true := by
  simp only [isNameStart, isNameContinue, Bool.or_eq_true] at h ⊢
  rcases h with (h | h) | h <;> simp [h]

theorem isName_iff {name : String} :
    isName name = true ↔ ∃ c cs, name.toList = c :: cs ∧ isNameStart c = true ∧
      ∀ d ∈ cs, isNameContinue d = true := by
  unfold isName
  split
  · next h => simp [h]
  · next c cs h => simp [h, List.all_eq_true]

theorem isName_ofList {c : Char} {cs : List Char} :
    isName (String.ofList (c :: cs)) = true ↔
      isNameStart c = true ∧ ∀ d ∈ cs, isNameContinue d = true := by
  simp [isName, List.all_eq_true]

theorem mem_quoteMarks {c : Char} (h : Scan.isQuote c = true) : c = '"' ∨ c = '\'' ∨ c = '`' := by
  simpa [Scan.isQuote, Scan.quoteMarks] using h

/-- A character with a property that no quote has is no quote. -/
theorem isQuote_eq_false {P : Char → Bool} {c : Char} (hc : P c = true) (h1 : P '"' = false)
    (h2 : P '\'' = false) (h3 : P '`' = false) : Scan.isQuote c = false := by
  rw [Bool.eq_false_iff]
  intro hquote
  rcases mem_quoteMarks hquote with rfl | rfl | rfl <;> simp_all

theorem isQuote_of_isNameContinue {c : Char} (h : isNameContinue c = true) :
    Scan.isQuote c = false :=
  isQuote_eq_false h (by decide) (by decide) (by decide)

/-- What holds of the first so many characters holds of a character among them. -/
theorem forall_char_lt {P : Char → Prop} {n : Nat} (h : ∀ k < n, P (Char.ofNat k)) {c : Char}
    (hc : c.toNat < n) : P c := by
  have hk := h c.toNat hc
  rwa [Char.ofNat_toNat] at hk

theorem isDigit_of_isNameStart {c : Char} (h : isNameStart c = true) : c.isDigit = false := by
  rw [Bool.eq_false_iff]
  intro hdigit
  have hlt : c.toNat < 58 := by
    simp only [Char.isDigit, ge_iff_le, Bool.and_eq_true, decide_eq_true_eq] at hdigit
    exact Nat.lt_succ_of_le hdigit.2
  have hall : c.isDigit = true → isNameStart c = false :=
    forall_char_lt (P := fun c => c.isDigit = true → isNameStart c = false) (n := 58)
      (by decide) hlt
  rw [hall hdigit] at h
  cases h

/-- A character with which neither a word nor a numeral goes on, and which is no quote. -/
def breaks (c : Char) : Bool := !Scan.isQuote c && !isNameContinue c && !Scan.continuesNumeral c

theorem breaks_of_isBlank {c : Char} (h : isBlank c = true) : breaks c = true := by
  obtain ⟨r, hr, hle⟩ := exists_range_of_inRanges h
  have hall : ∀ r ∈ blankRanges, ∀ k < r.2 + 1 - r.1, breaks (Char.ofNat (r.1 + k)) = true := by
    decide +kernel
  have hk := hall r hr (c.toNat - r.1) (by omega)
  rwa [Nat.add_sub_cancel' hle.1, Char.ofNat_toNat] at hk

/-! ### One character of the search -/

namespace Scan

theorem enter_of_breaks {c : Char} (h : breaks c = true) : enter c = .between := by
  simp only [breaks, continuesNumeral, Char.isAlphanum, Bool.and_eq_true, Bool.not_eq_true',
    Bool.or_eq_false_iff] at h
  obtain ⟨⟨hquote, hname⟩, ⟨⟨-, hdigit⟩, -⟩, -⟩ := h
  have hstart : isNameStart c = false := by
    rw [Bool.eq_false_iff]
    intro hstart
    rw [isNameContinue_of_isNameStart hstart] at hname
    cases hname
  simp [enter, hquote, hdigit, hstart]

/-- A search that is not inside a literal. -/
def Loose : Scan → Prop
  | .between | .numeral | .word _ => True
  | .quoted _ | .escaped _ => False

theorem loose_enter {c : Char} (h : isQuote c = false) : Loose (enter c) := by
  unfold enter
  rw [h]
  split
  · contradiction
  · split
    · trivial
    · split <;> trivial

variable {st : Scan} {c : Char} {cs : List Char}

/-- A character with which nothing goes on brings the search between things, and loses no word. -/
theorem words_of_breaks (hst : st.Loose) (h : breaks c = true) :
    words .between cs ⊆ words st (c :: cs) := by
  have henter := enter_of_breaks h
  simp only [breaks, Bool.and_eq_true, Bool.not_eq_true'] at h
  cases st with
  | between => simp [words, henter]
  | numeral => simp [words, henter, h.2]
  | word reversed => simp [words, henter, h.1.2]
  | quoted quote => exact hst.elim
  | escaped quote => exact hst.elim

/-- A character that is no quote leaves the search outside of literals, and loses no word. -/
theorem words_of_not_isQuote (hst : st.Loose) (h : isQuote c = false) (cs : List Char) :
    ∃ st' : Scan, st'.Loose ∧ words st' cs ⊆ words st (c :: cs) := by
  cases st with
  | between => exact ⟨enter c, loose_enter h, by simp [words]⟩
  | numeral =>
    by_cases hgo : continuesNumeral c = true
    · exact ⟨.numeral, trivial, by simp [words, hgo]⟩
    · exact ⟨enter c, loose_enter h, by simp [words, hgo]⟩
  | word reversed =>
    by_cases hgo : isNameContinue c = true
    · exact ⟨.word (c :: reversed), trivial, by simp [words, hgo]⟩
    · exact ⟨enter c, loose_enter h, by simp [words, hgo]⟩
  | quoted quote => exact hst.elim
  | escaped quote => exact hst.elim

/-- What is left of a text after some characters, none of them a quote. -/
inductive Passes : List Char → List Char → Prop
  | refl (cs : List Char) : Passes cs cs
  | cons {c : Char} {cs rest : List Char} (hc : isQuote c = false) (h : Passes cs rest) :
    Passes (c :: cs) rest

theorem Passes.dropWhile {P : Char → Bool} (hP : ∀ c, P c = true → isQuote c = false)
    (cs : List Char) : Passes cs (cs.dropWhile P) := by
  induction cs with
  | nil => exact .refl []
  | cons c cs ih =>
    rw [List.dropWhile_cons]
    split
    · next hc => exact .cons (hP c hc) ih
    · exact .refl (c :: cs)

/-- The same for many characters. -/
theorem words_of_passes {rest : List Char} (h : Passes cs rest) :
    ∀ {st : Scan} (_ : st.Loose), ∃ st' : Scan, st'.Loose ∧ words st' rest ⊆ words st cs := by
  induction h with
  | refl cs => exact fun {st} hst => ⟨st, hst, List.Subset.refl _⟩
  | cons hc _ ih =>
    intro st hst
    obtain ⟨st', hst', hsub⟩ := words_of_not_isQuote hst hc _
    obtain ⟨st'', hst'', hsub'⟩ := ih hst'
    exact ⟨st'', hst'', List.Subset.trans hsub' hsub⟩

/-- A word goes on as long as a name does. -/
theorem words_word (reversed cs : List Char) :
    words (.word reversed) cs =
      String.ofList (reversed.reverse ++ cs.takeWhile isNameContinue) ::
        words .between (cs.dropWhile isNameContinue) := by
  induction cs generalizing reversed with
  | nil => simp [words]
  | cons c cs ih =>
    by_cases hgo : isNameContinue c = true
    · simp [words, hgo, ih]
    · simp [words, hgo]

end Scan

/-! ### Comments -/

/-- The characters of the comments that `skipTrivia` drops, without their marks. -/
def commentText : Trivia → List Char → List Char
  | .plain, [] => []
  | .plain, '/' :: '/' :: cs => commentText .line cs
  | .plain, '/' :: '*' :: cs => commentText (.block ('/' :: '*' :: cs)) cs
  | .plain, c :: cs => if c = '\n' ∨ c = '\r' ∨ isBlank c then commentText .plain cs else []
  | .line, [] => []
  | .line, c :: cs => if c = '\n' then commentText .plain cs else c :: commentText .line cs
  | .block _, [] => []
  | .block _, '*' :: '/' :: cs => commentText .plain cs
  | .block opened, c :: cs => c :: commentText (.block opened) cs

/-- The characters of all comments between tokens. -/
def commentsFrom : Nat → List Char → List Char
  | 0, _ => []
  | fuel + 1, cs =>
    commentText .plain cs ++
      match skipTrivia .plain false cs with
      | .ok (_, c :: rest) =>
        match splitLexeme c rest with
        | .ok (_, rest) => commentsFrom fuel rest
        | .error _ => []
      | _ => []

/-- No comment of the text has a quote in it. -/
def QuietComments (source : String) : Prop :=
  ∀ c ∈ commentsFrom (source.toList.length + 1) source.toList, Scan.isQuote c = false

instance (source : String) : Decidable (QuietComments source) :=
  List.decidableBAll (fun c => Scan.isQuote c = false) _

/-- Where the search can be while something is skipped. -/
def Scan.FollowsTrivia (st : Scan) : Trivia → Prop
  | .plain => st = .between
  | .line | .block _ => st.Loose

theorem Scan.followsTrivia_between (trivia : Trivia) : Scan.between.FollowsTrivia trivia := by
  cases trivia <;> trivial

theorem breaks_slash : breaks '/' = true := by decide

/-- White space and comments without quotes bring the search between things. -/
theorem words_of_skipTrivia {trivia : Trivia} {broken broken' : Bool} {cs rest : List Char}
    (hskip : skipTrivia trivia broken cs = .ok (broken', rest))
    (hquiet : ∀ c ∈ commentText trivia cs, Scan.isQuote c = false) {st : Scan}
    (hst : st.FollowsTrivia trivia) :
    rest = [] ∨ Scan.words .between rest ⊆ Scan.words st cs := by
  have hbetween : Scan.between.Loose := trivial
  -- both characters of a mark leave the search between things
  have hmark : ∀ {st : Scan} (c d : Char) (cs : List Char), st.Loose → breaks c = true →
      breaks d = true → Scan.words .between cs ⊆ Scan.words st (c :: d :: cs) :=
    fun c d cs hst hc hd =>
      List.Subset.trans (Scan.words_of_breaks hbetween hd) (Scan.words_of_breaks hst hc)
  fun_induction skipTrivia trivia broken cs generalizing st with
  | case1 => exact .inl (by cases hskip; rfl)
  | case2 broken cs ih =>
    obtain rfl : st = .between := hst
    exact (ih hskip hquiet (Scan.followsTrivia_between _)).imp_right
      (List.Subset.trans · (hmark '/' '/' cs trivial (by decide) (by decide)))
  | case3 broken cs ih =>
    obtain rfl : st = .between := hst
    exact (ih hskip hquiet (Scan.followsTrivia_between _)).imp_right
      (List.Subset.trans · (hmark '/' '*' cs trivial (by decide) (by decide)))
  | case4 broken c cs hline hblock hc ih =>
    obtain rfl : st = .between := hst
    have hbreaks : breaks c = true := by rcases hc with rfl | rfl <;> decide
    simp only [commentText, ← or_assoc, hc, true_or, if_true] at hquiet
    exact (ih hskip hquiet rfl).imp_right
      (List.Subset.trans · (Scan.words_of_breaks trivial hbreaks))
  | case5 broken c cs hline hblock hc hblank ih =>
    obtain rfl : st = .between := hst
    simp only [commentText, hblank, or_true, if_true] at hquiet
    exact (ih hskip hquiet rfl).imp_right
      (List.Subset.trans · (Scan.words_of_breaks trivial (breaks_of_isBlank hblank)))
  | case6 broken c cs hline hblock hc hblank =>
    obtain rfl : st = .between := hst
    cases hskip
    exact .inr (List.Subset.refl _)
  | case7 => exact .inl (by cases hskip; rfl)
  | case8 broken cs ih =>
    simp only [commentText, if_true] at hquiet
    exact (ih hskip hquiet rfl).imp_right
      (List.Subset.trans · (Scan.words_of_breaks hst (by decide)))
  | case9 broken c cs hc ih =>
    simp only [commentText, hc, if_false] at hquiet
    obtain ⟨hquote, hrest⟩ := List.forall_mem_cons.1 hquiet
    obtain ⟨st', hst', hsub⟩ := Scan.words_of_not_isQuote hst hquote cs
    exact (ih hskip hrest hst').imp_right (List.Subset.trans · hsub)
  | case10 => cases hskip
  | case11 opened broken cs ih =>
    simp only [commentText] at hquiet
    exact (ih hskip hquiet rfl).imp_right
      (List.Subset.trans · (hmark '*' '/' cs hst (by decide) (by decide)))
  | case12 opened broken c cs hend ih =>
    simp only [commentText] at hquiet
    obtain ⟨hquote, hrest⟩ := List.forall_mem_cons.1 hquiet
    obtain ⟨st', hst', hsub⟩ := Scan.words_of_not_isQuote hst hquote cs
    exact (ih hskip hrest hst').imp_right (List.Subset.trans · hsub)

/-- What is skipped, if anything, begins with a character that brings the search between things. -/
theorem breaks_of_skipTrivia {broken broken' : Bool} {c : Char} {cs rest : List Char}
    (hskip : skipTrivia .plain broken (c :: cs) = .ok (broken', rest)) (hne : rest ≠ c :: cs) :
    breaks c = true := by
  by_cases hslash : c = '/'
  · exact hslash ▸ breaks_slash
  · rw [skipTrivia] at hskip
    · split at hskip
      · next hc => rcases hc with rfl | rfl <;> decide
      · split at hskip
        · next hblank => exact breaks_of_isBlank hblank
        · cases hskip
          exact absurd rfl hne
    · exact fun _ heq => absurd heq hslash
    · exact fun _ heq => absurd heq hslash

/-- A character of a word or a numeral is not skipped. -/
theorem skipTrivia_of_not_breaks {c : Char} (h : breaks c = false) (broken : Bool)
    (cs : List Char) : skipTrivia .plain broken (c :: cs) = .ok (broken, c :: cs) := by
  have hne : ∀ d : Char, breaks d = true → c ≠ d := by
    rintro d hd rfl
    rw [hd] at h
    cases h
  have hblank : isBlank c = false := by
    rw [Bool.eq_false_iff]
    exact fun hblank => hne c (breaks_of_isBlank hblank) rfl
  have hline : ¬(c = '\n' ∨ c = '\r') := by
    rintro (heq | heq)
    · exact hne _ (by decide) heq
    · exact hne _ (by decide) heq
  rw [skipTrivia]
  · simp [hline, hblank]
  · exact fun _ heq => absurd heq (hne '/' breaks_slash)
  · exact fun _ heq => absurd heq (hne '/' breaks_slash)

theorem skipTrivia_of_isNameStart {c : Char} (h : isNameStart c = true) (broken : Bool)
    (cs : List Char) : skipTrivia .plain broken (c :: cs) = .ok (broken, c :: cs) :=
  skipTrivia_of_not_breaks (by simp [breaks, isNameContinue_of_isNameStart h]) broken cs

/-! ### Numbers -/

theorem isQuote_of_isDigit {c : Char} (h : isDigit c = true) : Scan.isQuote c = false :=
  isQuote_eq_false h (by decide) (by decide) (by decide)

theorem isQuote_of_isHexDigit {c : Char} (h : isHexDigit c = true) : Scan.isQuote c = false :=
  isQuote_eq_false h (by decide) (by decide) (by decide)

theorem passes_splitNumber (point mark : Bool) (cs : List Char) :
    Scan.Passes cs (splitNumber point mark cs).2 := by
  fun_induction splitNumber point mark cs with
  | case1 => exact .refl []
  | case2 point mark c cs hc text rest heq ih =>
    rw [heq] at ih
    exact .cons (isQuote_of_isDigit hc) ih
  | case3 point mark cs _ ih => exact .cons (by decide) ih
  | case4 point mark c cs _ _ hc text rest heq ih =>
    rw [heq] at ih
    exact .cons (hc.1 ▸ by decide) ih
  | case5 point mark c _ _ _ hc => exact .cons (by rcases hc.1 with rfl | rfl <;> decide) (.refl [])
  | case6 point mark c _ _ _ hc d cs hd text rest heq ih =>
    rw [heq] at ih
    exact .cons (by rcases hc.1 with rfl | rfl <;> decide)
      (.cons (by rcases hd with rfl | rfl <;> decide) ih)
  | case7 point mark c _ _ _ hc d cs hd text rest heq ih =>
    rw [heq] at ih
    exact .cons (by rcases hc.1 with rfl | rfl <;> decide) ih
  | case8 point mark c cs => exact .refl (c :: cs)

theorem passes_splitHexMark {cs rest : List Char} (h : splitHexMark cs = some rest) :
    Scan.Passes cs rest := by
  unfold splitHexMark at h
  split at h
  · cases h
    exact .cons (by decide) (.cons (by decide) (.refl _))
  · cases h
    exact .cons (by decide) (.cons (by decide) (.refl _))
  · cases h

theorem Scan.Passes.trans {a b c : List Char} (h : Scan.Passes a b) (h' : Scan.Passes b c) :
    Scan.Passes a c := by
  induction h with
  | refl => exact h'
  | cons hc _ ih => exact .cons hc (ih h')

/-- A number token has no quotes. -/
theorem passes_splitNumberToken {cs rest : List Char} {kind : TokenKind}
    (h : splitNumberToken cs = .ok (kind, rest)) :
    (∃ x, kind = .number x) ∧ Scan.Passes cs rest := by
  unfold splitNumberToken at h
  split at h
  · next digits hmark =>
    split at h
    · cases h
      exact ⟨⟨_, rfl⟩, (passes_splitHexMark hmark).trans
        (Scan.Passes.dropWhile (fun _ => isQuote_of_isHexDigit) digits)⟩
    · cases h
  · have hpasses := passes_splitNumber false false cs
    revert h hpasses
    rcases splitNumber false false cs with ⟨text, rest'⟩
    intro h hpasses
    dsimp only at h
    split at h
    · cases h
    · split at h
      · cases h
        exact ⟨⟨_, rfl⟩, hpasses⟩
      · cases h

/-! ### Strings -/

theorem words_of_consRead {d : Char} {read : Except Located (List Char × List Char)}
    {text rest : List Char} (h : consRead d read = .ok (text, rest)) :
    ∃ text', read = .ok (text', rest) := by
  unfold consRead at h
  cases read with
  | error e => cases h
  | ok result =>
    cases h
    exact ⟨_, rfl⟩

/-- Where the search is while a string is read. -/
def Scan.ofPart (quote : Char) : StringPart → Scan
  | .escaped _ => .escaped quote
  | .plain | .code .. | .braced .. => .quoted quote

theorem Scan.words_inside {quote c : Char} (cs : List Char) (h : c ≠ '\\' ∧ c ≠ quote) :
    words (.quoted quote) (c :: cs) = words (.quoted quote) cs := by
  simp [words, h]

/-- The lexer and the search agree on where a string ends. -/
theorem words_of_splitString {quote : Char} (hquote : Scan.isQuote quote = true)
    {opened cs text rest : List Char} {part : StringPart}
    (h : splitString quote opened part cs = .ok (text, rest)) :
    Scan.words (.ofPart quote part) cs = Scan.words .between rest := by
  -- what an escape is made of neither ends the literal nor begins another escape
  have hinside : ∀ (P : Char → Bool) {c : Char}, P c = true → P '\\' = false →
      (∀ d, Scan.isQuote d = true → P d = false) → c ≠ '\\' ∧ c ≠ quote := by
    refine fun P c hc hslash hquotes => ⟨?_, ?_⟩
    · rintro rfl
      simp_all
    · rintro rfl
      simp_all
  have hhex : ∀ {c : Char}, isHexDigit c = true → c ≠ '\\' ∧ c ≠ quote := fun hc =>
    hinside isHexDigit hc (by decide) fun d hd => by
      rcases mem_quoteMarks hd with rfl | rfl | rfl <;> decide
  have hbrace : ∀ {c : Char}, (c == '{' || c == '}') = true → c ≠ '\\' ∧ c ≠ quote := fun hc =>
    hinside (fun c => c == '{' || c == '}') hc (by decide) fun d hd => by
      rcases mem_quoteMarks hd with rfl | rfl | rfl <;> decide
  have hslash : '\\' ≠ quote := by
    rintro rfl
    exact absurd hquote (by decide)
  fun_induction splitString quote opened part cs generalizing text with
  | case1 | case2 | case3 | case4 | case6 | case14 | case16 | case18 | case20 => cases h
  | case5 cs =>
    cases h
    simp [Scan.ofPart, Scan.words, hslash.symm]
  | case7 cs _ _ ih =>
    rw [← ih h]
    simp [Scan.ofPart, Scan.words]
  | case8 c cs hend _ hescape ih =>
    obtain ⟨text', hread⟩ := words_of_consRead h
    rw [← ih hread]
    exact Scan.words_inside cs ⟨hescape, hend⟩
  | case9 start cs ih =>
    rw [← ih h]
    simp [Scan.ofPart, Scan.words]
  | case10 start cs _ ih =>
    rw [← ih h]
    simp [Scan.ofPart, Scan.words]
  | case11 start c cs _ _ ih =>
    obtain ⟨text', hread⟩ := words_of_consRead h
    rw [← ih hread]
    simp [Scan.ofPart, Scan.words]
  | case12 start digits left c cs hc ih =>
    rw [← ih h]
    exact Scan.words_inside cs (hbrace (by simp [hc.1]))
  | case13 start digits left c cs _ hc _ d _ ih =>
    obtain ⟨text', hread⟩ := words_of_consRead h
    rw [← ih hread]
    exact Scan.words_inside cs (hhex hc)
  | case15 start digits left c cs _ hc _ ih =>
    rw [← ih h]
    exact Scan.words_inside cs (hhex hc)
  | case17 start digits cs d _ ih =>
    obtain ⟨text', hread⟩ := words_of_consRead h
    rw [← ih hread]
    exact Scan.words_inside cs (hbrace (by decide))
  | case19 start digits c cs _ hc ih =>
    rw [← ih h]
    exact Scan.words_inside cs (hhex hc)

/-- A quote begins a literal wherever the search is. -/
theorem words_of_quote {c : Char} (h : Scan.isQuote c = true) (cs : List Char) {st : Scan}
    (hst : st.Loose) : Scan.words (.quoted c) cs ⊆ Scan.words st (c :: cs) := by
  have henter : Scan.enter c = .quoted c := by simp [Scan.enter, h]
  have hname : isNameContinue c = false := by
    rw [Bool.eq_false_iff]
    intro hc
    rw [isQuote_of_isNameContinue hc] at h
    cases h
  have hnumeral : Scan.continuesNumeral c = false := by
    rcases mem_quoteMarks h with rfl | rfl | rfl <;> decide
  cases st with
  | between => simp [Scan.words, henter]
  | numeral => simp [Scan.words, henter, hnumeral]
  | word reversed => simp [Scan.words, henter, hname]
  | quoted quote => exact hst.elim
  | escaped quote => exact hst.elim

/-! ### Symbols -/

/-- The characters that symbols are made of, but for the point. -/
def symbolChars : List Char := "()[]{},:;?+-*/%<>!=&|".toList

theorem breaks_of_mem_symbolChars {c : Char} (h : c ∈ symbolChars) : breaks c = true := by
  have hall : symbolChars.all breaks = true := by decide
  exact List.all_eq_true.1 hall c h

/-- What follows a symbol other than a point, some of whose characters may have been read. -/
inductive PassesSymbol : List Char → List Char → Prop
  | refl (cs : List Char) : PassesSymbol cs cs
  | cons {c : Char} {cs rest : List Char} (hc : c ∈ '.' :: symbolChars) (h : PassesSymbol cs rest) :
    PassesSymbol (c :: cs) rest

theorem words_of_passesSymbol {cs rest : List Char} (h : PassesSymbol cs rest) :
    Scan.words .between rest = Scan.words .between cs := by
  induction h with
  | refl => rfl
  | cons hc _ ih =>
    rw [ih]
    rcases List.mem_cons.1 hc with rfl | hc
    · rfl
    · rw [Scan.words, Scan.enter_of_breaks (breaks_of_mem_symbolChars hc)]

theorem passesSymbol_longer {cs rest : List Char} {short symbol : Symbol}
    {choices : List (Char × Symbol)} (hchoices : ∀ p ∈ choices, p.1 ∈ symbolChars)
    (h : longer cs short choices = (symbol, rest)) : PassesSymbol cs rest := by
  unfold longer at h
  split at h
  · cases h
    exact .refl []
  · split at h
    · next hlookup =>
      cases h
      obtain ⟨before, after, heq, -⟩ := List.lookup_eq_some_iff.1 hlookup
      exact .cons (List.mem_cons_of_mem _ (hchoices (_, symbol) (by simp [heq]))) (.refl _)
    · cases h
      exact .refl _

theorem passesSymbol_splitQuestion {cs rest : List Char} {symbol : Symbol}
    (h : splitQuestion cs = (symbol, rest)) : PassesSymbol cs rest := by
  unfold splitQuestion at h
  split at h
  · cases h
    exact .cons (by decide) (.refl _)
  · split at h
    · cases h
      exact .refl _
    · cases h
      exact .cons (by decide) (.refl _)
  · cases h
    exact .refl _

/-- A symbol is a point, or is made of other characters and perhaps a point after them. -/
theorem passesSymbol_splitSymbol {c : Char} {cs rest : List Char} {symbol : Symbol}
    (h : splitSymbol c cs = .ok (symbol, rest)) :
    (c = '.' ∧ symbol = .dot ∧ rest = cs) ∨ (c ∈ symbolChars ∧ PassesSymbol cs rest) := by
  have hlonger : ∀ {cs : List Char} {short : Symbol} {choices : List (Char × Symbol)},
      (∀ p ∈ choices, p.1 ∈ symbolChars) →
      (.ok (longer cs short choices) : Except Located _) = .ok (symbol, rest) →
      PassesSymbol cs rest := fun hchoices h => passesSymbol_longer hchoices (Except.ok.inj h)
  unfold splitSymbol at h
  split at h
  case h_1 | h_2 | h_3 | h_4 | h_5 | h_6 | h_7 | h_9 | h_10 =>
    cases h
    exact .inr ⟨by decide, .refl cs⟩
  case h_8 =>
    cases h
    exact .inl ⟨rfl, rfl, rfl⟩
  case h_11 => exact .inr ⟨by decide, passesSymbol_splitQuestion (Except.ok.inj h)⟩
  case h_12 | h_13 | h_14 | h_15 | h_16 | h_17 | h_18 =>
    exact .inr ⟨by decide, hlonger (by decide) h⟩
  case h_19 =>
    refine .inr ⟨by decide, ?_⟩
    split at h
    · exact .cons (by decide) (hlonger (by decide) h)
    · cases h
      exact .refl _
  case h_20 =>
    refine .inr ⟨by decide, ?_⟩
    split at h
    · exact .cons (by decide) (hlonger (by decide) h)
    · cases h
    · cases h
      exact .refl _
  case h_21 | h_22 =>
    refine .inr ⟨by decide, ?_⟩
    split at h
    · cases h
      exact .cons (by decide) (.refl _)
    · cases h
  case h_23 => cases h

/-! ### Tokens -/

/-- Whether a name right after the token is never a variable. -/
def Syntax.TokenKind.hidesName : TokenKind → Bool
  | .number _ | .symbol .dot => true
  | _ => false

/-- The names among tokens that do not come right after a number or a point.  The flag says whether
such a token comes before them. -/
def openNames : Bool → List Token → List String
  | _, [] => []
  | hidden, t :: rest =>
    match t.kind with
    | .name n => if hidden then openNames false rest else n :: openNames false rest
    | kind => openNames kind.hidesName rest

/-- Where the search can be at the start of a token.  In a numeral or a word it may swallow the
characters to come, so then either the next name is hidden or no name comes next. -/
structure Scan.At (st : Scan) (hidden : Bool) (cs : List Char) : Prop where
  loose : st.Loose
  next : st = .between ∨ hidden = true ∨ ∀ c ∈ cs.head?, isNameStart c = false

theorem Scan.at_between (hidden : Bool) (cs : List Char) : Scan.between.At hidden cs :=
  ⟨trivial, .inl rfl⟩

/-- A name token is found by the search if it is open. -/
theorem words_of_name {c : Char} {cs : List Char} (hc : isNameStart c = true) {st : Scan}
    {hidden : Bool} (hst : st.At hidden (c :: cs)) :
    ∃ st' : Scan, st'.At false (cs.dropWhile isNameContinue) ∧
      Scan.words st' (cs.dropWhile isNameContinue) ⊆ Scan.words st (c :: cs) ∧
      (hidden = false →
        String.ofList (c :: cs.takeWhile isNameContinue) ∈ Scan.words st (c :: cs)) := by
  have hcontinue := isNameContinue_of_isNameStart hc
  rcases hst.next with rfl | hhidden | hstart
  · have henter : Scan.enter c = .word [c] := by
      simp [Scan.enter, isQuote_of_isNameContinue hcontinue, isDigit_of_isNameStart hc, hc]
    refine ⟨.between, Scan.at_between _ _, ?_, fun _ => ?_⟩
    · simp [Scan.words, henter, Scan.words_word]
    · simp [Scan.words, henter, Scan.words_word]
  · obtain ⟨st', hst', hsub⟩ := Scan.words_of_passes
      (Scan.Passes.cons (isQuote_of_isNameContinue hcontinue)
        (Scan.Passes.dropWhile (fun _ => isQuote_of_isNameContinue) cs)) hst.loose
    refine ⟨st', ⟨hst', .inr (.inr fun d hd => ?_)⟩, hsub,
      fun h => absurd (hhidden.symm.trans h) (by decide)⟩
    have hd' : isNameContinue d = false := by
      simpa [Option.mem_def.1 hd] using List.head?_dropWhile_not isNameContinue cs
    rw [Bool.eq_false_iff]
    intro hd''
    rw [isNameContinue_of_isNameStart hd''] at hd'
    cases hd'
  · rw [hstart c rfl] at hc
    cases hc

/-- What the search makes of what stands before a token. -/
theorem words_before_token {broken broken' hidden : Bool} {cs next : List Char}
    (hskip : skipTrivia .plain broken cs = .ok (broken', next))
    (hquiet : ∀ c ∈ commentText .plain cs, Scan.isQuote c = false) {st : Scan}
    (hst : st.At hidden cs) :
    next = [] ∨ ∃ st' : Scan, st'.At hidden next ∧ Scan.words st' next ⊆ Scan.words st cs := by
  by_cases hsame : next = cs
  · exact .inr ⟨st, hsame ▸ hst, hsame ▸ List.Subset.refl _⟩
  cases cs with
  | nil => exact .inl (by cases hskip; rfl)
  | cons c cs =>
    have hbreaks := breaks_of_skipTrivia hskip hsame
    refine (words_of_skipTrivia hskip hquiet (Scan.followsTrivia_between _)).imp_right fun hsub =>
      ⟨.between, Scan.at_between _ _, List.Subset.trans hsub ?_⟩
    rw [Scan.words, Scan.enter_of_breaks hbreaks]
    exact Scan.words_of_breaks hst.loose hbreaks

/-- What the search makes of one token: it is at the start of the next one, and has found the token
if that is an open name. -/
theorem words_of_splitLexeme {c : Char} {cs rest : List Char} {kind : TokenKind}
    (h : splitLexeme c cs = .ok (kind, rest)) {st : Scan} {hidden : Bool}
    (hst : st.At hidden (c :: cs)) :
    ∃ st' : Scan, st'.At kind.hidesName rest ∧ Scan.words st' rest ⊆ Scan.words st (c :: cs) ∧
      ∀ n, kind = .name n → hidden = false → n ∈ Scan.words st (c :: cs) := by
  unfold splitLexeme at h
  split at h
  · next hc =>
    cases h
    obtain ⟨st', hst', hsub, hfound⟩ := words_of_name hc hst
    exact ⟨st', hst', hsub, fun n hn hhidden => by cases hn; exact hfound hhidden⟩
  · split at h
    · obtain ⟨⟨x, rfl⟩, hpasses⟩ := passes_splitNumberToken h
      obtain ⟨st', hst', hsub⟩ := Scan.words_of_passes hpasses hst.loose
      exact ⟨st', ⟨hst', .inr (.inl rfl)⟩, hsub, fun n hn => nomatch hn⟩
    · split at h
      · next hquote =>
        have hquote : Scan.isQuote c = true := by rcases hquote with rfl | rfl <;> decide
        cases hread : splitString c (c :: cs) .plain cs with
        | error e =>
          rw [hread] at h
          cases h
        | ok result =>
          rw [hread] at h
          cases h
          refine ⟨.between, Scan.at_between _ _, ?_, fun n hn => nomatch hn⟩
          rw [← words_of_splitString hquote hread]
          exact words_of_quote hquote cs hst.loose
      · cases hsymbol : splitSymbol c cs with
        | error e =>
          rw [hsymbol] at h
          cases h
        | ok result =>
          rw [hsymbol] at h
          cases h
          rcases passesSymbol_splitSymbol hsymbol with ⟨rfl, hdot, hrest⟩ | ⟨hc, hpasses⟩
          · have hdotQuote : Scan.isQuote '.' = false := by decide
            obtain ⟨st', hst', hsub⟩ := Scan.words_of_not_isQuote hst.loose hdotQuote cs
            rw [hdot, hrest]
            exact ⟨st', ⟨hst', .inr (.inl rfl)⟩, hsub, fun n hn => nomatch hn⟩
          · refine ⟨.between, Scan.at_between _ _, ?_, fun n hn => nomatch hn⟩
            rw [words_of_passesSymbol hpasses]
            exact Scan.words_of_breaks hst.loose (breaks_of_mem_symbolChars hc)

/-- From the start of a token on, the search finds the open names among the tokens to come. -/
theorem openNames_subset {fuel : Nat} {cs : List Char} {tokens : List Token}
    (h : tokensFrom fuel cs = .ok tokens)
    (hquiet : ∀ c ∈ commentsFrom fuel cs, Scan.isQuote c = false) {st : Scan} {hidden : Bool}
    (hst : st.At hidden cs) : openNames hidden tokens ⊆ Scan.words st cs := by
  induction fuel generalizing cs tokens st hidden with
  | zero =>
    cases h
    simp [openNames]
  | succ fuel ih =>
    simp only [tokensFrom] at h
    rcases hskip : skipTrivia .plain false cs with e | ⟨broken, next⟩
    · rw [hskip] at h
      cases h
    rw [hskip] at h
    simp only [commentsFrom, hskip] at hquiet
    cases next with
    | nil =>
      cases h
      simp [openNames]
    | cons c rest =>
      rcases hlexeme : splitLexeme c rest with e | ⟨kind, rest'⟩
      · simp only [hlexeme, bind, Except.bind] at h
        cases h
      rcases hmore : tokensFrom fuel rest' with e | more
      · simp only [hlexeme, hmore, bind, Except.bind] at h
        cases h
      simp only [hlexeme, hmore, bind, Except.bind, pure, Except.pure, Except.ok.injEq] at h
      subst h
      simp only [hlexeme, List.mem_append, or_imp, forall_and] at hquiet
      rcases words_before_token hskip hquiet.1 hst with hnil | ⟨st', hst', hsub⟩
      · cases hnil
      obtain ⟨st'', hst'', hsub', hfound⟩ := words_of_splitLexeme hlexeme hst'
      have hrest := List.Subset.trans (ih hmore hquiet.2 hst'') (List.Subset.trans hsub' hsub)
      simp only [openNames]
      split
      · next n =>
        split
        · exact hrest
        · next hhidden =>
          exact List.cons_subset.2 ⟨hsub (hfound n rfl (by simpa using hhidden)), hrest⟩
      · exact hrest

/-- If no comment has a quote in it, the search finds every open name of a text. -/
theorem openNames_subset_words {source : String} {tokens : List Token}
    (h : tokenize source = .ok tokens) (hquiet : QuietComments source) :
    openNames false tokens ⊆ Scan.words .between source.toList :=
  openNames_subset h hquiet (Scan.at_between _ _)

end LiveMarkup
