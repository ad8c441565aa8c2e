import LiveMarkup.Proofs.FaultPlaces
import LiveMarkup.Proofs.Partition

/-!
# Offsets

Offsets count bytes.  The tokens of a text come one after another, up to the end of the text, and
every place that a token or a fault has is one between two characters.

## Main definitions

* `Token.offset` — the number of bytes before a token.

## Main results

* `isValid_offsetOf` — the end of a text begins between two characters.
* `isSuffix_of_tokenize_error` — the faults of the lexer are in the text.
* `Partition.increasing`, `Partition.finish_last`, `Partition.name` — what tokens tell of the text.
* `tokens_and_faults_are_placed` — all of this for every text, and for all that is parsed.
-/

namespace LiveMarkup.Syntax

open Text Number

/-! ### Bytes -/

theorem utf8ByteSize_ofList (cs : List Char) :
    (String.ofList cs).utf8ByteSize = byteLength cs := by
  induction cs with
  | nil => rfl
  | cons c cs ih =>
    rw [String.ofList_cons, String.utf8ByteSize_append, String.utf8ByteSize_singleton, ih,
      byteLength_cons]

theorem byteLength_toList (source : String) : byteLength source.toList = source.utf8ByteSize := by
  rw [← utf8ByteSize_ofList, String.ofList_toList]

theorem byteLength_pos {cs : List Char} (h : cs ≠ []) : 0 < byteLength cs := by
  obtain ⟨c, cs, rfl⟩ := List.exists_cons_of_ne_nil h
  exact Nat.add_pos_left c.utf8Size_pos _

theorem offsetOf_append (before after : List Char) :
    offsetOf (before ++ after) after = byteLength before := by
  rw [offsetOf, byteLength_append, Nat.add_sub_cancel]

/-- The end of a text begins between two characters. -/
theorem isValid_offsetOf {source : String} {rest : List Char} (h : rest <:+ source.toList) :
    (⟨offsetOf source.toList rest⟩ : String.Pos.Raw).IsValid source := by
  obtain ⟨before, hsource⟩ := h
  have hparts : source = String.ofList before ++ String.ofList rest := by
    rw [← String.ofList_append, hsource, String.ofList_toList]
  have hoffset : (⟨offsetOf source.toList rest⟩ : String.Pos.Raw) =
      (String.ofList before).rawEndPos := by
    rw [← hsource, offsetOf_append, ← utf8ByteSize_ofList]
    rfl
  rw [hoffset, hparts]
  exact String.Pos.Raw.isValid_rawEndPos.append_right _

/-- The number of bytes before a token. -/
def Token.offset (source : String) (t : Token) : Nat := offsetOf source.toList t.place

/-! ### Faults of the lexer -/

theorem suffix_of_cons {c : Char} {cs source : List Char} (h : c :: cs <:+ source) :
    cs <:+ source :=
  (List.suffix_cons c cs).trans h

/-- The text from the opening mark of a comment on is the end of another text. -/
def Trivia.Within (source : List Char) : Trivia → Prop
  | .plain | .line => True
  | .block opened => opened <:+ source

theorem isSuffix_of_skipTrivia_error {source cs : List Char} {trivia : Trivia} {broken : Bool}
    {e : Located} (h : skipTrivia trivia broken cs = .error e) (hcs : cs <:+ source)
    (htrivia : trivia.Within source) : e.2 <:+ source := by
  fun_induction skipTrivia trivia broken cs with
  | case1 | case6 | case7 => cases h
  | case2 broken cs ih => exact ih h (suffix_of_cons (suffix_of_cons hcs)) trivial
  | case3 broken cs ih => exact ih h (suffix_of_cons (suffix_of_cons hcs)) hcs
  | case4 broken c cs _ _ _ ih => exact ih h (suffix_of_cons hcs) trivial
  | case5 broken c cs _ _ _ _ ih => exact ih h (suffix_of_cons hcs) trivial
  | case8 broken cs ih => exact ih h (suffix_of_cons hcs) trivial
  | case9 broken c cs _ ih => exact ih h (suffix_of_cons hcs) trivial
  | case10 opened broken =>
    cases h
    exact htrivia
  | case11 opened broken cs ih => exact ih h (suffix_of_cons (suffix_of_cons hcs)) trivial
  | case12 opened broken c cs _ ih => exact ih h (suffix_of_cons hcs) htrivia

/-- The text from the last backslash on is the end of another text. -/
def StringPart.Within (source : List Char) : StringPart → Prop
  | .plain => True
  | .escaped start | .code start _ _ | .braced start _ => start <:+ source

theorem error_of_consRead {d : Char} {read : Except Located (List Char × List Char)} {e : Located}
    (h : consRead d read = .error e) : read = .error e := by
  cases read with
  | ok result => cases h
  | error e' => exact h

theorem isSuffix_of_splitString_error {source opened cs : List Char} {quote : Char}
    {part : StringPart} {e : Located} (h : splitString quote opened part cs = .error e)
    (hopened : opened <:+ source) (hcs : cs <:+ source) (hpart : part.Within source) :
    e.2 <:+ source := by
  fun_induction splitString quote opened part cs with
  | case1 | case2 | case6 =>
    cases h
    exact hopened
  | case3 | case4 | case14 | case16 | case18 | case20 =>
    cases h
    exact hpart
  | case5 => cases h
  | case7 cs _ _ ih => exact ih h (suffix_of_cons hcs) hcs
  | case8 c cs _ _ _ ih => exact ih (error_of_consRead h) (suffix_of_cons hcs) trivial
  | case9 start cs ih => exact ih h (suffix_of_cons hcs) hpart
  | case10 start cs _ ih => exact ih h (suffix_of_cons hcs) trivial
  | case11 start c cs _ _ ih => exact ih (error_of_consRead h) (suffix_of_cons hcs) trivial
  | case12 start digits left c cs _ ih => exact ih h (suffix_of_cons hcs) hpart
  | case13 start digits left c cs _ _ _ d _ ih =>
    exact ih (error_of_consRead h) (suffix_of_cons hcs) trivial
  | case15 start digits left c cs _ _ _ ih => exact ih h (suffix_of_cons hcs) hpart
  | case17 start digits cs d _ ih => exact ih (error_of_consRead h) (suffix_of_cons hcs) trivial
  | case19 start digits c cs _ _ ih => exact ih h (suffix_of_cons hcs) hpart

theorem place_of_splitNumberToken {cs : List Char} {e : Located}
    (h : splitNumberToken cs = .error e) : e.2 = cs := by
  unfold splitNumberToken at h
  split at h
  · split at h <;> cases h
    rfl
  · dsimp only at h
    split at h
    · cases h
      rfl
    · split at h <;> cases h
      rfl

theorem place_of_splitSymbol {c : Char} {cs : List Char} {e : Located}
    (h : splitSymbol c cs = .error e) : e.2 = c :: cs := by
  unfold splitSymbol at h
  split at h
  case h_19 => split at h <;> cases h
  case h_20 | h_21 | h_22 =>
    split at h <;> cases h
    rfl
  all_goals cases h
  rfl

theorem isSuffix_of_splitLexeme_error {c : Char} {cs : List Char} {e : Located}
    (h : splitLexeme c cs = .error e) : e.2 <:+ c :: cs := by
  unfold splitLexeme at h
  split at h
  · cases h
  · split at h
    · exact place_of_splitNumberToken h ▸ List.suffix_refl _
    · split at h
      · cases hread : splitString c (c :: cs) .plain cs with
        | ok result =>
          rw [hread] at h
          cases h
        | error e' =>
          rw [hread] at h
          cases h
          exact isSuffix_of_splitString_error hread (List.suffix_refl _) (List.suffix_cons _ _)
            trivial
      · cases hsymbol : splitSymbol c cs with
        | ok result =>
          rw [hsymbol] at h
          cases h
        | error e' =>
          rw [hsymbol] at h
          cases h
          exact place_of_splitSymbol hsymbol ▸ List.suffix_refl _

theorem isSuffix_of_tokensFrom_error {fuel : Nat} {cs : List Char} {e : Located}
    (h : tokensFrom fuel cs = .error e) : e.2 <:+ cs := by
  induction fuel generalizing cs with
  | zero => cases h
  | succ fuel ih =>
    simp only [tokensFrom] at h
    rcases hskip : skipTrivia .plain false cs with e' | ⟨broken, next⟩
    · rw [hskip] at h
      cases h
      exact isSuffix_of_skipTrivia_error hskip (List.suffix_refl _) trivial
    · have hnext := isSuffix_of_skipTrivia hskip
      rw [hskip] at h
      cases next with
      | nil => cases h
      | cons c rest =>
        rcases hlexeme : splitLexeme c rest with e' | ⟨kind, rest'⟩
        · simp only [hlexeme, bind, Except.bind] at h
          cases h
          exact (isSuffix_of_splitLexeme_error hlexeme).trans hnext
        · obtain ⟨lexeme, heq, -⟩ := lexeme_of_splitLexeme hlexeme
          have hrest : rest' <:+ cs := (heq ▸ List.suffix_append lexeme rest').trans hnext
          rcases hmore : tokensFrom fuel rest' with e' | more
          · simp only [hlexeme, hmore, bind, Except.bind] at h
            cases h
            exact (ih hmore).trans hrest
          · simp only [hlexeme, hmore, bind, Except.bind] at h
            cases h

/-- The faults of the lexer are in the text. -/
theorem isSuffix_of_tokenize_error {source : String} {e : Located}
    (h : tokenize source = .error e) : e.2 <:+ source.toList :=
  isSuffix_of_tokensFrom_error h

/-! ### Faults of the parser -/

theorem Spelled.within {cs : List Char} {tokens : List Token} (h : Spelled cs tokens) :
    ∀ t ∈ tokens, t.place <:+ cs := by
  induction h with
  | finish =>
    rintro t ht
    obtain rfl := List.mem_singleton.1 ht
    exact List.nil_suffix
  | token hskip hlexeme _ ih =>
    have hnext := isSuffix_of_skipTrivia hskip
    obtain ⟨lexeme, heq, -⟩ := lexeme_of_splitLexeme hlexeme
    intro t ht
    rcases List.mem_cons.1 ht with rfl | ht
    · exact hnext
    · exact (ih t ht).trans ((heq ▸ List.suffix_append lexeme _).trans hnext)

/-- The faults of a text are in the text, whatever the parameters and the mode. -/
theorem isValid_offset_of_parse {source : String} {params : List String} {mode : Mode}
    {e : SyntaxError} (h : parse source params mode = .error e) :
    (⟨e.offset⟩ : String.Pos.Raw).IsValid source := by
  rw [parse_eq, located] at h
  cases htokens : tokenize source with
  | error fault =>
    rw [htokens] at h
    cases h
    exact isValid_offsetOf (isSuffix_of_tokenize_error htokens)
  | ok tokens =>
    have hparser : Points source.toList (wholeText mode) := points_wholeText mode
    have hpoints := hparser (.start params tokens) (tokenize_eq_ok.1 htokens).within
    rw [htokens] at h
    cases hrun : (wholeText mode).run (.start params tokens) with
    | error fault =>
      simp only [Except.bind, hrun] at h hpoints
      cases h
      exact isValid_offsetOf hpoints
    | ok result =>
      simp only [Except.bind, hrun] at h
      cases h

/-! ### Tokens in a text -/

namespace Partition

variable {cs : List Char} {tokens : List Token}

theorem within (h : Partition cs tokens) : ∀ t ∈ tokens, t.place <:+ cs := by
  induction h with
  | finish =>
    intro t ht
    obtain rfl := List.mem_singleton.1 ht
    exact List.nil_suffix
  | token _ _ _ ih =>
    intro t ht
    rcases List.mem_cons.1 ht with rfl | ht
    · rw [List.append_assoc]
      exact List.suffix_append _ _
    · exact (ih t ht).trans (List.suffix_append _ _)

/-- Less and less text is left. -/
theorem decreasing (h : Partition cs tokens) :
    tokens.Pairwise fun t u => byteLength u.place < byteLength t.place := by
  induction h with
  | finish => exact List.pairwise_singleton ..
  | token _ hlexeme h ih =>
    refine List.pairwise_cons.2 ⟨fun u hu => ?_, ih⟩
    obtain ⟨before, rfl⟩ := h.within u hu
    have hpos := byteLength_pos hlexeme.ne_nil
    simp only [byteLength_append]
    omega

/-- Each token comes after the one before it. -/
theorem increasing {source : String} (h : Partition source.toList tokens) :
    (tokens.map (Token.offset source)).Pairwise (· < ·) := by
  refine List.pairwise_map.2 (h.decreasing.imp_of_mem fun ht _ hlt => ?_)
  obtain ⟨before, heq⟩ := h.within _ ht
  have hle := congrArg byteLength heq
  rw [byteLength_append] at hle
  unfold Token.offset offsetOf
  omega

/-- The last token stands where the text ends, and no other is the end. -/
theorem finish_last (h : Partition cs tokens) : ∃ before broken,
    tokens = before ++ [⟨.finish, [], broken⟩] ∧ ∀ t ∈ before, t.kind.isFinish = false := by
  induction h with
  | finish => exact ⟨[], _, rfl, nofun⟩
  | token _ hlexeme _ ih =>
    obtain ⟨before, broken, rfl, hbefore⟩ := ih
    refine ⟨_ :: before, broken, rfl, List.forall_mem_cons.2 ⟨?_, hbefore⟩⟩
    cases hlexeme <;> rfl

/-- A name is the text from its place on as far as a name goes. -/
theorem name (h : Partition cs tokens) {t : Token} (ht : t ∈ tokens) {name : String}
    (hname : t.kind = .name name) : ∃ after, t.place = name.toList ++ after ∧
      isName name = true ∧ ∀ c ∈ after.head?, isNameContinue c = false := by
  induction h with
  | finish =>
    obtain rfl := List.mem_singleton.1 ht
    cases hname
  | token _ hlexeme _ ih =>
    rcases List.mem_cons.1 ht with rfl | ht
    · cases hname
      cases hlexeme with
      | name hc hcs hrest =>
        exact ⟨_, by rw [String.toList_ofList], isName_ofList.2 ⟨hc, hcs⟩, hrest⟩
    · exact ih ht

end Partition

/-- Tokens and faults have their places in the text, for all texts:

* A text that has tokens is made of them and of white space and comments between them, without gaps.
  The offsets of tokens increase.  The last token is the end of the text, and stands at its length
  in bytes.  A name is the text at its offset, as far as characters of names go.
* A text that has no tokens or does not parse has an offset for its fault, which is not past its
  end and lies between two characters, for all parameters in both modes. -/
theorem tokens_and_faults_are_placed (source : String) :
    (∀ tokens, tokenize source = .ok tokens →
      Partition source.toList tokens ∧
      (tokens.map (Token.offset source)).Pairwise (· < ·) ∧
      (∃ before finish, tokens = before ++ [finish] ∧ finish.kind = .finish ∧
        finish.offset source = source.utf8ByteSize ∧ ∀ t ∈ before, t.kind ≠ .finish) ∧
      ∀ t ∈ tokens, ∀ name, t.kind = .name name → ∃ before after,
        source.toList = before ++ name.toList ++ after ∧ byteLength before = t.offset source ∧
        isName name = true ∧ ∀ c ∈ after.head?, isNameContinue c = false) ∧
    ∀ params mode e, parse source params mode = .error e →
      e.offset ≤ source.utf8ByteSize ∧ (⟨e.offset⟩ : String.Pos.Raw).IsValid source := by
  refine ⟨fun tokens htokens => ?_, fun params mode e herror => ?_⟩
  · have hpartition := partition_of_spelled (tokenize_eq_ok.1 htokens)
    refine ⟨hpartition, hpartition.increasing, ?_, fun t ht name hname => ?_⟩
    · obtain ⟨before, broken, rfl, hbefore⟩ := hpartition.finish_last
      refine ⟨before, _, rfl, rfl, ?_, fun t ht hfinish => ?_⟩
      · exact byteLength_toList source
      · have hnot := hbefore t ht
        rw [hfinish] at hnot
        cases hnot
    · obtain ⟨after, hplace, hisName, hafter⟩ := hpartition.name ht hname
      obtain ⟨before, hbefore⟩ := hpartition.within t ht
      refine ⟨before, after, ?_, ?_, hisName, hafter⟩
      · rw [← hbefore, hplace, List.append_assoc]
      · rw [Token.offset, ← hbefore, offsetOf_append]
  · have hvalid := isValid_offset_of_parse herror
    exact ⟨hvalid.le_utf8ByteSize, hvalid⟩

/-- Letters that take two bytes stand before the fault, in a name and in a comment. -/
theorem stray_bracket_is_placed :
    (∃ tokens, tokenize "é /*ß*/ ]" = .ok tokens ∧ Partition "é /*ß*/ ]".toList tokens ∧
      (tokens.map (Token.offset "é /*ß*/ ]")).Pairwise (· < ·)) ∧
    ∃ e, parse "é /*ß*/ ]" [] .expression = .error e ∧ e.offset = 10 ∧
      (⟨10⟩ : String.Pos.Raw).IsValid "é /*ß*/ ]" := by
  obtain ⟨htokens, hfaults⟩ := tokens_and_faults_are_placed "é /*ß*/ ]"
  constructor
  · have hreads : (tokenize "é /*ß*/ ]").isOk = true := by decide +kernel
    cases htokenize : tokenize "é /*ß*/ ]" with
    | error e =>
      rw [htokenize] at hreads
      cases hreads
    | ok tokens =>
      obtain ⟨hpartition, hincreasing, -⟩ := htokens tokens htokenize
      exact ⟨tokens, rfl, hpartition, hincreasing⟩
  · have hoffset : (match parse "é /*ß*/ ]" [] .expression with
        | .ok _ => none
        | .error e => some e.offset) = some 10 := by decide +kernel
    cases hparse : parse "é /*ß*/ ]" [] .expression with
    | ok program =>
      rw [hparse] at hoffset
      cases hoffset
    | error e =>
      rw [hparse] at hoffset
      obtain hten : e.offset = 10 := Option.some.inj hoffset
      exact ⟨e, rfl, hten, hten ▸ (hfaults [] .expression e hparse).2⟩

end LiveMarkup.Syntax
