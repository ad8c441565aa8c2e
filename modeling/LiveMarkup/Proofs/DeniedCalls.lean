import LiveMarkup.Proofs.DirectCalls

/-!
# Which calls are refused

A text is refused for the leftmost call of a denied name that stands at its start or after a
character that ends a word.  At one place at most one name is called, as the call goes on with white
space or a parenthesis, which no name has in it.  The characters that end a word are those that
cannot continue a name as long as they are ASCII, but not beyond: a superscript two continues a name
and ends a word, and a combining accent does neither.

## Main definitions

* `CallAt` — a name that is called in a text, after the text before it.
* `FirstCall` — the leftmost call of one of several names.
* `Validator.RefusesCalls` — the calls that a validator refuses in a text.

## Main results

* `Validator.refusesCalls` — what a text is refused for.
* `Validator.ofNames_eq_ok` — a validator for names denies just these.
* `leftmost_call_is_refused` — the calls that are refused, after the end of a word or, where the two
  agree, after the end of a name.
-/

namespace LiveMarkup

open Syntax Text

/-! ### Calls in a text -/

/-- After the text before it, which is empty or ends as given, there is a call of the name. -/
structure CallAt (ends : Char → Bool) (text before : List Char) (name : String) : Prop where
  boundary : ∀ c ∈ before.getLast?, ends c = true
  call : ∃ white rest, (∀ c ∈ white, isBlank c = true) ∧
    text = before ++ name.toList ++ white ++ '(' :: rest

/-- The leftmost call of one of the names. -/
structure FirstCall (ends : Char → Bool) (names : List String) (text before : List Char)
    (name : String) : Prop where
  denied : name ∈ names
  call : CallAt ends text before name
  first : ∀ before', ∀ name' ∈ names, CallAt ends text before' name' →
    before.length ≤ before'.length

theorem opensCall_iff {cs : List Char} :
    opensCall cs = true ↔ ∃ white rest, (∀ c ∈ white, isBlank c = true) ∧
      cs = white ++ '(' :: rest := by
  unfold opensCall trimStart
  rw [beq_iff_eq]
  constructor
  · intro h
    obtain ⟨rest, hrest⟩ := List.head?_eq_some_iff.1 h
    refine ⟨cs.takeWhile isBlank, rest, List.all_eq_true.1 List.all_takeWhile, ?_⟩
    rw [← hrest, List.takeWhile_append_dropWhile]
  · rintro ⟨white, rest, hwhite, rfl⟩
    rw [List.dropWhile_append_of_pos hwhite]
    rfl

theorem beginsWithCall_iff {cs : List Char} {name : String} :
    beginsWithCall cs name = true ↔ ∃ white rest, (∀ c ∈ white, isBlank c = true) ∧
      cs = name.toList ++ white ++ '(' :: rest := by
  constructor
  · intro h
    obtain ⟨hname, hopens⟩ := Bool.and_eq_true_iff.1 h
    obtain ⟨more, rfl⟩ := List.isPrefixOf_iff_prefix.1 hname
    rw [List.drop_left] at hopens
    obtain ⟨white, rest, hwhite, rfl⟩ := opensCall_iff.1 hopens
    exact ⟨white, rest, hwhite, (List.append_assoc ..).symm⟩
  · rintro ⟨white, rest, hwhite, rfl⟩
    exact beginsWithCall_append hwhite

theorem callAt_iff {ends : Char → Bool} {text before : List Char} {name : String} :
    CallAt ends text before name ↔ (∀ c ∈ before.getLast?, ends c = true) ∧
      ∃ after, text = before ++ after ∧ beginsWithCall after name = true := by
  constructor
  · rintro ⟨hboundary, white, rest, hwhite, rfl⟩
    exact ⟨hboundary, name.toList ++ white ++ '(' :: rest, by simp, beginsWithCall_append hwhite⟩
  · rintro ⟨hboundary, after, rfl, h⟩
    obtain ⟨white, rest, hwhite, rfl⟩ := beginsWithCall_iff.1 h
    exact ⟨hboundary, white, rest, hwhite, by simp⟩

theorem isNameContinue_of_isBlank {c : Char} (h : isBlank c = true) : isNameContinue c = false := by
  have hbreaks := breaks_of_isBlank h
  simp only [breaks, Bool.and_eq_true, Bool.not_eq_true'] at hbreaks
  exact hbreaks.1.2

theorem isNameContinue_of_isName {name : String} (h : isName name = true) :
    ∀ c ∈ name.toList, isNameContinue c = true := by
  unfold isName at h
  split at h
  · cases h
  · next c cs heq =>
    obtain ⟨hc, hcs⟩ := Bool.and_eq_true_iff.1 h
    rw [heq]
    exact List.forall_mem_cons.2 ⟨isNameContinue_of_isNameStart hc, List.all_eq_true.1 hcs⟩

/-- The name that is called is as long as a name can be there. -/
theorem takeWhile_of_beginsWithCall {cs : List Char} {name : String} (hname : isName name = true)
    (h : beginsWithCall cs name = true) : cs.takeWhile isNameContinue = name.toList := by
  obtain ⟨white, rest, hwhite, rfl⟩ := beginsWithCall_iff.1 h
  -- neither white space nor a parenthesis continues the name
  have hend : (white ++ '(' :: rest).takeWhile isNameContinue = [] := by
    cases white with
    | nil => rfl
    | cons c white =>
      exact List.takeWhile_cons_of_neg
        (Bool.eq_false_iff.1 (isNameContinue_of_isBlank (hwhite c List.mem_cons_self)))
  rw [List.append_assoc, List.takeWhile_append_of_pos (isNameContinue_of_isName hname), hend,
    List.append_nil]

/-- At one place at most one name is called. -/
theorem eq_of_beginsWithCall {cs : List Char} {name name' : String} (hname : isName name = true)
    (hname' : isName name' = true) (h : beginsWithCall cs name = true)
    (h' : beginsWithCall cs name' = true) : name = name' :=
  String.toList_inj.1 <|
    (takeWhile_of_beginsWithCall hname h).symm.trans (takeWhile_of_beginsWithCall hname' h')

/-- There is one leftmost call. -/
theorem FirstCall.name_eq {ends : Char → Bool} {names : List String}
    {text before before' : List Char} {name name' : String}
    (hnames : ∀ name ∈ names, isName name = true)
    (h : FirstCall ends names text before name) (h' : FirstCall ends names text before' name') :
    name = name' := by
  have hlength : before.length = before'.length :=
    Nat.le_antisymm (h.first _ _ h'.denied h'.call) (h'.first _ _ h.denied h.call)
  obtain ⟨-, after, heq, hcall⟩ := callAt_iff.1 h.call
  obtain ⟨-, after', heq', hcall'⟩ := callAt_iff.1 h'.call
  obtain ⟨-, rfl⟩ := List.append_inj (heq.symm.trans heq') hlength
  exact eq_of_beginsWithCall (hnames _ h.denied) (hnames _ h'.denied) hcall hcall'

/-! ### The search -/

namespace Validator

variable {v : Validator}

/-- The denied name whose call the rest of a text begins with, if what is before it ends a word. -/
def deniedAfter? (v : Validator) (before cs : List Char) : Option String :=
  if before.getLast?.all endsWord then v.deniedHere? cs else none

theorem deniedAfter?_eq_some (hnames : ∀ name ∈ v.names, isName name = true)
    {before after : List Char} {name : String} :
    v.deniedAfter? before after = some name ↔
      name ∈ v.names ∧ CallAt endsWord (before ++ after) before name := by
  have hhere : v.deniedHere? after = some name ↔
      name ∈ v.names ∧ beginsWithCall after name = true := by
    refine ⟨fun h => ⟨List.mem_of_find?_eq_some h, List.find?_some h⟩, fun ⟨hmem, hcall⟩ => ?_⟩
    -- the first name that is called there is the only one
    obtain ⟨found, hfound⟩ := Option.isSome_iff_exists.1 (List.find?_isSome.2 ⟨name, hmem, hcall⟩)
    rw [deniedHere?, hfound, eq_of_beginsWithCall (hnames _ (List.mem_of_find?_eq_some hfound))
      (hnames _ hmem) (List.find?_some hfound) hcall]
  have hboundary : before.getLast?.all endsWord = true ↔
      ∀ c ∈ before.getLast?, endsWord c = true := by
    cases before.getLast? <;> simp
  rw [callAt_iff, ← hboundary]
  unfold deniedAfter?
  split
  · next hends => simp [hends, hhere]
  · next hends => simp [hends]

/-- A character more is searched after. -/
theorem deniedLater?_cons (v : Validator) (before : List Char) (c : Char) (cs : List Char) :
    v.deniedLater? (c :: cs) =
      (v.deniedAfter? (before ++ [c]) cs).or (v.deniedLater? cs) := by
  simp [deniedLater?, deniedAfter?]

/-- The search finds nothing only if there is nothing to be found. -/
theorem deniedAfter?_eq_none {before cs : List Char}
    (h : (v.deniedAfter? before cs).or (v.deniedLater? cs) = none) {more after : List Char}
    (heq : cs = more ++ after) : v.deniedAfter? (before ++ more) after = none := by
  induction more generalizing before cs with
  | nil =>
    subst heq
    rw [List.append_nil]
    exact (Option.or_eq_none_iff.1 h).1
  | cons c more ih =>
    subst heq
    have hlater := (Option.or_eq_none_iff.1 h).2
    rw [List.cons_append, deniedLater?_cons v before] at hlater
    simpa using ih hlater rfl

/-- The search finds what is leftmost. -/
theorem deniedAfter?_first {before cs : List Char} {name : String}
    (h : (v.deniedAfter? before cs).or (v.deniedLater? cs) = some name) :
    ∃ more after, cs = more ++ after ∧ v.deniedAfter? (before ++ more) after = some name ∧
      ∀ more' after', cs = more' ++ after' → v.deniedAfter? (before ++ more') after' ≠ none →
        more.length ≤ more'.length := by
  induction cs generalizing before with
  | nil =>
    rw [deniedLater?, Option.or_none] at h
    exact ⟨[], [], rfl, by rwa [List.append_nil], fun _ _ _ _ => Nat.zero_le _⟩
  | cons c cs ih =>
    rcases Option.or_eq_some_iff.1 h with hhere | ⟨hnone, hlater⟩
    · exact ⟨[], _, rfl, by rwa [List.append_nil], fun _ _ _ _ => Nat.zero_le _⟩
    · rw [deniedLater?_cons v before] at hlater
      obtain ⟨more, after, rfl, hfound, hfirst⟩ := ih hlater
      refine ⟨c :: more, after, rfl, by simpa using hfound, fun more' after' heq hcall => ?_⟩
      cases more' with
      | nil =>
        -- a call here would have been found first
        rw [List.append_nil, ← List.nil_append after', ← heq] at hcall
        exact absurd hnone hcall
      | cons d more' =>
        obtain ⟨rfl, htail⟩ := List.cons.inj heq
        exact Nat.succ_le_succ (hfirst more' after' htail (by simpa using hcall))

/-- The search begins with nothing before the text. -/
theorem firstDenied?_eq (v : Validator) (text : String) :
    v.firstDenied? text = (v.deniedAfter? [] text.toList).or (v.deniedLater? text.toList) := rfl

/-- What is found is the leftmost call of a denied name. -/
theorem firstCall_of_firstDenied? (hnames : ∀ name ∈ v.names, isName name = true)
    {text name : String} (h : v.firstDenied? text = some name) :
    ∃ before, FirstCall endsWord v.names text.toList before name := by
  rw [firstDenied?_eq] at h
  obtain ⟨before, after, heq, hfound, hfirst⟩ := deniedAfter?_first h
  rw [heq] at hfirst ⊢
  obtain ⟨hdenied, hcall⟩ := (deniedAfter?_eq_some hnames).1 hfound
  refine ⟨before, hdenied, hcall, fun before' name' hname' hcall' => ?_⟩
  obtain ⟨-, after', heq', -⟩ := callAt_iff.1 hcall'
  rw [heq'] at hcall'
  refine hfirst before' after' heq' ?_
  rw [List.nil_append, (deniedAfter?_eq_some hnames).2 ⟨hname', hcall'⟩]
  exact Option.some_ne_none name'

/-- If nothing is found there is no call of a denied name. -/
theorem not_callAt_of_firstDenied? (hnames : ∀ name ∈ v.names, isName name = true) {text : String}
    (h : v.firstDenied? text = none) (before : List Char) {name : String} (hname : name ∈ v.names) :
    ¬CallAt endsWord text.toList before name := by
  intro hcall
  rw [firstDenied?_eq] at h
  obtain ⟨-, after, heq, -⟩ := callAt_iff.1 hcall
  rw [heq] at hcall
  have hnone := deniedAfter?_eq_none h heq
  rw [List.nil_append, (deniedAfter?_eq_some hnames).2 ⟨hname, hcall⟩] at hnone
  cases hnone

end Validator

/-- A validator refuses the calls of the names that stand at the start of the text or after a
character that ends as given, and says which is the leftmost one. -/
structure Validator.RefusesCalls (v : Validator) (ends : Char → Bool) (names : List String)
    (text : String) : Prop where
  refused : (v.check text).isOk = false ↔
    ∃ before, ∃ name ∈ names, CallAt ends text.toList before name
  leftmost : ∀ call, v.check text = .error call ↔
    call.text = text ∧ ∃ before, FirstCall ends names text.toList before call.name

theorem Validator.refusesCalls {v : Validator} (hnames : ∀ name ∈ v.names, isName name = true)
    (text : String) : v.RefusesCalls endsWord v.names text := by
  rcases hfound : v.firstDenied? text with _ | name
  · have hcheck : v.check text = .ok () := by rw [check, hfound]
    have hnone := not_callAt_of_firstDenied? hnames hfound
    constructor
    · rw [hcheck]
      refine iff_of_false (by decide) ?_
      rintro ⟨before, name, hname, hcall⟩
      exact hnone before hname hcall
    · intro call
      rw [hcheck]
      refine iff_of_false nofun ?_
      rintro ⟨-, before, hfirst⟩
      exact hnone before hfirst.denied hfirst.call
  · have hcheck : v.check text = .error { text, name } := by rw [check, hfound]
    obtain ⟨before, hfirst⟩ := firstCall_of_firstDenied? hnames hfound
    constructor
    · rw [hcheck]
      exact iff_of_true rfl ⟨before, name, hfirst.denied, hfirst.call⟩
    · intro call
      rw [hcheck]
      constructor
      · rintro ⟨⟩
        exact ⟨rfl, before, hfirst⟩
      · rintro ⟨rfl, before', hfirst'⟩
        rw [hfirst.name_eq hnames hfirst']

/-! ### Lists of names -/

theorem trimmed_of_isName {name : String} (h : isName name = true) : trimmed name = name := by
  have hblank : ∀ c ∈ name.toList, isBlank c = false := by
    intro c hc
    rw [Bool.eq_false_iff]
    intro hblank
    have hcontinue := isNameContinue_of_isName h c hc
    rw [isNameContinue_of_isBlank hblank] at hcontinue
    cases hcontinue
  have hdrop : ∀ {cs : List Char}, (∀ c ∈ cs, isBlank c = false) → cs.dropWhile isBlank = cs := by
    intro cs hcs
    cases cs with
    | nil => rfl
    | cons c cs => exact List.dropWhile_cons_of_neg (Bool.eq_false_iff.1 (hcs c List.mem_cons_self))
  rw [trimmed, trim, trimEnd, trimStart, hdrop hblank,
    hdrop fun c hc => hblank c (List.mem_reverse.1 hc), List.reverse_reverse, String.ofList_toList]

theorem Validator.addNames_eq_ok {denied entries : List String}
    (hentries : ∀ e ∈ entries, isName e = true) :
    ∃ names, addNames denied entries = .ok names ∧
      ∀ name, name ∈ names ↔ name ∈ denied ∨ name ∈ entries := by
  induction entries generalizing denied with
  | nil => exact ⟨denied, rfl, by simp⟩
  | cons e entries ih =>
    obtain ⟨he, hmore⟩ := List.forall_mem_cons.1 hentries
    simp only [addNames, trimmed_of_isName he, he, if_true]
    split
    · next hmem =>
      obtain ⟨names, hnames, hiff⟩ := @ih denied hmore
      refine ⟨names, hnames, fun name => (hiff name).trans ?_⟩
      rw [List.contains_iff_mem] at hmem
      rw [List.mem_cons]
      constructor
      · exact Or.imp_right .inr
      · rintro (h | rfl | h)
        · exact .inl h
        · exact .inl hmem
        · exact .inr h
    · obtain ⟨names, hnames, hiff⟩ := @ih (denied ++ [e]) hmore
      refine ⟨names, hnames, fun name => (hiff name).trans ?_⟩
      simp [or_assoc]

/-- A validator for names denies just these. -/
theorem Validator.ofNames_eq_ok {entries : List String} (h : ∀ e ∈ entries, isName e = true) :
    ∃ v, ofNames entries = .ok v ∧ ∀ name, name ∈ v.names ↔ name ∈ entries := by
  obtain ⟨names, hnames, hiff⟩ := @addNames_eq_ok [] entries h
  refine ⟨⟨names⟩, by rw [ofNames, hnames]; rfl, fun name => (hiff name).trans ?_⟩
  simp

/-- The default names are given like others. -/
theorem Validator.ofNames_defaultDenylist : ofNames defaultDenylist = .ok standard := by
  decide +kernel

/-! ### Ends of words and of names -/

theorem CallAt.congr {ends ends' : Char → Bool} {text before : List Char} {name : String}
    (hends : ∀ c ∈ text, ends c = ends' c) (h : CallAt ends text before name) :
    CallAt ends' text before name := by
  obtain ⟨hboundary, white, rest, hwhite, rfl⟩ := h
  refine ⟨fun c hc => ?_, white, rest, hwhite, rfl⟩
  have hmem : c ∈ before := List.mem_of_getLast? hc
  rw [← hends c (by simp [hmem])]
  exact hboundary c hc

/-- What a validator refuses depends only on which names it denies, and on where the calls are. -/
theorem Validator.RefusesCalls.congr {v : Validator} {ends ends' : Char → Bool}
    {names names' : List String} {text : String} (hnames : ∀ name, name ∈ names ↔ name ∈ names')
    (hends : ∀ c ∈ text.toList, ends c = ends' c) (h : v.RefusesCalls ends names text) :
    v.RefusesCalls ends' names' text := by
  have hcall : ∀ {before : List Char} {name : String},
      CallAt ends text.toList before name ↔ CallAt ends' text.toList before name :=
    ⟨CallAt.congr hends, CallAt.congr fun c hc => (hends c hc).symm⟩
  have hfirst : ∀ {before : List Char} {name : String},
      FirstCall ends names text.toList before name ↔
        FirstCall ends' names' text.toList before name := by
    intro before name
    constructor
    · rintro ⟨hdenied, hat, hleast⟩
      exact ⟨(hnames _).1 hdenied, hcall.1 hat, fun before' name' hname' hat' =>
        hleast before' name' ((hnames _).2 hname') (hcall.2 hat')⟩
    · rintro ⟨hdenied, hat, hleast⟩
      exact ⟨(hnames _).2 hdenied, hcall.2 hat, fun before' name' hname' hat' =>
        hleast before' name' ((hnames _).1 hname') (hcall.1 hat')⟩
  constructor
  · simpa only [hnames, hcall] using h.refused
  · simpa only [hfirst] using h.leftmost

/-- Among ASCII characters those that end a word are those that cannot continue a name. -/
theorem endsWord_of_ascii {c : Char} (h : c.toNat < 128) : endsWord c = !isNameContinue c := by
  have hall : ∀ k < 128, endsWord (Char.ofNat k) = !isNameContinue (Char.ofNat k) := by
    decide +kernel
  exact forall_char_lt (P := fun c => endsWord c = !isNameContinue c) hall h

/-- A text is refused exactly if a denied name is called at its start or after the end of a word,
and for the leftmost such call.  If the characters of the text that end a word are those that cannot
continue a name, it is refused exactly for calls of names that stand on their own. -/
theorem leftmost_call_is_refused {entries : List String}
    (hentries : ∀ e ∈ entries, isName e = true) :
    ∃ v, Validator.ofNames entries = .ok v ∧ ∀ text : String,
      v.RefusesCalls endsWord entries text ∧
        ((∀ c ∈ text.toList, endsWord c = !isNameContinue c) →
          v.RefusesCalls (fun c => !isNameContinue c) entries text) := by
  obtain ⟨v, hv, hnames⟩ := Validator.ofNames_eq_ok hentries
  refine ⟨v, hv, fun text => ?_⟩
  have hrefuses := Validator.refusesCalls (fun name h => hentries _ ((hnames name).1 h)) text
  exact ⟨hrefuses.congr hnames fun _ _ => rfl, hrefuses.congr hnames⟩

/-- One of the names begins another, and one is called inside the call of the other. -/
theorem nested_calls_are_refused :
    ∃ v, Validator.ofNames ["eval", "evaluate"] = .ok v ∧
      v.RefusesCalls (fun c => !isNameContinue c) ["eval", "evaluate"] "evaluate (eval(x))" ∧
      v.check "evaluate (eval(x))" = .error ⟨"evaluate (eval(x))", "evaluate"⟩ := by
  have hnames : ∀ e ∈ ["eval", "evaluate"], isName e = true := by decide +kernel
  obtain ⟨v, hv, hrefuses⟩ := leftmost_call_is_refused hnames
  have hascii : "evaluate (eval(x))".toList.all (·.toNat < 128) = true := by decide +kernel
  refine ⟨v, hv, (hrefuses _).2 fun c hc => ?_, ?_⟩
  · exact endsWord_of_ascii (of_decide_eq_true (List.all_eq_true.1 hascii c hc))
  · obtain rfl : v = ⟨["eval", "evaluate"]⟩ := Except.ok.inj (hv.symm.trans (by decide +kernel))
    decide +kernel

/-- A superscript two ends a word and continues a name: a call of a longer name is refused.  An
accent does neither: the name after it is let through. -/
theorem ends_of_words_are_not_ends_of_names :
    Validator.ofNames ["eval"] = .ok ⟨["eval"]⟩ ∧ isName "x²eval" = true ∧
      Validator.check ⟨["eval"]⟩ "x²eval(1)" = .error ⟨"x²eval(1)", "eval"⟩ ∧
      (¬∃ before, CallAt (fun c => !isNameContinue c) "x²eval(1)".toList before "eval") ∧
      Validator.check ⟨["eval"]⟩ "\u0301eval(1)" = .ok () ∧
      CallAt (fun c => !isNameContinue c) "\u0301eval(1)".toList ['\u0301'] "eval" := by
  refine ⟨by decide +kernel, by decide +kernel, by decide +kernel, ?_, by decide +kernel, ?_⟩
  · rintro ⟨before, hcall⟩
    obtain ⟨hboundary, after, heq, hbegins⟩ := callAt_iff.1 hcall
    -- the only call begins after the superscript
    have hplace : ∀ n < 10, beginsWithCall ("x²eval(1)".toList.drop n) "eval" = true → n = 2 := by
      decide +kernel
    have hlength : before.length = 2 := by
      refine hplace _ ?_ (by rwa [heq, List.drop_left])
      have hle : before.length ≤ "x²eval(1)".toList.length := by simp [heq]
      exact Nat.lt_succ_of_le hle
    have hbefore : before = ['x', '²'] := by
      have htake : (before ++ after).take before.length = before := List.take_left
      rw [← htake, ← heq, hlength]
      rfl
    exact absurd (hboundary '²' (by rw [hbefore]; rfl)) (by decide +kernel)
  · refine ⟨?_, [], ['1', ')'], nofun, rfl⟩
    rintro c ⟨⟩
    decide +kernel

end LiveMarkup
