import LiveMarkup.Markup
import Mathlib.Data.List.Forall2

/-!
# Braces around an expression

An expression in markup is what a pattern finds: white space, a brace, at least one character, a
brace and white space again, up to the end of the text.  The characters in the middle may be braces
and white space too.  The pattern takes as few of them as it can, and goes back for more as long as
what follows does not fit.  But whatever it tries first there is only one thing that it can find:
neither brace is white space, so the first one is where the white space in front ends, and the last
one is where the white space at the end begins.

## Main definitions

* `Part`, `Pattern` — patterns that have to fit a whole text.
* `Pattern.ways` — the ways in which a pattern fits a text, in the order in which they are tried.
* `bracePattern`, `Braced` — the pattern of a braced expression, and the texts that are one.

## Main results

* `Pattern.mem_ways_iff` — in which ways a pattern fits.
* `braced_iff` — a braced expression without the white space around it.
* `braces_are_unambiguous` — what stands between the braces of a text, and what the pattern finds.
-/

namespace LiveMarkup

open Text

/-! ### Patterns -/

/-- A part of a pattern. -/
inductive Part
  /-- A character of a class. -/
  | one (p : Char → Bool)
  /-- Characters of a class, as many as possible. -/
  | many (p : Char → Bool)
  /-- At least one character of a class, and as few as possible. -/
  | fewest (p : Char → Bool)

/-- A pattern, which has to fit a text from its start to its end. -/
abbrev Pattern := List Part

/-- The ways to take characters of a class from the front, the fewest first. -/
def fronts (p : Char → Bool) : List Char → List (List Char × List Char)
  | [] => [([], [])]
  | c :: cs =>
    ([], c :: cs) :: if p c then (fronts p cs).map fun way => (c :: way.1, way.2) else []

/-- What a part may take from the front and what it leaves, in the order in which it is tried. -/
def Part.ways : Part → List Char → List (List Char × List Char)
  | .one _, [] => []
  | .one p, c :: cs => if p c then [([c], cs)] else []
  | .many p, cs => (fronts p cs).reverse
  | .fewest p, cs => (fronts p cs).filter fun way => !way.1.isEmpty

/-- The ways in which a pattern fits a text, in the order in which they are tried.  A way says what
each part takes. -/
def Pattern.ways : Pattern → List Char → List (List (List Char))
  | [], [] => [[]]
  | [], _ :: _ => []
  | part :: parts, cs =>
    (part.ways cs).flatMap fun way => (Pattern.ways parts way.2).map fun pieces => way.1 :: pieces

/-- What the part at a position takes in the first way in which a pattern fits a text. -/
def Pattern.captured? (pattern : Pattern) (i : Nat) (cs : List Char) : Option (List Char) :=
  (pattern.ways cs).head?.bind fun pieces => pieces[i]?

/-- White space, a brace, at least one character, a brace, and white space. -/
def bracePattern : Pattern :=
  [.many isBlank, .one (· == '{'), .fewest fun _ => true, .one (· == '}'), .many isBlank]

/-- The position of the part between the braces. -/
def betweenBraces : Nat := 2

variable {p : Char → Bool} {cs taken rest inner : List Char} {pieces : List (List Char)}

/-! ### Where a pattern fits -/

theorem mem_fronts_iff :
    (taken, rest) ∈ fronts p cs ↔ cs = taken ++ rest ∧ ∀ c ∈ taken, p c = true := by
  induction cs generalizing taken with
  | nil =>
    rw [fronts, List.mem_singleton, Prod.mk.injEq]
    constructor
    · rintro ⟨rfl, rfl⟩
      exact ⟨rfl, nofun⟩
    · rintro ⟨heq, -⟩
      exact List.append_eq_nil_iff.1 heq.symm
  | cons c cs ih =>
    rw [fronts, List.mem_cons, Prod.mk.injEq]
    cases taken with
    | nil =>
      -- only the first way takes nothing
      have hlater : ([], rest) ∉
          if p c then (fronts p cs).map fun way => (c :: way.1, way.2) else [] := by
        split <;> simp
      constructor
      · rintro (⟨-, rfl⟩ | hmem)
        · exact ⟨rfl, nofun⟩
        · exact absurd hmem hlater
      · rintro ⟨rfl, -⟩
        exact .inl ⟨rfl, rfl⟩
    | cons d taken =>
      have hmore : (d :: taken, rest) ∈
          (if p c then (fronts p cs).map fun way => (c :: way.1, way.2) else []) ↔
            p c = true ∧ c = d ∧ (taken, rest) ∈ fronts p cs := by
        split <;> simp [*, and_comm]
      rw [hmore, ih, List.forall_mem_cons, List.cons_append, List.cons.injEq]
      constructor
      · rintro (⟨hnil, -⟩ | ⟨hp, rfl, heq, htaken⟩)
        · cases hnil
        · exact ⟨⟨rfl, heq⟩, hp, htaken⟩
      · rintro ⟨⟨rfl, heq⟩, hp, htaken⟩
        exact .inr ⟨hp, rfl, heq, htaken⟩

/-- What a part can take. -/
def Part.Takes : Part → List Char → Prop
  | .one p, taken => ∃ c, p c = true ∧ taken = [c]
  | .many p, taken => ∀ c ∈ taken, p c = true
  | .fewest p, taken => taken ≠ [] ∧ ∀ c ∈ taken, p c = true

/-- How eager a part is says only in which order its ways are tried. -/
theorem Part.mem_ways_iff {part : Part} :
    (taken, rest) ∈ part.ways cs ↔ cs = taken ++ rest ∧ part.Takes taken := by
  cases part with
  | one p =>
    cases cs with
    | nil =>
      refine iff_of_false List.not_mem_nil ?_
      rintro ⟨heq, c, -, rfl⟩
      cases heq
    | cons c cs =>
      have hone : (taken, rest) ∈ (Part.one p).ways (c :: cs) ↔
          p c = true ∧ taken = [c] ∧ rest = cs := by
        rw [ways]
        split <;> simp [*]
      rw [hone]
      constructor
      · rintro ⟨hp, rfl, rfl⟩
        exact ⟨rfl, c, hp, rfl⟩
      · rintro ⟨heq, d, hp, rfl⟩
        cases heq
        exact ⟨hp, rfl, rfl⟩
  | many p => exact List.mem_reverse.trans mem_fronts_iff
  | fewest p =>
    rw [ways, List.mem_filter, mem_fronts_iff, Takes]
    cases taken <;> simp

/-- A pattern fits in all the ways in which its parts can take the text together. -/
theorem Pattern.mem_ways_iff {pattern : Pattern} :
    pieces ∈ pattern.ways cs ↔ cs = pieces.flatten ∧ List.Forall₂ Part.Takes pattern pieces := by
  induction pattern generalizing cs pieces with
  | nil =>
    rw [List.forall₂_nil_left_iff]
    cases cs with
    | nil =>
      rw [ways, List.mem_singleton]
      constructor
      · rintro rfl
        exact ⟨rfl, rfl⟩
      · exact And.right
    | cons c cs =>
      refine iff_of_false List.not_mem_nil ?_
      rintro ⟨heq, rfl⟩
      cases heq
  | cons part parts ih =>
    rw [ways, List.mem_flatMap, List.forall₂_cons_left_iff]
    constructor
    · rintro ⟨⟨taken, rest⟩, hway, hmem⟩
      obtain ⟨pieces, hpieces, rfl⟩ := List.mem_map.1 hmem
      obtain ⟨rfl, htakes⟩ := Part.mem_ways_iff.1 hway
      obtain ⟨rfl, hparts⟩ := ih.1 hpieces
      exact ⟨rfl, taken, pieces, htakes, hparts, rfl⟩
    · rintro ⟨rfl, taken, pieces, htakes, hparts, rfl⟩
      exact ⟨(taken, pieces.flatten), Part.mem_ways_iff.2 ⟨rfl, htakes⟩,
        List.mem_map.2 ⟨pieces, ih.2 ⟨rfl, hparts⟩, rfl⟩⟩

/-! ### Braced expressions -/

/-- A text that is, but for white space around it, a pair of braces with something between them. -/
def Braced (cs inner : List Char) : Prop :=
  inner ≠ [] ∧ ∃ white white', (∀ c ∈ white, isBlank c = true) ∧ (∀ c ∈ white', isBlank c = true) ∧
    cs = white ++ '{' :: (inner ++ '}' :: white')

theorem mem_ways_bracePattern_iff : pieces ∈ bracePattern.ways cs ↔
    ∃ white inner white', pieces = [white, ['{'], inner, ['}'], white'] ∧ inner ≠ [] ∧
      (∀ c ∈ white, isBlank c = true) ∧ (∀ c ∈ white', isBlank c = true) ∧
        cs = white ++ '{' :: (inner ++ '}' :: white') := by
  rw [Pattern.mem_ways_iff]
  simp only [bracePattern, List.forall₂_cons_left_iff, List.forall₂_nil_left_iff, Part.Takes,
    beq_iff_eq]
  constructor
  · rintro ⟨rfl, white, _, hwhite, ⟨_, _, ⟨_, rfl, rfl⟩, ⟨inner, _, ⟨hinner, -⟩,
      ⟨_, _, ⟨_, rfl, rfl⟩, ⟨white', _, hwhite', rfl, rfl⟩, rfl⟩, rfl⟩, rfl⟩, rfl⟩
    exact ⟨white, inner, white', rfl, hinner, hwhite, hwhite', by simp⟩
  · rintro ⟨white, inner, white', rfl, hinner, hwhite, hwhite', rfl⟩
    exact ⟨by simp, white, _, hwhite, ⟨_, _, ⟨_, rfl, rfl⟩, ⟨inner, _, ⟨hinner, fun _ _ => trivial⟩,
      ⟨_, _, ⟨_, rfl, rfl⟩, ⟨white', _, hwhite', rfl, rfl⟩, rfl⟩, rfl⟩, rfl⟩, rfl⟩

/-- White space is taken from the front up to what is no white space. -/
theorem dropWhile_isBlank_append {white : List Char} {c : Char}
    (hwhite : ∀ c ∈ white, isBlank c = true) (hc : isBlank c = false) :
    (white ++ c :: rest).dropWhile isBlank = c :: rest := by
  rw [List.dropWhile_append_of_pos hwhite, List.dropWhile_cons_of_neg (Bool.eq_false_iff.1 hc)]

/-- A braced expression without the white space around it. -/
theorem braced_iff : Braced cs inner ↔ inner ≠ [] ∧ trim cs = '{' :: (inner ++ ['}']) := by
  refine and_congr_right fun _ => ?_
  constructor
  · rintro ⟨white, white', hwhite, hwhite', rfl⟩
    have hreverse : ('{' :: (inner ++ '}' :: white')).reverse =
        white'.reverse ++ '}' :: (inner.reverse ++ ['{']) := by simp
    have hblank : ∀ c ∈ white'.reverse, isBlank c = true := fun c hc =>
      hwhite' c (List.mem_reverse.1 hc)
    rw [trim, trimStart, dropWhile_isBlank_append hwhite (by decide), trimEnd, hreverse,
      dropWhile_isBlank_append hblank (by decide)]
    simp
  · intro htrim
    -- what is trimmed at the end comes back behind what is left
    have hstart : trimStart cs =
        trim cs ++ ((trimStart cs).reverse.takeWhile isBlank).reverse := by
      rw [trim, trimEnd, ← List.reverse_append, List.takeWhile_append_dropWhile,
        List.reverse_reverse]
    rw [htrim, List.cons_append, List.append_assoc] at hstart
    refine ⟨cs.takeWhile isBlank, ((trimStart cs).reverse.takeWhile isBlank).reverse,
      List.all_eq_true.1 List.all_takeWhile, fun c hc => ?_, ?_⟩
    · exact List.all_eq_true.1 List.all_takeWhile c (List.mem_reverse.1 hc)
    · calc cs = cs.takeWhile isBlank ++ trimStart cs := List.takeWhile_append_dropWhile.symm
        _ = _ := congrArg (cs.takeWhile isBlank ++ ·) hstart

/-- There is only one thing between the braces of a text. -/
theorem Braced.eq {inner' : List Char} (h : Braced cs inner) (h' : Braced cs inner') :
    inner = inner' := by
  have heq := (braced_iff.1 h).2.symm.trans (braced_iff.1 h').2
  exact List.append_cancel_right (List.cons.inj heq).2

/-- The pattern finds what stands between the braces, whatever it tries first. -/
theorem captured?_bracePattern_iff :
    bracePattern.captured? betweenBraces cs = some inner ↔ Braced cs inner := by
  have hways : ∀ {pieces inner}, pieces ∈ bracePattern.ways cs → Braced cs inner →
      pieces[betweenBraces]? = some inner := by
    intro pieces inner hmem hbraced
    obtain ⟨white, inner', white', rfl, hinner', hwhite, hwhite', heq⟩ :=
      mem_ways_bracePattern_iff.1 hmem
    rw [hbraced.eq ⟨hinner', white, white', hwhite, hwhite', heq⟩]
    rfl
  unfold Pattern.captured?
  cases hfound : (bracePattern.ways cs).head? with
  | none =>
    refine iff_of_false nofun ?_
    rintro ⟨hinner, white, white', hwhite, hwhite', heq⟩
    have hmem := mem_ways_bracePattern_iff.2
      ⟨white, inner, white', rfl, hinner, hwhite, hwhite', heq⟩
    rw [List.head?_eq_none_iff.1 hfound] at hmem
    exact List.not_mem_nil hmem
  | some pieces =>
    have hmem := List.mem_of_head? hfound
    rw [Option.bind_some]
    constructor
    · intro hcaptured
      obtain ⟨white, inner', white', rfl, hinner', hwhite, hwhite', heq⟩ :=
        mem_ways_bracePattern_iff.1 hmem
      cases hcaptured
      exact ⟨hinner', white, white', hwhite, hwhite', heq⟩
    · exact hways hmem

/-! ### What is read -/

theorem betweenBraces?_eq_some_iff :
    betweenBraces? cs = some inner ↔ inner ≠ [] ∧ cs = '{' :: (inner ++ ['}']) := by
  constructor
  · intro h
    unfold betweenBraces? at h
    split at h
    · next rest =>
      split at h
      · next c front hreverse =>
        cases h
        refine ⟨by simp, ?_⟩
        rw [List.reverse_eq_iff] at hreverse
        rw [hreverse]
        simp
      · cases h
    · cases h
  · rintro ⟨hinner, rfl⟩
    obtain ⟨c, front, hreverse⟩ := List.exists_cons_of_ne_nil (List.reverse_ne_nil_iff.2 hinner)
    rw [betweenBraces?, List.reverse_append, List.reverse_singleton, List.singleton_append,
      hreverse]
    simp only [Option.some.injEq]
    rw [← hreverse, List.reverse_reverse]

/-- A text is a braced expression exactly if it is, without the white space around it, a brace,
at least one character and a brace.  What stands between the two, without the white space around
it, is the expression, whatever it is; a text of another form has none.  The pattern of a braced
expression finds just this. -/
theorem braces_are_unambiguous (text : String) :
    (∀ expression, bracedExpression? text = some expression ↔
      ∃ inner, inner ≠ [] ∧ trim text.toList = '{' :: (inner ++ ['}']) ∧
        expression = String.ofList (trim inner)) ∧
    bracedExpression? text =
      (bracePattern.captured? betweenBraces text.toList).map fun inner =>
        String.ofList (trim inner) := by
  have hread : betweenBraces? (trim text.toList) =
      bracePattern.captured? betweenBraces text.toList := by
    refine Option.ext fun inner => ?_
    rw [betweenBraces?_eq_some_iff, captured?_bracePattern_iff, braced_iff]
  refine ⟨fun expression => ?_, by rw [bracedExpression?, hread]⟩
  rw [bracedExpression?, Option.map_eq_some_iff]
  simp only [betweenBraces?_eq_some_iff, and_assoc, eq_comm (a := expression)]

/-- Of several braces the last one closes the expression. -/
example : bracedExpression? " \x7b \x7ba\x7d \x7d " = some "\x7ba\x7d" := by decide +kernel

end LiveMarkup
