import LiveMarkup.Proofs.StoreLaws
import LiveMarkup.Proofs.TextPositions

/-!
# Texts taken apart and put together

`split` takes the pieces between occurrences of a separator, `join` puts a text between pieces, and
`replaceAll` puts a text in place of every occurrence.  All of them have to see the same occurrences
from the left on, although these may touch or overlap, and each deals with texts that are empty in
its own way.  Replacing is splitting and joining with another text, and a separator put in its own
place changes nothing.

## Main definitions

* `Store.Joins` — what `join` gives for an array.

## Main results

* `Text.intercalate_splitAfter` — pieces joined again are the text with its occurrences replaced.
* `Text.replaceAfter_self` — replacing a pattern by itself changes nothing.
* `split_joins` — what `split`, `join` and `replaceAll` give for all texts.
-/

namespace LiveMarkup

/-! ### Pieces -/

namespace Text

variable {pattern replacement : List Char}

theorem splitAfter_ne_nil (separator : List Char) (skip : Nat) (cs : List Char) :
    splitAfter separator skip cs ≠ [] := by
  induction skip, cs using splitAfter.induct separator with
  | case1 => exact List.cons_ne_nil _ _
  | case2 skip c cs ih => exact ih
  | case3 c cs hfront =>
    rw [splitAfter, if_pos hfront]
    exact List.cons_ne_nil _ _
  | case4 c cs hfront =>
    rw [splitAfter, if_neg hfront]
    unfold consPiece
    split <;> exact List.cons_ne_nil _ _

theorem intercalate_consPiece (filler : List Char) (c : Char) (pieces : List (List Char)) :
    filler.intercalate (consPiece c pieces) = c :: filler.intercalate pieces := by
  cases pieces with
  | nil => rfl
  | cons piece pieces => exact List.intercalate_cons_cons_left

/-- Pieces with another text between them are the text with this one in place of the separator. -/
theorem intercalate_splitAfter (pattern replacement : List Char) (skip : Nat) (cs : List Char) :
    replacement.intercalate (splitAfter pattern skip cs) =
      replaceAfter pattern replacement skip cs := by
  induction skip, cs using splitAfter.induct pattern with
  | case1 => rfl
  | case2 skip c cs ih => exact ih
  | case3 c cs hfront ih =>
    rw [splitAfter, replaceAfter, if_pos hfront, if_pos hfront, ← ih]
    obtain ⟨piece, pieces, hpieces⟩ :=
      List.exists_cons_of_ne_nil (splitAfter_ne_nil pattern (pattern.length - 1) cs)
    rw [hpieces, List.intercalate_cons_cons, List.nil_append]
  | case4 c cs hfront ih =>
    rw [splitAfter, replaceAfter, if_neg hfront, if_neg hfront, intercalate_consPiece, ih]

/-- The characters that are skipped belong to an occurrence that has been put in place before. -/
theorem replaceAfter_self (hpattern : pattern ≠ []) (skip : Nat) (cs : List Char) :
    replaceAfter pattern pattern skip cs = cs.drop skip := by
  induction skip, cs using splitAfter.induct pattern with
  | case1 => exact List.drop_nil.symm
  | case2 skip c cs ih => exact ih
  | case3 c cs hfront ih =>
    have hlength : pattern.length - 1 + 1 = pattern.length :=
      Nat.sub_add_cancel (List.length_pos_iff.2 hpattern)
    rw [replaceAfter, if_pos hfront, ih]
    calc pattern ++ cs.drop (pattern.length - 1)
        = pattern ++ (c :: cs).drop pattern.length := by rw [← hlength, List.drop_succ_cons]; rfl
      _ = c :: cs := (List.prefix_iff_eq_append.1 (List.isPrefixOf_iff_prefix.1 hfront))
  | case4 c cs hfront ih => rw [replaceAfter, if_neg hfront, ih, List.drop_zero, List.drop_zero]

theorem intercalate_characters (cs : List Char) :
    ([] : List Char).intercalate (cs.map fun c => [c]) = cs := by
  induction cs with
  | nil => rfl
  | cons c cs ih =>
    cases cs with
    | nil => rfl
    | cons d cs =>
      rw [List.map_cons] at ih
      rw [List.map_cons, List.map_cons, List.intercalate_cons_cons, ih, List.append_nil]
      rfl

/-- The pieces of a text at a separator; without one, its characters. -/
def piecesAt (separator cs : List Char) : List (List Char) :=
  if separator = [] then cs.map fun c => [c] else splitAt separator cs

/-- The pieces of a text, joined by the separator they were taken apart at, are the text. -/
theorem intercalate_piecesAt (separator cs : List Char) :
    separator.intercalate (piecesAt separator cs) = cs := by
  unfold piecesAt
  split
  · next hempty => rw [hempty, intercalate_characters]
  · next hseparator =>
    rw [splitAt, intercalate_splitAfter, replaceAfter_self hseparator, List.drop_zero]

/-- The pieces of a text, joined by another text, are the text with its occurrences replaced. -/
theorem intercalate_piecesAt_eq_replaceEvery (hpattern : pattern ≠ []) (cs : List Char) :
    replacement.intercalate (piecesAt pattern cs) = replaceEvery pattern replacement cs := by
  have hnonempty : ¬pattern.isEmpty = true := fun h => hpattern (List.isEmpty_iff.1 h)
  rw [piecesAt, if_neg hpattern, replaceEvery, if_neg hnonempty, splitAt, intercalate_splitAfter]

end Text

/-! ### Methods -/

namespace Store

/-- Joining the elements of an array gives the text, and changes nothing. -/
def Joins (s : Store) (r : ArrayRef) (separator text : String) : Prop :=
  s.callBuiltin (.array r) "join" [.string separator] = some (s, .ok (.string text))

variable {s : Store}

theorem joined_ofChars (separator : String) (pieces : List (List Char)) :
    ArrayMethod.joined s separator (pieces.map Value.ofChars) =
      String.ofList (separator.toList.intercalate pieces) := by
  have htexts : (pieces.map Value.ofChars).map
      (fun v => if v.isNullish then "" else s.display v) = pieces.map String.ofList := by
    rw [List.map_map]
    rfl
  rw [ArrayMethod.joined, htexts, ← String.toList_inj, String.toList_intercalate,
    String.toList_ofList, List.map_map]
  congr 1
  exact (List.map_congr_left fun piece _ => String.toList_ofList).trans (List.map_id _)

/-- An array of texts is joined to the texts with the separator between them. -/
theorem joins_of_items {r : ArrayRef} {pieces : List (List Char)}
    (hitems : s.items r = pieces.map Value.ofChars) (separator : String) :
    s.Joins r separator (String.ofList (separator.toList.intercalate pieces)) := by
  show some (s, Except.ok (Value.string (ArrayMethod.joined s separator (s.items r)))) = _
  rw [hitems, joined_ofChars]

/-- Splitting makes an array of the pieces. -/
theorem exists_split (s : Store) (text separator : String) :
    ∃ t r, s.callBuiltin (.string text) "split" [.string separator] = some (t, .ok (.array r)) ∧
      t.items r = (Text.piecesAt separator.toList text.toList).map Value.ofChars := by
  have hpieces : StringMethod.pieces s text.toList (some (.string separator)) =
      (Text.piecesAt separator.toList text.toList).map Value.ofChars := by
    have hdisplay : s.display (.string separator) = separator := rfl
    simp only [StringMethod.pieces, hdisplay]
    split
    · next hempty => rw [hempty, Text.piecesAt, if_pos rfl, List.map_map]; rfl
    · next hnonempty => rw [Text.piecesAt, if_neg hnonempty]
  refine ⟨(s.newArray (StringMethod.pieces s text.toList (some (.string separator)))).1, _, rfl, ?_⟩
  rw [hpieces, items_newArray, if_pos rfl]

end Store

/-- For all texts: a text that is split and joined with the same separator is the text again, and
replacing every occurrence of a pattern that is not empty is splitting at the pattern and joining
with the replacement. -/
theorem split_joins (s : Store) (text separator replacement : String) :
    ∃ t r, s.callBuiltin (.string text) "split" [.string separator] = some (t, .ok (.array r)) ∧
      t.Joins r separator text ∧
      (separator ≠ "" → ∃ replaced,
        s.TextGives text "replaceAll" [.string separator, .string replacement] (.string replaced) ∧
        t.Joins r replacement replaced) := by
  obtain ⟨t, r, hsplit, hitems⟩ := s.exists_split text separator
  refine ⟨t, r, hsplit, ?_, fun hseparator => ⟨_, rfl, ?_⟩⟩
  · have hjoins := Store.joins_of_items hitems separator
    rwa [Text.intercalate_piecesAt, String.ofList_toList] at hjoins
  · have hne : separator.toList ≠ [] := fun hempty => hseparator (String.toList_inj.1 hempty)
    have hjoins := Store.joins_of_items hitems replacement
    rwa [Text.intercalate_piecesAt_eq_replaceEvery hne] at hjoins

/-- Of two occurrences that overlap only the first one counts, in all three methods. -/
theorem overlapping_occurrences_split :
    "aa" ≠ "" ∧ ∃ t r,
      Store.initial.callBuiltin (.string "baaab") "split" [.string "aa"] =
        some (t, .ok (.array r)) ∧
      t.Joins r "aa" "baaab" ∧ t.Joins r "-" "b-ab" ∧
      Store.initial.TextGives "baaab" "replaceAll" [.string "aa", .string "-"]
        (.string "b-ab") := by
  have hpattern : "aa" ≠ "" := by decide
  obtain ⟨t, r, hsplit, hjoins, hreplaces⟩ := split_joins .initial "baaab" "aa" "-"
  obtain ⟨replaced, hreplaced, hjoined⟩ := hreplaces hpattern
  have htext : Store.initial.TextGives "baaab" "replaceAll" [.string "aa", .string "-"]
      (.string "b-ab") := by
    rw [textGives_iff rfl]
    decide
  rw [Store.TextGives] at hreplaced htext
  obtain rfl : replaced = "b-ab" := by
    have hsame := hreplaced.symm.trans htext
    exact Value.string.inj (Except.ok.inj (Prod.mk.inj (Option.some.inj hsame)).2)
  exact ⟨hpattern, t, r, hsplit, hjoins, hjoined, htext⟩

end LiveMarkup
