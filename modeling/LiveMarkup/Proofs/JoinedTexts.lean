import LiveMarkup.Proofs.MethodArguments

/-!
# Joined elements

The text of an array is that of its elements with commas between them, and `join` puts any separator
there.  The two do not write the elements in the same place: an element of the text is written inside
the array, and one that is joined is written on its own.  The place matters only where an element
leads back to the array, which writes nothing inside itself.

## Main definitions

* `Store.ComesTo` — writing a value comes to an array or cell.

## Main results

* `Store.textWithin_congr` — only the arrays that a value comes to matter for its text.
* `join_agrees_with_text` — the text of an array and what `join` makes of it.
-/

namespace LiveMarkup

open Number

namespace Store

variable {s : Store} {v : Value}

/-- Writing the value comes to something, through elements of arrays and what cells hold. -/
inductive ComesTo (s : Store) (e : Entity) : Value → Prop
  | here {v : Value} (h : v.entity? = some e) : s.ComesTo e v
  | cell {c : CellRef} (h : s.ComesTo e (s.held c)) : s.ComesTo e (.cell c)
  | element {r : ArrayRef} {v : Value} (hv : v ∈ s.items r) (h : s.ComesTo e v) :
    s.ComesTo e (.array r)

/-- Of the arrays that are being written only those matter that the value comes to. -/
theorem textWithin_congr {joining joining' : List ArrayRef}
    (h : ∀ q, s.ComesTo (.array q) v → (q ∈ joining ↔ q ∈ joining')) :
    s.textWithin joining v = s.textWithin joining' v := by
  induction joining, v using text_induction (s := s) generalizing joining' with
  | endless joining v hcells => rw [textWithin_of_endless hcells, textWithin_of_endless hcells]
  | leaf joining v hv => rw [textWithin_of_isLeaf hv, textWithin_of_isLeaf hv]
  | again joining r hr => rw [textWithin_of_mem hr, textWithin_of_mem ((h r (.here rfl)).1 hr)]
  | cell joining c ih =>
    rw [textWithin_cell, textWithin_cell]
    exact ih fun q hq => h q (.cell hq)
  | array joining r hr ih =>
    rw [textWithin_array hr, textWithin_array (mt (h r (.here rfl)).2 hr)]
    refine congrArg (String.intercalate ",") (List.map_congr_left fun v hv => ?_)
    unfold elementText
    rw [ih v hv fun q hq => ?_]
    rw [List.mem_cons, List.mem_cons, h q (.element hv hq)]

/-- What `join` makes of the elements of an array, each of them written on its own. -/
theorem callBuiltin_join (s : Store) (r : ArrayRef) (args : List Value) :
    s.callBuiltin (.array r) "join" args =
      some (s, .ok (.string (String.intercalate ((given? args.head?).elim "," s.display)
        ((s.items r).map (s.elementText []))))) := by
  rw [callBuiltin_array rfl]
  simp only [ArrayMethod.apply, ArrayMethod.joined, textOr_eq, ← textWithin_nil]
  rfl

end Store

/-- Joining agrees with the text of an array.  The builtin `join` puts a separator, which is a comma
if none is given, between the texts of the elements written on their own.  The text of the array has
commas between the texts of its elements written inside the array.  If no element comes to the array
itself, whatever else it comes to, these are the same texts. -/
theorem join_agrees_with_text (s : Store) (r : ArrayRef) (args : List Value) :
    let texts (joining : List ArrayRef) : List String := (s.items r).map (s.elementText joining)
    s.callBuiltin (.array r) "join" args =
        some (s, .ok (.string (String.intercalate ((given? args.head?).elim "," s.display)
          (texts [])))) ∧
      s.display (.array r) = String.intercalate "," (texts [r]) ∧
      ((∀ v ∈ s.items r, ¬s.ComesTo (.array r) v) → texts [r] = texts []) := by
  refine ⟨s.callBuiltin_join r args, ?_, fun hfree => List.map_congr_left fun v hv => ?_⟩
  · rw [← Store.textWithin_nil]
    exact Store.textWithin_array List.not_mem_nil
  · unfold Store.elementText
    rw [Store.textWithin_congr fun q hq => ?_]
    rw [List.mem_singleton]
    exact iff_of_false (fun hqr => hfree v hv (hqr ▸ hq)) List.not_mem_nil

/-- A list, one of whose elements is a list that has itself for an element, through a cell. -/
def listOfCyclicList : Store where
  arrays := #[[.null, .array ⟨1⟩, .bool true], [.bool false, .cell ⟨0⟩]]
  cells := #[{ held := .array ⟨1⟩ }]

/-- The outer list is joined to its text; the inner one stops in either at the cell. -/
theorem outer_list_is_joined_to_text :
    let s := listOfCyclicList
    (∀ v ∈ s.items ⟨0⟩, ¬s.ComesTo (.array ⟨0⟩) v) ∧
      s.display (.array ⟨0⟩) = ",false,,true" ∧
        s.callBuiltin (.array ⟨0⟩) "join" [] = some (s, .ok (.string ",false,,true")) := by
  intro s
  -- the inner list and the cell lead to each other only
  have hinner (v : Value) (h : s.ComesTo (.array ⟨0⟩) v) :
      (∀ b, v ≠ .bool b) ∧ v ≠ .null ∧ v ≠ .cell ⟨0⟩ ∧ v ≠ .array ⟨1⟩ := by
    induction h with
    | here h =>
      refine ⟨fun b => ?_, ?_, ?_, ?_⟩ <;> rintro rfl <;> cases h
    | cell h ih =>
      refine ⟨nofun, nofun, ?_, nofun⟩
      rintro ⟨⟩
      exact ih.2.2.2 rfl
    | element hv h ih =>
      refine ⟨nofun, nofun, nofun, ?_⟩
      rintro ⟨⟩
      obtain rfl | rfl := List.mem_pair.1 hv
      · exact ih.1 false rfl
      · exact ih.2.2.1 rfl
  have hfree : ∀ v ∈ s.items ⟨0⟩, ¬s.ComesTo (.array ⟨0⟩) v := by
    intro v hv hcomes
    obtain ⟨hbool, hnull, -, harray⟩ := hinner v hcomes
    have hcases : v = .null ∨ v = .array ⟨1⟩ ∨ v = .bool true := by
      simpa [s, listOfCyclicList, Store.items] using hv
    obtain rfl | rfl | rfl := hcases
    · exact hnull rfl
    · exact harray rfl
    · exact hbool true rfl
  obtain ⟨hjoin, htext, hsame⟩ := join_agrees_with_text s ⟨0⟩ []
  have hdisplay : s.display (.array ⟨0⟩) = ",false,,true" := rfl
  refine ⟨hfree, hdisplay, ?_⟩
  rw [hjoin, ← hsame hfree, ← hdisplay, htext]
  rfl

/-- In the text of the inner list it writes nothing inside itself; joined, it is written there once
more. -/
theorem inner_list_is_joined_to_more :
    let s := listOfCyclicList
    s.display (.array ⟨1⟩) = "false," ∧
      s.callBuiltin (.array ⟨1⟩) "join" [] = some (s, .ok (.string "false,false,")) :=
  ⟨rfl, rfl⟩

end LiveMarkup
