import LiveMarkup.Proofs.NestedTexts

/-!
# Writing a text step by step

The text of a value comes about piece by piece, with one list of the arrays that are being written,
the innermost first, which all that is written shares.  An array is put on the list when it is
entered and taken off when its last element is done; one that is on the list is not entered.  What
is still to be done is an agenda: values to write, and elements that remain of the arrays entered.

Nothing here is bounded in advance.  That writing comes to an end, where no cell holds a cell, is
because no array is entered that is on the list, and there are only so many arrays.

## Main definitions

* `Writer` — what is to be done, what is being written, and what has been written.
* `Writer.next`, `Writer.after` — one step, and some of them.

## Main results

* `Writer.goesTo_value_of_ends` — a value on the agenda gets written, and the list is as it was
  then.
* `Writer.Above.next` — what is on the list stays on it until what put it there is done.
* `writing_returns` — what happens when a value is written.
-/

namespace LiveMarkup

/-- Something still to be done for a text. -/
inductive WriterTask
  /-- Write a value. -/
  | value (v : Value)
  /-- Write what remains of the elements of the innermost array, and take the array off the list; of
  the first element no comma goes in front. -/
  | elements (vs : List Value) (first : Bool)

/-- The array of the task has been entered. -/
def WriterTask.hasEntered : WriterTask → Bool
  | .value _ => false
  | .elements .. => true

/-- A text that is being written. -/
structure Writer where
  /-- What is still to be done, in order. -/
  agenda : List WriterTask
  /-- The arrays that are being written, the innermost first. -/
  joining : List ArrayRef
  /-- What has been written. -/
  written : String

namespace Writer

variable {s : Store} {w : Writer} {v : Value} {joining : List ArrayRef} {out : String}
  {rest : List WriterTask}

/-- Begins to write a value that has been taken from the agenda. -/
def write (s : Store) (w : Writer) : Value → Writer
  | .array r =>
    if r ∈ w.joining then w
    else
      { w with agenda := .elements (s.items r) true :: w.agenda, joining := r :: w.joining }
  | .cell c => { w with agenda := .value (s.held c) :: w.agenda }
  | v => { w with written := w.written ++ v.leafText }

/-- Does what is first on the agenda. -/
def next (s : Store) (w : Writer) : Writer :=
  match w.agenda with
  | [] => w
  | .value v :: rest => write s { w with agenda := rest } v
  | .elements [] _ :: rest => { w with agenda := rest, joining := w.joining.tail }
  | .elements (v :: vs) first :: rest =>
    { w with
      agenda := (if v.isNullish then [] else [.value v]) ++ .elements vs false :: rest
      written := w.written ++ if first then "" else "," }

/-- What comes of so many steps. -/
def after (s : Store) (k : Nat) (w : Writer) : Writer := (next s)^[k] w

theorem after_add (k n : Nat) : after s (k + n) w = after s n (after s k w) := by
  unfold after
  rw [Nat.add_comm, Function.iterate_add_apply]

theorem after_succ (k : Nat) : after s (k + 1) w = next s (after s k w) :=
  Function.iterate_succ_apply' _ _ _

/-! ### Where it goes -/

/-- Some number of steps leads to the second writer. -/
def GoesTo (s : Store) (w w' : Writer) : Prop := ∃ k, after s k w = w'

theorem GoesTo.refl (w : Writer) : GoesTo s w w := ⟨0, rfl⟩

theorem GoesTo.trans {w' w'' : Writer} (h : GoesTo s w w') (h' : GoesTo s w' w'') :
    GoesTo s w w'' := by
  obtain ⟨k, rfl⟩ := h
  obtain ⟨n, rfl⟩ := h'
  exact ⟨k + n, after_add k n⟩

theorem GoesTo.next {w' : Writer} (h : GoesTo s (next s w) w') : GoesTo s w w' :=
  .trans ⟨1, rfl⟩ h

/-- What elements add to a text, with a comma in front unless it is the first that comes. -/
def following (first : Bool) : List String → String
  | [] => ""
  | texts => (if first then "" else ",") ++ String.intercalate "," texts

theorem following_cons (first : Bool) (text : String) (texts : List String) :
    following first (text :: texts) = (if first then "" else ",") ++ text ++ following false texts := by
  cases texts with
  | nil => simp [following]
  | cons next texts => simp [following, String.append_assoc]

/-- The elements of the innermost array get written if each of them does, and the array comes off
the list. -/
theorem goesTo_elements {r : ArrayRef} {vs : List Value}
    (h : ∀ v ∈ vs, ∀ rest out, GoesTo s ⟨.value v :: rest, r :: joining, out⟩
      ⟨rest, r :: joining, out ++ s.textWithin (r :: joining) v⟩) (first : Bool) (out : String) :
    GoesTo s ⟨.elements vs first :: rest, r :: joining, out⟩
      ⟨rest, joining, out ++ following first (vs.map (s.elementText (r :: joining)))⟩ := by
  induction vs generalizing first out with
  | nil =>
    refine .next ?_
    rw [List.map_nil, following, String.append_empty]
    exact .refl _
  | cons v vs ih =>
    have hothers (out : String) := ih (fun v hv => h v (List.mem_cons_of_mem _ hv)) false out
    refine .next ?_
    rw [List.map_cons, following_cons, ← String.append_assoc, ← String.append_assoc]
    cases hv : v.isNullish with
    | true =>
      have hnext : next s ⟨.elements (v :: vs) first :: rest, r :: joining, out⟩ =
          ⟨.elements vs false :: rest, r :: joining, out ++ if first then "" else ","⟩ := by
        simp only [next, hv, if_true, List.nil_append]
      have htext : s.elementText (r :: joining) v = "" := if_pos hv
      rw [hnext, htext, String.append_empty]
      exact hothers _
    | false =>
      have hnext : next s ⟨.elements (v :: vs) first :: rest, r :: joining, out⟩ =
          ⟨.value v :: .elements vs false :: rest, r :: joining,
            out ++ if first then "" else ","⟩ := by
        simp only [next, hv, Bool.false_eq_true, if_false, List.cons_append, List.nil_append]
      have htext : s.elementText (r :: joining) v = s.textWithin (r :: joining) v :=
        if_neg (Bool.eq_false_iff.1 hv)
      rw [hnext, htext]
      exact (h v List.mem_cons_self _ _).trans (hothers _)

theorem following_true (texts : List String) :
    following true texts = String.intercalate "," texts := by
  cases texts with
  | nil => rfl
  | cons text texts => exact String.empty_append

/-- A value gets written, and what is being written is then as it was before, if all chains of cells
end. -/
theorem goesTo_value_of_ends (hends : ∀ v, ∃ k, ¬(s.unwrap^[k] v).IsCell)
    (joining : List ArrayRef) (v : Value) (rest : List WriterTask) (out : String) :
    GoesTo s ⟨.value v :: rest, joining, out⟩
      ⟨rest, joining, out ++ s.textWithin joining v⟩ := by
  induction joining, v using Store.text_induction (s := s) generalizing rest out with
  | endless joining v hcells =>
    obtain ⟨k, hk⟩ := hends v
    exact absurd (hcells k) hk
  | leaf joining v hv =>
    refine .next ?_
    rw [Store.textWithin_of_isLeaf hv]
    cases v with
    | array | cell => exact hv.elim
    | _ => exact .refl _
  | again joining r hr =>
    refine .next ?_
    rw [Store.textWithin_of_mem hr, String.append_empty]
    simp only [next, write, hr, if_true]
    exact .refl _
  | cell joining c ih =>
    rw [Store.textWithin_cell]
    exact .next (ih rest out)
  | array joining r hr ih =>
    refine .next ?_
    rw [Store.textWithin_array hr, ← following_true]
    simp only [next, write, hr, if_false]
    exact goesTo_elements ih true out

/-- Where no cell holds a cell, a chain ends at what a cell holds. -/
theorem goesTo_value (hflat : ∀ c, ¬(s.held c).IsCell) (joining : List ArrayRef) (v : Value)
    (rest : List WriterTask) (out : String) :
    GoesTo s ⟨.value v :: rest, joining, out⟩
      ⟨rest, joining, out ++ s.textWithin joining v⟩ := by
  refine goesTo_value_of_ends (fun v => ⟨1, ?_⟩) joining v rest out
  cases v with
  | cell c => exact hflat c
  | _ => rintro ⟨_, ⟨⟩⟩

/-! ### What is being written -/

/-- No array is entered that is being written. -/
theorem nodup_next (h : w.joining.Nodup) : (next s w).joining.Nodup := by
  unfold next
  split
  · exact h
  · next v rest _ =>
    cases v with
    | array r =>
      simp only [write]
      split
      · exact h
      · next hr => exact List.nodup_cons.2 ⟨hr, h⟩
    | _ => exact h
  · exact h.sublist (List.tail_sublist _)
  · exact h

/-- The arrays on the list are those that have been entered, one for each such task on the agenda,
and below them those of `joining`. -/
def Above (joining : List ArrayRef) (w : Writer) : Prop :=
  ∃ entered, w.joining = entered ++ joining ∧
    entered.length = w.agenda.countP WriterTask.hasEntered

theorem Above.next (h : Above joining w) : Above joining (next s w) := by
  obtain ⟨entered, hjoining, hlength⟩ := h
  unfold Writer.next
  split
  · exact ⟨entered, hjoining, hlength⟩
  · next v rest hagenda =>
    rw [hagenda, List.countP_cons_of_neg Bool.false_ne_true] at hlength
    cases v with
    | array r =>
      simp only [write]
      split
      · exact ⟨entered, hjoining, hlength⟩
      · refine ⟨r :: entered, congrArg (r :: ·) hjoining, ?_⟩
        rw [List.countP_cons_of_pos rfl]
        exact congrArg (· + 1) hlength
    | _ => exact ⟨entered, hjoining, hlength⟩
  · next rest hagenda =>
    rw [hagenda, List.countP_cons_of_pos (by rfl)] at hlength
    cases entered with
    | nil => cases hlength
    | cons r entered =>
      exact ⟨entered, congrArg List.tail hjoining, Nat.succ.inj hlength⟩
  · next v vs first rest hagenda =>
    refine ⟨entered, hjoining, hlength.trans ?_⟩
    rw [hagenda]
    cases hv : v.isNullish <;> rfl

theorem after_keeps {P : Writer → Prop} (hnext : ∀ w, P w → P (next s w)) (h : P w) (k : Nat) :
    P (after s k w) := by
  induction k with
  | zero => exact h
  | succ k ih =>
    rw [after_succ]
    exact hnext _ ih

end Writer

open Writer in
/-- Writing the text of a value comes to an end, in any store where no cell holds a cell, whatever
arrays are being written already, and also where arrays contain themselves.

* It ends with the text added to what has been written and the list of what is being written as it
  was; the text is that of the value where nothing was being written.
* All along no array is on the list twice, so none is entered that is being written, and what was on
  the list stays on it.
* Each value that comes up to be written gets written in the same way, from the list as it is then
  and back to it.
* An array that comes up and is being written adds nothing and is not entered. -/
theorem writing_returns {s : Store} (hflat : ∀ c, ¬(s.held c).IsCell) (v : Value)
    {joining : List ArrayRef} (hjoining : joining.Nodup) (out : String) :
    let moment (k : Nat) : Writer := after s k ⟨[.value v], joining, out⟩
    (∃ n, moment n = ⟨[], joining, out ++ s.textWithin joining v⟩) ∧
      s.textWithin [] v = s.display v ∧
      ∀ k, (moment k).joining.Nodup ∧ joining <:+ (moment k).joining ∧
        ∀ u rest, (moment k).agenda = .value u :: rest →
          (∃ n, moment (k + n) = ⟨rest, (moment k).joining,
            (moment k).written ++ s.textWithin (moment k).joining u⟩) ∧
          ∀ r, u = .array r → r ∈ (moment k).joining →
            moment (k + 1) = ⟨rest, (moment k).joining, (moment k).written⟩ := by
  intro moment
  refine ⟨goesTo_value hflat joining v [] out, by rw [Store.textWithin_nil], fun k => ?_⟩
  have habove : Above joining (moment k) :=
    after_keeps (P := Above joining) (fun _ h => h.next) ⟨[], rfl, rfl⟩ k
  have hnodup : (moment k).joining.Nodup :=
    after_keeps (P := fun w => w.joining.Nodup) (fun _ h => nodup_next h) hjoining k
  refine ⟨hnodup, ?_, fun u rest hagenda => ⟨?_, ?_⟩⟩
  · obtain ⟨entered, hjoining, -⟩ := habove
    exact hjoining ▸ List.suffix_append _ _
  · have hmoment : moment k = ⟨.value u :: rest, (moment k).joining, (moment k).written⟩ := by
      rw [← hagenda]
    obtain ⟨n, hn⟩ := goesTo_value hflat (moment k).joining u rest (moment k).written
    exact ⟨n, by rw [← hn, ← hmoment]; exact after_add k n⟩
  · rintro r rfl hr
    have hnext : moment (k + 1) = next s (moment k) := after_succ k
    rw [hnext, next, hagenda]
    exact if_pos hr

/-- A list that has itself for an element, through a cell. -/
def listInItsCell : Store where
  arrays := #[[.bool true, .cell ⟨0⟩]]
  cells := #[{ held := .array ⟨0⟩ }]

open Writer in
/-- Writing it ends; at the cell it adds nothing. -/
theorem list_in_its_cell_is_written :
    (∀ c, ¬(listInItsCell.held c).IsCell) ∧
      ∃ n, after listInItsCell n ⟨[.value (.array ⟨0⟩)], [], ""⟩ = ⟨[], [], "true,"⟩ := by
  have hflat (c : CellRef) : ¬(listInItsCell.held c).IsCell := by
    rcases c with ⟨_ | _⟩ <;> rintro ⟨_, ⟨⟩⟩
  obtain ⟨⟨n, hn⟩, -⟩ := writing_returns hflat (.array ⟨0⟩) List.nodup_nil ""
  refine ⟨hflat, n, hn.trans ?_⟩
  rfl

end LiveMarkup
