import LiveMarkup.Proofs.ArrayGrowth
import LiveMarkup.Proofs.Confinement
import LiveMarkup.Proofs.FlatCells
import LiveMarkup.Proofs.MemberCalls

/-!
# Members that are written and read back

The write of a member goes one of four ways: to the cell itself, past the cell to what it holds, to
the cell that a property of an object is bound to, or to the value itself.  Reading goes the same
ways, so that what has been written is read back, or a value over which the write did not count as a
change.

It does not for two members.  A cell answers `previousValue` and `hasPreviousValue` itself when they
are read, but when they are written only `value` is the cell's own.  So a write of the other two
goes past the cell into the object that it holds, and no reading through the cell finds it there.

## Main definitions

* `Store.Written` — the ways that a write goes.
* `Store.ReadsBack` — what may be read after a value has been written.
* `Store.Grounded` — nothing refers to what is not there.

## Main results

* `written_of_setMember`, `Store.Written.setMember_eq` — a write succeeds exactly in these ways.
* `plainMember_of_setProperty` — an edit in place is read back.
* `written_member_is_read_back` — so is every write of a member, but for the two.
* `previous_value_is_written_past_the_cell` — one that is not.
-/

namespace LiveMarkup

open Eval

/-- What the successful write of a member makes of a store, for each kind of target. -/
inductive Store.Written (s : Store) (key : String) (v : Value) : Value → Store → Prop
  /-- The cell itself is written. -/
  | cell (c : CellRef) (hkey : key = "value") :
    Written s key v (.cell c) (s.setCell c (s.unwrap v)).1
  /-- What the cell holds is edited in place, and a pass requested. -/
  | past (c : CellRef) {t : Store} (hkey : key ≠ "value")
    (hedit : s.setProperty (s.held c) key v = .ok t) : Written s key v (.cell c) (t.trigger c)
  /-- The cell that the property is bound to is written. -/
  | bound (o : ObjectRef) {c : CellRef} (hfind : (s.properties o).find? key = some (.cell c)) :
    Written s key v (.object o) (s.setCell c (s.unwrap v)).1
  /-- The value itself is edited in place. -/
  | own {target : Value} {t : Store} (htarget : target.IsPlain)
    (hfind : ∀ o c, target = .object o → (s.properties o).find? key ≠ some (.cell c))
    (hedit : s.setProperty target key v = .ok t) : Written s key v target t

variable {s t : Store} {target edited v w : Value} {key : String} {c : CellRef}

/-! ### Ways to write -/

theorem Value.IsPlain.not_isCell (h : v.IsPlain) : ¬v.IsCell := fun ⟨c, hc⟩ => h c hc

theorem nullishName?_of_setProperty (h : s.setProperty edited key v = .ok t) :
    edited.nullishName? = none := by
  cases edited with
  | undefined | null => cases h
  | _ => rfl

theorem tryWrite_eq_ok_iff {write : Except PropertyError Store} :
    tryWrite s key target write = (t, .ok ()) ↔ write = .ok t := by
  cases write <;> simp [tryWrite]

/-- A write that succeeds goes one of these ways. -/
theorem written_of_setMember (h : setMember s target key v = (t, .ok ())) :
    s.Written key v target t := by
  unfold setMember at h
  split at h
  · cases h
  · split at h
    · next c _ =>
      split at h
      · next hkey =>
        cases h
        exact .cell c hkey
      · next hkey =>
        split at h
        · cases h
        · obtain ⟨u, hedit, rfl⟩ := Store.setCellProperty_cases (tryWrite_eq_ok_iff.1 h)
          exact .past c hkey hedit
    · next o _ =>
      split at h
      · next c hfind =>
        cases h
        exact .bound o hfind
      · next hplain =>
        refine .own (by rintro d ⟨⟩) (fun p d heq hfind => ?_) (tryWrite_eq_ok_iff.1 h)
        cases heq
        exact hplain d hfind
    · next hcell hobject =>
      exact .own hcell (fun o _ heq => absurd heq (hobject o)) (tryWrite_eq_ok_iff.1 h)

/-- Each of these ways is one in which a write succeeds. -/
theorem Store.Written.setMember_eq (h : s.Written key v target t) :
    setMember s target key v = (t, .ok ()) := by
  cases h with
  | cell c hkey =>
    have hcell : (Value.cell c).nullishName? = none := rfl
    simp only [setMember, hcell, if_pos hkey]
  | past c hkey hedit =>
    have hcell : (Value.cell c).nullishName? = none := rfl
    have hname := nullishName?_of_setProperty hedit
    simp only [setMember, hcell, if_neg hkey, hname, Store.setCellProperty, hedit]
    rfl
  | bound o hfind =>
    unfold setMember
    dsimp only [Value.nullishName?]
    rw [hfind]
  | own htarget hfind hedit =>
    have hname := nullishName?_of_setProperty hedit
    unfold setMember
    rw [hname]
    dsimp only
    split
    · next c => exact absurd rfl (htarget c)
    · next o =>
      split
      · next c hbound => exact absurd hbound (hfind o c rfl)
      · exact tryWrite_eq_ok_iff.2 hedit
    · exact tryWrite_eq_ok_iff.2 hedit

/-! ### What is read -/

/-- What is read of a value that is not a cell depends on arrays and objects only. -/
theorem plainMember_congr (hitems : ∀ r, t.items r = s.items r)
    (hproperties : ∀ r, t.properties r = s.properties r) (edited : Value) (key : String) :
    plainMember t edited key = plainMember s edited key := by
  unfold plainMember Store.ownProperty
  simp only [hitems, hproperties]

theorem unwrap_trigger (s : Store) (c : CellRef) (w : Value) :
    (s.trigger c).unwrap w = s.unwrap w := by
  cases w with
  | cell d => exact s.held_trigger c d
  | _ => rfl

/-- An edit in place replaces what a property of an object is bound to, or the elements of an
array. -/
theorem setProperty_eq_ok (h : s.setProperty edited key v = .ok t) :
    (∃ o, edited = .object o ∧ t = s.setProperties o ((s.properties o).insert key v)) ∨
      ∃ r e, edited = .array r ∧ (ArrayWrite.property key v).extent? s = some e ∧
        t = s.setItems r (e.after (s.items r)) := by
  cases edited with
  | object o => exact .inl ⟨o, rfl, (Except.ok.inj h).symm⟩
  | array r =>
    obtain ⟨e, hextent, rfl⟩ := ArrayWrite.exists_extent (w := .property key v) h
    exact .inr ⟨r, e, rfl, hextent, rfl⟩
  | _ => cases h

/-- What an edit in place has written is read back. -/
theorem plainMember_of_setProperty (hmade : edited.Within (s.hasMade · = true))
    (hlength : ∀ r, edited = .array r → key ≠ "length")
    (h : s.setProperty edited key v = .ok t) : plainMember t edited key = .ok v := by
  obtain ⟨o, rfl, rfl⟩ | ⟨r, e, rfl, hextent, rfl⟩ := setProperty_eq_ok h
  · have hread := s.properties_setProperties o o ((s.properties o).insert key v)
    rw [if_pos ⟨rfl, hmade _ rfl⟩] at hread
    show Except.ok ((Bindings.find? (Store.properties _ o) key).getD .undefined) = _
    rw [hread, Bindings.find?_insert, if_pos rfl]
    rfl
  · have hkey := hlength r rfl
    have hread := s.items_setItems r r (e.after (s.items r))
    rw [if_pos ⟨rfl, hmade _ rfl⟩] at hread
    simp only [ArrayWrite.extent?, if_neg hkey, Option.map_eq_some_iff] at hextent
    obtain ⟨i, hindex, rfl⟩ := hextent
    show Except.ok (Store.ownProperty _ (.array r) key) = _
    simp only [Store.ownProperty, if_neg hkey, hindex, Option.bind_some, hread,
      Extent.getElem?_after_element, if_true, Option.getD_some]

/-- An edit in place leaves what cells hold. -/
theorem held_of_setProperty (h : s.setProperty edited key v = .ok t) (c : CellRef) :
    t.held c = s.held c := by
  obtain ⟨o, -, rfl⟩ | ⟨r, e, -, -, rfl⟩ := setProperty_eq_ok h <;> rfl

/-! ### Cells that are written -/

/-- What may be read after a value has been written: the value, or what was there and counted as
unchanged against it. -/
def Store.ReadsBack (t : Store) (v w : Value) : Prop :=
  t.unwrap w = v ∨ t.hasChanged (t.unwrap w) v = false

/-- Nothing but a cell counts as unchanged against a cell. -/
theorem isPlain_of_unchanged (hv : v.IsPlain) (h : s.hasChanged w v = false) : w.IsPlain := by
  rintro d rfl
  cases v with
  | cell c => exact hv c rfl
  | _ => cases h

theorem unwrap_of_isPlain (hv : v.IsPlain) : s.unwrap v = v :=
  Store.unwrap_of_not_isCell hv.not_isCell

/-- A cell that has been written holds the value, or what counted as unchanged. -/
theorem held_of_setCell (hc : s.Has c) (hv : v.IsPlain) :
    (s.setCell c v).1.ReadsBack v ((s.setCell c v).1.held c) ∧
    (s.setCell c v).1.ReadsBack v (.cell c) := by
  have hheld := s.held_setCell c c v
  cases hchanged : s.hasChanged (s.held c) v with
  | true =>
    rw [if_pos ⟨rfl, hc, hchanged⟩] at hheld
    rw [hheld]
    exact ⟨.inl (unwrap_of_isPlain hv), .inl hheld⟩
  | false =>
    -- the write did not count, so what is read is what the value was compared with
    have hsame : (s.setCell c v).1 = s := by simp [Store.setCell, hchanged]
    rw [hsame]
    refine ⟨.inr ?_, .inr hchanged⟩
    rwa [unwrap_of_isPlain (isPlain_of_unchanged hv hchanged)]

/-- The write of a cell edits no array and no object. -/
theorem contents_setCell (s : Store) (c : CellRef) (v : Value) :
    (∀ r, (s.setCell c v).1.items r = s.items r) ∧
      ∀ o, (s.setCell c v).1.properties o = s.properties o := by
  unfold Store.setCell
  split
  · exact ⟨items_trigger (s.commit c v) c, properties_trigger (s.commit c v) c⟩
  · exact ⟨fun _ => rfl, fun _ => rfl⟩

/-! ### Every write -/

/-- Nothing in the store refers to what has not been made. -/
def Store.Grounded (s : Store) : Prop := ∀ e ∈ s.entities, ∀ f ∈ s.referents e, s.hasMade f = true

instance (s : Store) : Decidable s.Grounded :=
  inferInstanceAs (Decidable (∀ e ∈ s.entities, ∀ f ∈ s.referents e, s.hasMade f = true))

theorem mem_entities_of_hasMade {e : Entity} (h : s.hasMade e = true) : e ∈ s.entities := by
  simp only [Store.entities, List.mem_append, List.mem_map, List.mem_range]
  cases e with
  | array r => exact .inl (.inl ⟨r.id, of_decide_eq_true h, rfl⟩)
  | object r => exact .inl (.inr ⟨r.id, of_decide_eq_true h, rfl⟩)
  | cell c => exact .inr ⟨c.id, of_decide_eq_true h, rfl⟩

namespace Store.Grounded

variable (h : s.Grounded)

include h

theorem referents (e : Entity) : ∀ f ∈ s.referents e, s.hasMade f = true := by
  cases hmade : s.hasMade e with
  | true => exact h e (mem_entities_of_hasMade hmade)
  | false => simp [referents_of_unmade hmade]

theorem held (c : CellRef) : (s.held c).Within (s.hasMade · = true) :=
  within_references.1 (h.referents (.cell c)) _ List.mem_cons_self

theorem find? {o : ObjectRef} (hfind : (s.properties o).find? key = some v) :
    v.Within (s.hasMade · = true) :=
  within_references.1 (h.referents (.object o)) v (Bindings.mem_values_of_find? hfind)

end Store.Grounded

theorem has_of_within (h : (Value.cell c).Within (s.hasMade · = true)) : s.Has c :=
  of_decide_eq_true (h _ rfl)

theorem getMember_of_isPlain (h : target.IsPlain) :
    getMember s target key = plainMember s target key := by
  cases target with
  | cell c => exact absurd rfl (h c)
  | _ => rfl

theorem answers_of_isPlain (h : target.IsPlain) : target.answers key = false := by
  cases target with
  | cell c => exact absurd rfl (h c)
  | _ => rfl

/-- What a cell answers itself it reads off its own state. -/
theorem getMember_of_answers (h : (Value.cell c).answers key = true)
    (hheld : t.held c = s.held c)
    (hprevious : (t.cellState c).previous = (s.cellState c).previous) :
    getMember t (.cell c) key = getMember s (.cell c) key := by
  simp only [Value.answers, List.contains_cons, List.contains_nil, Bool.or_false,
    Bool.or_eq_true_iff, beq_iff_eq] at h
  rcases h with rfl | rfl | rfl
  · show Except.ok (t.held c) = Except.ok (s.held c)
    rw [hheld]
  · show Except.ok ((t.cellState c).previous.getD .undefined) = _
    rw [hprevious]
    rfl
  · show Except.ok (Value.bool (t.cellState c).previous.isSome) = _
    rw [hprevious]
    rfl

/-- No array takes a write of what cells answer. -/
theorem indexOfKey?_of_answers (h : target.answers key = true) :
    key ≠ "length" ∧ indexOfKey? key = none := by
  cases target with
  | cell c =>
    have hnames : ∀ found ∈ ["value", "previousValue", "hasPreviousValue"],
        found ≠ "length" ∧ indexOfKey? found = none := by
      decide
    exact hnames key (List.contains_iff_mem.1 h)
  | _ => cases h

/-- A write past a cell, of a member that the cell answers itself, goes into an object and shows in
nothing that is read through the cell. -/
theorem past_answered (hgrounded : s.Grounded) (h : (Value.cell c).answers key = true)
    (hedit : s.setProperty (s.held c) key v = .ok t) :
    ∃ o, s.held c = .object o ∧ ((t.trigger c).properties o).find? key = some v ∧
      getMember (t.trigger c) (.cell c) key = getMember s (.cell c) key := by
  obtain ⟨o, hobject, rfl⟩ | ⟨r, e, -, hextent, -⟩ := setProperty_eq_ok hedit
  · have hmade : s.hasMade (.object o) = true := hgrounded.held c _ (by rw [hobject]; rfl)
    refine ⟨o, hobject, ?_, getMember_of_answers h (Store.held_trigger _ c c)
      (Store.project_trigger CellState.previous _ c c fun _ => rfl)⟩
    rw [properties_trigger, Store.properties_setProperties, if_pos ⟨rfl, hmade⟩,
      Bindings.find?_insert, if_pos rfl]
  · -- an array would have to take the key for an index
    obtain ⟨hkey, hindex⟩ := indexOfKey?_of_answers h
    simp only [ArrayWrite.extent?, if_neg hkey, hindex, Option.map_none] at hextent
    cases hextent

/-- A write past a cell, of a member that the cell does not answer, is read back. -/
theorem past_unanswered (hgrounded : s.Grounded) (h : (Value.cell c).answers key = false)
    (hlength : ∀ r, s.held c = .array r → key ≠ "length")
    (hedit : s.setProperty (s.held c) key v = .ok t) :
    getMember (t.trigger c) (.cell c) key = .ok v := by
  have hheld : (t.trigger c).unwrap (.cell c) = s.held c :=
    (t.held_trigger c c).trans (held_of_setProperty hedit c)
  have hplain : ¬((t.trigger c).unwrap (.cell c)).IsCell := by
    rw [hheld]
    rintro ⟨d, hd⟩
    rw [hd] at hedit
    cases hedit
  rw [Store.getMember_of_not_answers hplain h, hheld,
    plainMember_congr (items_trigger t c) (properties_trigger t c)]
  exact plainMember_of_setProperty (hgrounded.held c) hlength hedit

/-- A member that has been written is read back.  Whatever the target and the key are, other than
the length of an array, and whatever value that is no cell is written, if the write succeeds:

* Reading the member gives the value, or a cell that holds it, unless the write did not count as a
  change: then it gives what was there.
* The value of a cell is written to the cell itself, and no array and no object is edited.
* This does not hold of what else a cell answers itself.  The write of `previousValue` or
  `hasPreviousValue` puts the value into the object that the cell holds, and reading the member
  gives what it gave before. -/
theorem written_member_is_read_back (hgrounded : s.Grounded)
    (htarget : target.Within (s.hasMade · = true)) (hv : v.IsPlain)
    (hlength : ∀ r, s.unwrap target = .array r → key ≠ "length")
    (hwrite : setMember s target key v = (t, .ok ())) :
    ((target.answers key = true → key = "value") →
      ∃ w, getMember t target key = .ok w ∧ t.ReadsBack v w) ∧
    (target.answers key = true → key = "value" →
      (∀ r, t.items r = s.items r) ∧ ∀ o, t.properties o = s.properties o) ∧
    (target.answers key = true → key ≠ "value" →
      ∃ o, s.unwrap target = .object o ∧ (t.properties o).find? key = some v ∧
        getMember t target key = getMember s target key) := by
  cases written_of_setMember hwrite with
  | cell c hkey =>
    rw [unwrap_of_isPlain hv]
    refine ⟨fun _ => ?_, fun _ _ => contents_setCell s c v, fun _ hne => absurd hkey hne⟩
    subst hkey
    exact ⟨_, rfl, (held_of_setCell (has_of_within htarget) hv).1⟩
  | past c hkey hedit =>
    refine ⟨fun hown => ⟨v, ?_, .inl (unwrap_of_isPlain hv)⟩, fun _ h => absurd h hkey,
      fun h _ => past_answered hgrounded h hedit⟩
    have h : (Value.cell c).answers key = false := Bool.eq_false_iff.2 fun h => hkey (hown h)
    exact past_unanswered hgrounded h hlength hedit
  | @bound o c hfind =>
    rw [unwrap_of_isPlain hv]
    refine ⟨fun _ => ⟨.cell c, ?_, ?_⟩, nofun, nofun⟩
    · show Except.ok ((Bindings.find? (Store.properties _ o) key).getD .undefined) = _
      rw [(contents_setCell s c v).2, hfind]
      rfl
    · exact (held_of_setCell (has_of_within (hgrounded.find? hfind)) hv).2
  | own hplain hfind hedit =>
    have h : target.answers key = false := answers_of_isPlain hplain
    refine ⟨fun _ => ⟨v, ?_, .inl (unwrap_of_isPlain hv)⟩, by simp [h], by simp [h]⟩
    rw [getMember_of_isPlain hplain]
    rw [unwrap_of_isPlain hplain] at hlength
    exact plainMember_of_setProperty htarget hlength hedit

/-- An object, in a cell, with a cell in a property. -/
def boundStore : Store where
  objects := #[Bindings.ofList [("n", .cell ⟨1⟩)]]
  cells := #[{ held := .object ⟨0⟩ }, { held := .null }]

/-- What is written to the property is read back, and the property stays bound to its cell. -/
theorem bound_property_is_read_back :
    boundStore.Grounded ∧ ∃ t, setMember boundStore (.object ⟨0⟩) "n" (.bool true) = (t, .ok ()) ∧
      ∃ w, getMember t (.object ⟨0⟩) "n" = .ok w ∧ t.ReadsBack (.bool true) w := by
  have hgrounded : boundStore.Grounded := by decide
  have htarget : (Value.object ⟨0⟩).Within (boundStore.hasMade · = true) := by
    rintro _ ⟨⟩
    rfl
  have hread := @written_member_is_read_back boundStore _ (.object ⟨0⟩) (.bool true) "n" hgrounded
    htarget nofun nofun rfl
  exact ⟨hgrounded, _, rfl, hread.1 nofun⟩

/-- Through a cell that holds an object, `true` is written as the previous value: it is put into the
object, and the previous value that is read stays `undefined`. -/
theorem previous_value_is_written_past_the_cell :
    ∃ t, setMember boundStore (.cell ⟨0⟩) "previousValue" (.bool true) = (t, .ok ()) ∧
      getMember t (.cell ⟨0⟩) "previousValue" = .ok .undefined ∧
        ¬t.ReadsBack (.bool true) .undefined ∧
          (t.properties ⟨0⟩).find? "previousValue" = some (.bool true) := by
  refine ⟨_, rfl, rfl, ?_, rfl⟩
  rintro (h | h) <;> cases h

end LiveMarkup
