import LiveMarkup.Proofs.BindingLaws
import LiveMarkup.Store.Cell
import Mathlib.Data.List.Forall2

/-!
# The change policy

A write to a cell counts as a change unless the value written is like the value held: the same by
`===`, or an array or object that is the same by `===` one level down.  The policy walks the
properties of the object written only, and takes a property that the held object lacks for
`undefined`.  So it lets one more kind of write pass for no change: an object with as many
properties, some of which are `undefined` and stand in for properties of the held object.

## Main definitions

* `Store.Alike` — values that are the same down to one level.
* `Store.Masks` — the objects that the policy takes for the held one though they are not alike.
* `Value.SameRead` — reads that give the same.

## Main results

* `Store.hasChanged_eq_false_iff` — when a write does not count.
* `Store.sameRead_iff_of_unchanged` — what can then be read of the value held.
* `Store.write_gate_exact` — both together, for a write to a cell.
-/

namespace LiveMarkup

/-! ### Likeness -/

/-- Lists of the same length with the same elements by `===`. -/
def SameItems (xs ys : List Value) : Prop := List.Forall₂ (fun x y => x.strictEquals y) xs ys

/-- Properties of the same names that are the same by `===`. -/
structure SameProperties (b c : Bindings Value) : Prop where
  names : ∀ name, name ∈ b.names ↔ name ∈ c.names
  values : ∀ name v w, b.find? name = some v → c.find? name = some w → v.strictEquals w

/-- What is read of an object under a name. -/
def Bindings.read (b : Bindings Value) (name : String) : Value := (b.find? name).getD .undefined

/-- Properties that stand in for others: as many, each the same by `===` as what is read under its
name of the others, though a name of the others is missing. -/
structure StandIn (b c : Bindings Value) : Prop where
  size : b.size = c.size
  values : ∀ name w, c.find? name = some w → (b.read name).strictEquals w
  missing : ∃ name ∈ b.names, name ∉ c.names

namespace Store

/-- Values that are the same by `===`, or arrays or objects that are so one level down. -/
def Alike (s : Store) (current next : Value) : Prop :=
  current.strictEquals next ∨
    (∃ a b, current = .array a ∧ next = .array b ∧ SameItems (s.items a) (s.items b)) ∨
      ∃ a b, current = .object a ∧ next = .object b ∧
        SameProperties (s.properties a) (s.properties b)

/-- An object written whose properties stand in for those of the object held. -/
def Masks (s : Store) (current next : Value) : Prop :=
  ∃ a b, current = .object a ∧ next = .object b ∧ StandIn (s.properties a) (s.properties b)

end Store

/-- Reads that give the same, or the same by `===`. -/
def Value.SameRead (v w : Value) : Prop := v = w ∨ v.strictEquals w

namespace Store

/-- A property of the object held that is not `undefined` and that the object written lacks. -/
def OnlyHeld (s : Store) (current next : Value) (name : String) : Prop :=
  ∃ a b v, current = .object a ∧ next = .object b ∧ (s.properties a).find? name = some v ∧
    v.strictEquals .undefined = false ∧ name ∉ (s.properties b).names

end Store

/-! ### When a write does not count -/

theorem someDiffer_eq_false_iff (xs ys : List Value) :
    (xs.length != ys.length || Store.someDiffer xs ys) = false ↔ SameItems xs ys := by
  unfold SameItems Store.someDiffer
  rw [Bool.or_eq_false_iff, bne_eq_false_iff_eq, List.any_eq_false, List.forall₂_iff_zip]
  constructor
  · rintro ⟨hlength, hall⟩
    refine ⟨hlength, fun {x y} hxy => ?_⟩
    simpa using hall (x, y) hxy
  · rintro ⟨hlength, hall⟩
    refine ⟨hlength, fun p hp => ?_⟩
    simpa using hall hp

/-- What the policy asks of the properties of two objects. -/
theorem propertiesDiffer_eq_false_iff (b c : Bindings Value) :
    (b.size != c.size || c.entries.any fun (name, w) => !(b.read name).strictEquals w) = false ↔
      b.size = c.size ∧ ∀ name w, c.find? name = some w → (b.read name).strictEquals w := by
  rw [Bool.or_eq_false_iff, bne_eq_false_iff_eq, List.any_eq_false]
  refine and_congr_right fun _ => ?_
  constructor
  · intro h name w hw
    simpa using h (name, w) ((c.find?_eq_some_iff_mem name w).1 hw)
  · rintro h ⟨name, w⟩ hw
    simpa using h name w ((c.find?_eq_some_iff_mem name w).2 hw)

namespace Bindings

theorem read_of_find? {b : Bindings Value} {name : String} {v : Value}
    (h : b.find? name = some v) : b.read name = v := by
  rw [read, h]
  rfl

theorem read_of_notMem {b : Bindings Value} {name : String} (h : name ∉ b.names) :
    b.read name = .undefined := by
  rw [read, (b.find?_eq_none_iff name).2 h]
  rfl

end Bindings

/-- Properties that the policy does not tell apart are the same, or stand in for the others. -/
theorem sameProperties_or_standIn_iff (b c : Bindings Value) :
    (b.size = c.size ∧ ∀ name w, c.find? name = some w → (b.read name).strictEquals w) ↔
      SameProperties b c ∨ StandIn b c := by
  constructor
  · rintro ⟨hsize, hvalues⟩
    by_cases hsub : ∀ name ∈ b.names, name ∈ c.names
    · -- no name is missing, so both have the same names
      refine .inl ⟨Bindings.mem_names_iff_of_subset hsize hsub, ?_⟩
      intro name v w hv hw
      rw [← Bindings.read_of_find? hv]
      exact hvalues name w hw
    · refine .inr ⟨hsize, hvalues, ?_⟩
      simpa using hsub
  · rintro (h | h)
    · refine ⟨Bindings.size_eq_of_mem_names_iff h.names, ?_⟩
      intro name w hw
      have hname : name ∈ b.names := (h.names name).2 (Bindings.mem_names_of_find?_eq_some hw)
      obtain ⟨v, hv⟩ := Bindings.exists_find?_of_mem_names hname
      rw [Bindings.read_of_find? hv]
      exact h.values name v w hv hw
    · exact ⟨h.size, h.values⟩

namespace Store

/-- The policy on two arrays. -/
theorem hasChanged_array (s : Store) {a b : ArrayRef}
    (h : (Value.array a).strictEquals (.array b) = false) :
    s.hasChanged (.array a) (.array b) =
      ((s.items a).length != (s.items b).length || someDiffer (s.items a) (s.items b)) := by
  simp [hasChanged, h, Value.isNullish]

/-- The policy on two objects. -/
theorem hasChanged_object (s : Store) {a b : ObjectRef}
    (h : (Value.object a).strictEquals (.object b) = false) :
    s.hasChanged (.object a) (.object b) =
      ((s.properties a).size != (s.properties b).size ||
        (s.properties b).entries.any fun (name, w) =>
          !((s.properties a).read name).strictEquals w) := by
  simp [hasChanged, h, Value.isNullish, Bindings.read]

/-- A write does not count exactly if the value written is like the value held or masks it. -/
theorem hasChanged_eq_false_iff (s : Store) (current next : Value) :
    s.hasChanged current next = false ↔ s.Alike current next ∨ s.Masks current next := by
  cases heq : current.strictEquals next with
  | true => simp [hasChanged, Alike, heq]
  | false =>
    unfold Alike Masks
    cases current <;> cases next
    case array.array a b =>
      rw [s.hasChanged_array heq, someDiffer_eq_false_iff]
      simp [heq]
    case object.object a b =>
      rw [s.hasChanged_object heq, propertiesDiffer_eq_false_iff, sameProperties_or_standIn_iff]
      simp [heq]
    all_goals simp [hasChanged, heq]

/-- A mask of a value is not like it. -/
theorem not_alike_of_masks {s : Store} {current next : Value} (h : s.Masks current next) :
    ¬s.Alike current next := by
  obtain ⟨a, b, rfl, rfl, hstand⟩ := h
  obtain ⟨name, hheld, hmissing⟩ := hstand.missing
  rintro (heq | ⟨a', b', h, -⟩ | ⟨a', b', ha, hb, hsame⟩)
  · -- the same object has the same names
    have hab : a = b := by simpa [Value.strictEquals] using heq
    rw [hab] at hheld
    exact hmissing hheld
  · cases h
  · cases ha
    cases hb
    exact hmissing ((hsame.names name).1 hheld)

/-! ### What is read of a value that was not replaced -/

theorem property_array (s : Store) (a : ArrayRef) (key : String) :
    s.property (.array a) key =
      if key = "length" then .number (Number.ofNat (s.items a).length)
      else ((indexOfKey? key).bind fun i => (s.items a)[i]?).getD .undefined := rfl

theorem property_object (s : Store) (a : ObjectRef) (key : String) :
    s.property (.object a) key = (s.properties a).read key := rfl

theorem sameRead_of_strictEquals (s : Store) {current next : Value}
    (h : current.strictEquals next) (key : String) :
    Value.SameRead (s.property current key) (s.property next key) := by
  cases current <;> cases next <;> simp only [Value.strictEquals, beq_iff_eq, reduceCtorEq] at h
  case number.number => exact .inl rfl
  case undefined.undefined | null.null => exact .inl rfl
  all_goals
    subst h
    exact .inl rfl

/-- Elements at the same place of arrays with the same items are the same. -/
theorem sameRead_getElem? {xs ys : List Value} (h : SameItems xs ys) (i : Nat) :
    Value.SameRead (xs[i]?.getD .undefined) (ys[i]?.getD .undefined) := by
  induction h generalizing i with
  | nil => exact .inl rfl
  | cons hxy _ ih =>
    cases i with
    | zero => exact .inr hxy
    | succ i => exact ih i

theorem sameRead_of_sameItems (s : Store) {a b : ArrayRef}
    (h : SameItems (s.items a) (s.items b)) (key : String) :
    Value.SameRead (s.property (.array a) key) (s.property (.array b) key) := by
  rw [property_array, property_array, h.length_eq]
  split
  · exact .inl rfl
  · cases indexOfKey? key with
    | none => exact .inl rfl
    | some i => exact sameRead_getElem? h i

/-- Of objects that the policy does not tell apart, a name is read the same unless only the object
held has it. -/
theorem sameRead_of_unchanged_object (s : Store) {a b : ObjectRef} {key : String}
    (h : ∀ name w, (s.properties b).find? name = some w →
      ((s.properties a).read name).strictEquals w)
    (honly : ¬s.OnlyHeld (.object a) (.object b) key) :
    Value.SameRead (s.property (.object a) key) (s.property (.object b) key) := by
  rw [property_object, property_object]
  by_cases hb : key ∈ (s.properties b).names
  · obtain ⟨w, hw⟩ := Bindings.exists_find?_of_mem_names hb
    rw [Bindings.read_of_find? hw]
    exact .inr (h key w hw)
  · rw [Bindings.read_of_notMem hb]
    cases hv : (s.properties a).find? key with
    | none => exact .inl (Bindings.read_of_notMem ((Bindings.find?_eq_none_iff _ _).1 hv))
    | some v =>
      rw [Bindings.read_of_find? hv]
      refine .inr ?_
      by_contra hne
      exact honly ⟨a, b, v, rfl, rfl, hv, Bool.eq_false_iff.2 hne, hb⟩

/-- A name that only the object held has is read differently. -/
theorem not_sameRead_of_onlyHeld {s : Store} {current next : Value} {key : String}
    (h : s.OnlyHeld current next key) :
    ¬Value.SameRead (s.property current key) (s.property next key) := by
  obtain ⟨a, b, v, rfl, rfl, hv, hne, hmissing⟩ := h
  rw [property_object, property_object, Bindings.read_of_find? hv,
    Bindings.read_of_notMem hmissing]
  rintro (heq | heq)
  · rw [heq] at hne
    cases hne
  · rw [heq] at hne
    cases hne

/-- After a write that does not count, a property of the value held is read as it would be read of
the value written, unless only the object held has it. -/
theorem sameRead_iff_of_unchanged {s : Store} {current next : Value}
    (h : s.hasChanged current next = false) (key : String) :
    Value.SameRead (s.property current key) (s.property next key) ↔
      ¬s.OnlyHeld current next key := by
  refine ⟨fun hread honly => not_sameRead_of_onlyHeld honly hread, fun honly => ?_⟩
  rcases (s.hasChanged_eq_false_iff current next).1 h with
    (heq | ⟨a, b, rfl, rfl, hitems⟩ | ⟨a, b, rfl, rfl, hsame⟩) | ⟨a, b, rfl, rfl, hstand⟩
  · exact s.sameRead_of_strictEquals heq key
  · exact s.sameRead_of_sameItems hitems key
  · have := (sameProperties_or_standIn_iff _ _).2 (.inl hsame)
    exact s.sameRead_of_unchanged_object this.2 honly
  · exact s.sameRead_of_unchanged_object hstand.values honly

/-- Only the masks of a value lack a property of it. -/
theorem masks_of_onlyHeld {s : Store} {current next : Value} {key : String}
    (h : s.hasChanged current next = false) (honly : s.OnlyHeld current next key) :
    s.Masks current next := by
  obtain ⟨a, b, v, rfl, rfl, hv, -, hmissing⟩ := honly
  rcases (s.hasChanged_eq_false_iff _ _).1 h with (heq | ⟨_, _, h, -⟩ | ⟨a', b', ha, hb, hsame⟩) | h
  · have hab : a = b := by simpa [Value.strictEquals] using heq
    rw [hab] at hv
    exact absurd (Bindings.mem_names_of_find?_eq_some hv) hmissing
  · cases h
  · cases ha
    cases hb
    exact absurd ((hsame.names key).1 (Bindings.mem_names_of_find?_eq_some hv)) hmissing
  · exact h

/-! ### Writes to a cell -/

/-- A write that does not count leaves everything as it was. -/
theorem setCell_of_unchanged {s : Store} {c : CellRef} {v : Value}
    (h : (s.setCell c v).2 = false) :
    s.hasChanged (s.held c) v = false ∧ (s.setCell c v).1 = s := by
  unfold setCell at h ⊢
  split at h
  · cases h
  · next hunchanged => exact ⟨Bool.eq_false_iff.2 hunchanged, by rw [if_neg hunchanged]⟩

/-- **What the gate lets pass for no change**: the values like the one held, and the masks of it.
After a write that it so refuses the cell is as it was, and every property of the value held is read
as it would be read of the value written, but for those that a mask lacks. -/
theorem write_gate_exact (s : Store) :
    (∀ current next, s.hasChanged current next = false ↔
      s.Alike current next ∨ s.Masks current next) ∧
    (∀ current next, s.Masks current next → ¬s.Alike current next) ∧
    ∀ c v, (s.setCell c v).2 = false →
      (s.setCell c v).1 = s ∧
      ∀ key,
        (Value.SameRead (s.property (s.held c) key) (s.property v key) ↔
          ¬s.OnlyHeld (s.held c) v key) ∧
        (s.OnlyHeld (s.held c) v key → s.Masks (s.held c) v) := by
  refine ⟨s.hasChanged_eq_false_iff, fun _ _ => not_alike_of_masks, fun c v h => ?_⟩
  obtain ⟨hunchanged, hstore⟩ := setCell_of_unchanged h
  exact ⟨hstore, fun key => ⟨sameRead_iff_of_unchanged hunchanged key,
    masks_of_onlyHeld hunchanged⟩⟩

/-- A cell that holds `{a: 1}` refuses `{b: undefined}`, and goes on to give `1` for
`a`. -/
theorem masked_write_is_lost :
    let s : Store :=
      { objects := #[.ofList [("a", .number 1.0)], .ofList [("b", .undefined)]]
        cells := #[{ held := .object ⟨0⟩ }] }
    (s.setCell ⟨0⟩ (.object ⟨1⟩)).2 = false ∧ ¬s.Alike (s.held ⟨0⟩) (.object ⟨1⟩) ∧
      ¬Value.SameRead (s.property (s.held ⟨0⟩) "a") (s.property (.object ⟨1⟩) "a") := by
  intro s
  have honly : s.OnlyHeld (s.held ⟨0⟩) (.object ⟨1⟩) "a" :=
    ⟨⟨0⟩, ⟨1⟩, .number 1.0, rfl, rfl, rfl, rfl, by decide⟩
  have hunchanged : s.hasChanged (s.held ⟨0⟩) (.object ⟨1⟩) = false := by decide
  refine ⟨by decide, ?_, not_sameRead_of_onlyHeld honly⟩
  exact not_alike_of_masks (masks_of_onlyHeld hunchanged honly)

end Store

end LiveMarkup
