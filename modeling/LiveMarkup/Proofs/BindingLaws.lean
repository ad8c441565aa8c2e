import LiveMarkup.Bindings
import LiveMarkup.Syntax.Parser
import Mathlib.Data.List.Perm.Subperm

/-!
# Laws of bindings

What a name is bound to, by the entries, by the names and by the position of the name.  A function
is compiled over the names of a context and called with its values, so what a parameter stands for
is what the name is bound to.

## Main results

* `find?_eq_some_iff_mem` — looking a name up finds the entry of that name.
* `find?_insertAll`, `find?_merge` — what is inserted later comes first.
* `mem_names_insertAll`, `names_insertAll_eq` — the names after insertions.
* `find?_of_lastPosition?` — the value at the last position of a name is the one it is bound to.
-/

namespace LiveMarkup.Bindings

open Syntax

variable {α β : Type} {b c : Bindings α} {name other : String} {x : α}

/-! ### Looking names up -/

theorem find?_eq_none_iff (b : Bindings α) (name : String) :
    b.find? name = none ↔ name ∉ b.names := by
  simp only [find?, names, List.lookup_eq_none_iff, bne_iff_ne, List.mem_map, not_exists, not_and]
  constructor
  · intro h e he hname
    exact h e he hname.symm
  · intro h e he hname
    exact h e he hname.symm

theorem mem_names_of_find?_eq_some (h : b.find? name = some x) : name ∈ b.names := by
  by_contra hname
  rw [(b.find?_eq_none_iff name).2 hname] at h
  cases h

theorem exists_find?_of_mem_names (h : name ∈ b.names) : ∃ x, b.find? name = some x := by
  cases hx : b.find? name with
  | none => exact absurd h ((b.find?_eq_none_iff name).1 hx)
  | some x => exact ⟨x, rfl⟩

/-- Names are distinct, so the entry of a name is what the name is bound to. -/
theorem lookup_of_mem : ∀ {l : List (String × α)},
    (l.map Prod.fst).Nodup → (name, x) ∈ l → l.lookup name = some x := by
  intro l
  induction l with
  | nil => intro _ h; cases h
  | cons e rest ih =>
    intro hnodup h
    obtain ⟨n, y⟩ := e
    rw [List.map_cons, List.nodup_cons] at hnodup
    rcases List.mem_cons.1 h with heq | hrest
    · cases heq
      exact List.lookup_cons_self
    · have hne : name ≠ n := by
        rintro rfl
        exact hnodup.1 (List.mem_map.2 ⟨(name, x), hrest, rfl⟩)
      rw [List.lookup_cons, beq_false_of_ne hne]
      exact ih hnodup.2 hrest

/-- Looking a name up finds exactly the entry of that name. -/
theorem find?_eq_some_iff_mem (b : Bindings α) (name : String) (x : α) :
    b.find? name = some x ↔ (name, x) ∈ b.entries := by
  constructor
  · intro h
    obtain ⟨before, after, heq, -⟩ := List.lookup_eq_some_iff.1 h
    rw [heq]
    simp
  · exact lookup_of_mem b.nodup

theorem contains_of_find? (h : b.find? name = some x) : b.contains name = true :=
  List.contains_iff_mem.2 (mem_names_of_find?_eq_some h)

theorem mem_values_of_find? (h : b.find? name = some x) : x ∈ b.values :=
  List.mem_map.2 ⟨(name, x), (b.find?_eq_some_iff_mem name x).1 h, rfl⟩

theorem find?_map (f : α → β) : (b.map f).find? name = (b.find? name).map f := by
  have hentries : ∀ entries : List (String × α),
      (entries.map fun e => (e.1, f e.2)).lookup name = (entries.lookup name).map f := by
    intro entries
    induction entries with
    | nil => rfl
    | cons e rest ih =>
      rw [List.map_cons, List.lookup_cons, List.lookup_cons, ih]
      split <;> rfl
  exact hentries b.entries

/-- What is inserted under a name takes the place of what was there. -/
theorem find?_insertAll {pairs : List (String × α)} (hnodup : (pairs.map Prod.fst).Nodup) :
    (b.insertAll pairs).find? name = (pairs.lookup name).or (b.find? name) := by
  induction pairs generalizing b with
  | nil => rfl
  | cons e rest ih =>
    obtain ⟨n, y⟩ := e
    obtain ⟨hn, hrest⟩ := List.nodup_cons.1 hnodup
    rw [insertAll, List.foldl_cons, ← insertAll, ih hrest, find?_insert, List.lookup_cons]
    by_cases hname : name = n
    · subst hname
      have hnone : rest.lookup name = none :=
        (find?_eq_none_iff ⟨rest, hrest⟩ name).2 hn
      simp [hnone]
    · have : (name == n) = false := by simpa using hname
      simp [this, hname]

theorem find?_merge : (b.merge c).find? name = (c.find? name).or (b.find? name) :=
  find?_insertAll c.nodup

/-! ### Names -/

/-- As many names as another list of names that has them all: the names are the same. -/
theorem mem_names_iff_of_subset (hsize : b.size = c.size)
    (hsub : ∀ name ∈ b.names, name ∈ c.names) (name : String) :
    name ∈ b.names ↔ name ∈ c.names := by
  have hlength : c.names.length ≤ b.names.length := by
    simp only [names, List.length_map]
    exact Nat.le_of_eq hsize.symm
  exact ((b.nodup.subperm hsub).perm_of_length_le hlength).mem_iff

theorem size_eq_of_mem_names_iff (h : ∀ name, name ∈ b.names ↔ name ∈ c.names) :
    b.size = c.size := by
  have hperm : b.names.Perm c.names := (List.perm_ext_iff_of_nodup b.nodup c.nodup).2 h
  simpa [names, size] using hperm.length_eq

theorem length_values (b : Bindings α) : b.values.length = b.names.length := by
  simp [values, names]

theorem mem_names_insert : other ∈ (b.insert name x).names ↔ other ∈ b.names ∨ other = name := by
  rw [names_insert]
  split
  · next h => exact ⟨.inl, fun h' => h'.elim id fun heq => heq ▸ h⟩
  · simp

theorem names_map (f : α → β) (b : Bindings α) : (b.map f).names = b.names := by
  simp [names, map]

theorem mem_names_insertAll {pairs : List (String × α)} :
    other ∈ (b.insertAll pairs).names ↔ other ∈ b.names ∨ other ∈ pairs.map Prod.fst := by
  induction pairs generalizing b with
  | nil => simp [insertAll]
  | cons e rest ih =>
    rw [insertAll, List.foldl_cons, ← insertAll, ih, mem_names_insert, List.map_cons,
      List.mem_cons, or_assoc]

theorem mem_names_merge : other ∈ (b.merge c).names ↔ other ∈ b.names ∨ other ∈ c.names :=
  mem_names_insertAll

/-- The names after insertions do not depend on what is inserted. -/
theorem names_insertAll_eq {b b' : Bindings α} (hb : b.names = b'.names)
    {pairs pairs' : List (String × α)} (hpairs : pairs.map Prod.fst = pairs'.map Prod.fst) :
    (b.insertAll pairs).names = (b'.insertAll pairs').names := by
  induction pairs generalizing b b' pairs' with
  | nil =>
    obtain rfl := List.map_eq_nil_iff.1 hpairs.symm
    exact hb
  | cons p rest ih =>
    obtain ⟨p', rest', rfl, hp, hrest⟩ := List.map_eq_cons_iff.1 hpairs.symm
    have hnext : (b.insert p.1 p.2).names = (b'.insert p'.1 p'.2).names := by
      rw [names_insert, names_insert, hb, hp]
    exact ih hnext hrest.symm

/-! ### Positions -/

/-- A name is bound to what stands at its last position. -/
theorem lastPosition?_of_find? (h : b.find? name = some x) :
    ∃ slot, lastPosition? b.names name = some slot ∧ b.values[slot]? = some x := by
  obtain ⟨before, rest, heq, -⟩ := List.lookup_eq_some_iff.1 h
  refine ⟨before.length, ?_, by simp [values, heq]⟩
  have hnodup := b.nodup
  rw [heq, List.map_append, List.map_cons, List.nodup_append, List.nodup_cons] at hnodup
  have hrest : (rest.map Prod.fst).reverse.findIdx? (· == name) = none := by
    rw [List.findIdx?_eq_none_iff]
    intro other hother
    have hne : other ≠ name := by
      rintro rfl
      exact hnodup.2.1.1 (by simpa using hother)
    simpa using hne
  have hnames : b.names.reverse =
      (rest.map Prod.fst).reverse ++ name :: (before.map Prod.fst).reverse := by
    simp [names, heq]
  have hlength : b.names.length = before.length + (rest.length + 1) := by
    simp [names, heq]
  simp only [lastPosition?, hnames, List.findIdx?_append, hrest, List.findIdx?_cons, hlength,
    beq_self_eq_true, if_true, Option.none_or, Option.map_some, List.length_reverse,
    List.length_map]
  congr 1
  omega

/-- What stands at the last position of a name is what the name is bound to. -/
theorem find?_of_lastPosition? {slot : Nat} (h : lastPosition? b.names name = some slot) :
    b.find? name = b.values[slot]? := by
  cases hfind : b.find? name with
  | none =>
    have hnone : lastPosition? b.names name = none := by
      have hall : ∀ other ∈ b.names.reverse, (other == name) = false := by
        intro other hother
        have hne : other ≠ name := by
          rintro rfl
          exact (b.find?_eq_none_iff other).1 hfind (List.mem_reverse.1 hother)
        exact beq_false_of_ne hne
      rw [lastPosition?, List.findIdx?_eq_none_iff.2 hall]
      rfl
    rw [hnone] at h
    cases h
  | some x =>
    obtain ⟨slot', hslot, hvalue⟩ := lastPosition?_of_find? hfind
    obtain rfl : slot = slot' := Option.some.inj (h.symm.trans hslot)
    exact hvalue.symm

end LiveMarkup.Bindings
