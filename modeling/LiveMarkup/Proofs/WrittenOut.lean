import LiveMarkup.Store.Lifetime
import LiveMarkup.Store.Snapshot
import Mathlib.Data.List.Perm.Subperm
import Mathlib.Logic.Relation

/-!
# Values written out in full

A value that nowhere contains itself is a finite tree.  The tree is written down in full: the store
is large enough a bound for how deep it is, as nothing is entered twice on one way down, and nothing
is taken for a part that is being written.

## Main definitions

* `Store.inside`, `Store.Contains` — what something has in it.
* `Store.AcyclicBelow` — a value with nothing in it that is inside itself.
* `Store.HasTree` — the tree of a value, given without a bound.

## Main results

* `Store.HasTree.unique` — a value has no more than one tree.
* `Store.AcyclicBelow.hasTree_snapshot` — a value that is not inside itself is written out in full.
* `Store.hasTree_iff` — what has a tree is not inside itself, and the tree is what is written.
-/

namespace LiveMarkup.Store

variable {s : Store} {v w : Value} {e : Entity}

/-! ### What is inside what -/

/-- The values that something has in it. -/
def inside (s : Store) : Entity → List Value
  | .array r => s.items r
  | .object r => (s.properties r).values
  | .cell r => [s.held r]

/-- Something is directly inside something else. -/
def Contains (s : Store) (outer inner : Entity) : Prop := inner ∈ references (s.inside outer)

/-- Nothing that a value leads to is inside itself. -/
def AcyclicBelow (s : Store) (v : Value) : Prop :=
  ∀ ⦃root e⦄, v.entity? = some root → Relation.ReflTransGen s.Contains root e →
    ¬Relation.TransGen s.Contains e e

theorem contains_of_mem (hv : v ∈ s.inside e) {inner : Entity} (hinner : v.entity? = some inner) :
    s.Contains e inner :=
  List.mem_filterMap.2 ⟨v, hv, hinner⟩

theorem AcyclicBelow.inside (h : s.AcyclicBelow v) (he : v.entity? = some e) (hw : w ∈ s.inside e) :
    s.AcyclicBelow w :=
  fun _ _ hroot hreach => h he (.head (contains_of_mem hw hroot) hreach)

/-- What is not in the store has nothing in it, or the absent value. -/
theorem inside_of_not_mem (he : e ∉ s.entities) (hw : w ∈ s.inside e) : w = .undefined := by
  have hrange {n i : Nat} (h : i ∉ List.range n) : n ≤ i := Nat.le_of_not_lt fun hlt =>
    h (List.mem_range.2 hlt)
  simp only [entities, List.mem_append, List.mem_map, not_or, not_exists, not_and] at he
  obtain ⟨⟨harrays, hobjects⟩, hcells⟩ := he
  cases e with
  | array r =>
    have hsize : s.arrays.size ≤ r.id := hrange fun h => harrays r.id h rfl
    simp [inside, items, Array.getD_eq_getD_getElem?, Array.getElem?_eq_none hsize] at hw
  | object r =>
    have hsize : s.objects.size ≤ r.id := hrange fun h => hobjects r.id h rfl
    simp [inside, properties, Array.getD_eq_getD_getElem?, Array.getElem?_eq_none hsize,
      Bindings.values, Bindings.empty] at hw
  | cell r =>
    have hsize : s.cells.size ≤ r.id := hrange fun h => hcells r.id h rfl
    simpa [inside, held, cellState, Array.getD_eq_getD_getElem?, Array.getElem?_eq_none hsize]
      using hw

/-! ### Trees -/

mutual

/-- The tree of a value, with all that is in it. -/
inductive HasTree (s : Store) : Value → Snapshot → Prop
  | undefined : HasTree s .undefined .undefined
  | null : HasTree s .null .null
  | bool (b : Bool) : HasTree s (.bool b) (.bool b)
  | number (x : Float) : HasTree s (.number x) (.number x)
  | string (t : String) : HasTree s (.string t) (.string t)
  | array (r : ArrayRef) {items : List Snapshot} (h : HasTrees s (s.items r) items) :
    HasTree s (.array r) (.array items)
  | object (r : ObjectRef) {entries : List (String × Snapshot)}
    (h : HasNamedTrees s (s.properties r).entries entries) : HasTree s (.object r) (.object entries)
  | cell (r : CellRef) {held : Snapshot} (h : HasTree s (s.held r) held) :
    HasTree s (.cell r) (.cell held)
  | function (f : Function) : HasTree s (.function f) (.function f.name)

/-- The trees of several values. -/
inductive HasTrees (s : Store) : List Value → List Snapshot → Prop
  | nil : HasTrees s [] []
  | cons {v : Value} {t : Snapshot} {vs : List Value} {ts : List Snapshot} (h : HasTree s v t)
    (hrest : HasTrees s vs ts) : HasTrees s (v :: vs) (t :: ts)

/-- The trees of named values. -/
inductive HasNamedTrees (s : Store) : List (String × Value) → List (String × Snapshot) → Prop
  | nil : HasNamedTrees s [] []
  | cons (name : String) {v : Value} {t : Snapshot} {vs : List (String × Value)}
    {ts : List (String × Snapshot)} (h : HasTree s v t) (hrest : HasNamedTrees s vs ts) :
    HasNamedTrees s ((name, v) :: vs) ((name, t) :: ts)

end

theorem hasTrees_map {vs : List Value} {f : Value → Snapshot} (h : ∀ v ∈ vs, s.HasTree v (f v)) :
    s.HasTrees vs (vs.map f) := by
  induction vs with
  | nil => exact .nil
  | cons v vs ih => exact .cons (h v List.mem_cons_self) (ih fun w hw => h w (.tail v hw))

theorem hasNamedTrees_map {vs : List (String × Value)} {f : Value → Snapshot}
    (h : ∀ v ∈ vs.map Prod.snd, s.HasTree v (f v)) :
    s.HasNamedTrees vs (vs.map fun (name, v) => (name, f v)) := by
  induction vs with
  | nil => exact .nil
  | cons e vs ih => exact .cons e.1 (h e.2 List.mem_cons_self) (ih fun w hw => h w (.tail e.2 hw))

mutual

/-- A value has no more than one tree. -/
theorem HasTree.unique {v : Value} {t t' : Snapshot} : s.HasTree v t → s.HasTree v t' → t = t'
  | .undefined, .undefined => rfl
  | .null, .null => rfl
  | .bool _, .bool _ => rfl
  | .number _, .number _ => rfl
  | .string _, .string _ => rfl
  | .array _ h, .array _ h' => congrArg _ (h.unique h')
  | .object _ h, .object _ h' => congrArg _ (h.unique h')
  | .cell _ h, .cell _ h' => congrArg _ (h.unique h')
  | .function _, .function _ => rfl

theorem HasTrees.unique {vs : List Value} {ts ts' : List Snapshot} :
    s.HasTrees vs ts → s.HasTrees vs ts' → ts = ts'
  | .nil, .nil => rfl
  | .cons h hrest, .cons h' hrest' => by rw [h.unique h', hrest.unique hrest']

theorem HasNamedTrees.unique {vs : List (String × Value)} {ts ts' : List (String × Snapshot)} :
    s.HasNamedTrees vs ts → s.HasNamedTrees vs ts' → ts = ts'
  | .nil, .nil => rfl
  | .cons _ h hrest, .cons _ h' hrest' => by rw [h.unique h', hrest.unique hrest']

end

mutual

/-- Every way into a value that has a tree comes to an end. -/
theorem HasTree.acc {v : Value} {t : Snapshot} : s.HasTree v t → ∀ e, v.entity? = some e →
    Acc (flip s.Contains) e
  | .array r h, _, rfl => ⟨_, fun e he => h.acc e he⟩
  | .object r h, _, rfl => ⟨_, fun e he => h.acc e he⟩
  | .cell r h, _, rfl => ⟨_, fun e he => by
      obtain ⟨v, hv, hentity⟩ := List.mem_filterMap.1 he
      obtain rfl := List.mem_singleton.1 hv
      exact h.acc e hentity⟩

theorem HasTrees.acc {vs : List Value} {ts : List Snapshot} : s.HasTrees vs ts →
    ∀ e ∈ references vs, Acc (flip s.Contains) e
  | .cons h hrest, e, he => by
    obtain ⟨v, hv, hentity⟩ := List.mem_filterMap.1 he
    rcases List.mem_cons.1 hv with rfl | hv
    · exact h.acc e hentity
    · exact hrest.acc e (List.mem_filterMap.2 ⟨v, hv, hentity⟩)

theorem HasNamedTrees.acc {vs : List (String × Value)} {ts : List (String × Snapshot)} :
    s.HasNamedTrees vs ts → ∀ e ∈ references (vs.map Prod.snd), Acc (flip s.Contains) e
  | .cons _ h hrest, e, he => by
    obtain ⟨v, hv, hentity⟩ := List.mem_filterMap.1 he
    rcases List.mem_cons.1 hv with rfl | hv
    · exact h.acc e hentity
    · exact hrest.acc e (List.mem_filterMap.2 ⟨v, hv, hentity⟩)

end

theorem HasTree.acyclicBelow {t : Snapshot} (h : s.HasTree v t) : s.AcyclicBelow v := by
  intro root e hroot hreach hcycle
  have hacc : Acc (flip s.Contains) e := by
    clear hcycle
    induction hreach with
    | refl => exact h.acc root hroot
    | tail _ hstep ih => exact ih.inv hstep
  -- a way around never ends
  induction hacc with
  | intro e _ ih =>
    obtain ⟨inner, hstep, hback⟩ := Relation.TransGen.head'_iff.1 hcycle
    exact ih inner hstep (hreach.tail hstep) (.tail' hback hstep)

/-! ### Writing -/

/-- What is not being written is written part by part. -/
theorem snapshotWithin_succ {path : List Entity} (fuel : Nat) :
    (∀ e, v.entity? = some e → e ∉ path) → s.snapshotWithin (fuel + 1) path v =
      match v with
      | .undefined => .undefined
      | .null => .null
      | .bool b => .bool b
      | .number x => .number x
      | .string t => .string t
      | .array r => .array ((s.items r).map (s.snapshotWithin fuel (.array r :: path)))
      | .object r =>
        .object ((s.properties r).entries.map fun (name, v) =>
          (name, s.snapshotWithin fuel (.object r :: path) v))
      | .cell r => .cell (s.snapshotWithin fuel (.cell r :: path) (s.held r))
      | .function f => .function f.name := by
  intro h
  have hnone : (v.entity?.bind fun e => path.reverse.findIdx? (· == e)) = none := by
    refine Option.bind_eq_none_iff.2 fun e he => List.findIdx?_eq_none_iff.2 fun x hx => ?_
    exact beq_false_of_ne fun heq => h e he (heq ▸ List.mem_reverse.1 hx)
  cases v <;> (rw [snapshotWithin.eq_def]; dsimp only; rw [hnone])

/-- What is being written leads to the value, so that the value is not among it; and it is all
different, so that there is fuel for the rest of the store. -/
theorem AcyclicBelow.hasTree_snapshotWithin (h : s.AcyclicBelow v) {fuel : Nat} {path : List Entity}
    (hnodup : path.Nodup) (hpath : path ⊆ s.entities)
    (hleads : ∀ outer ∈ path, ∀ e, v.entity? = some e → Relation.TransGen s.Contains outer e)
    (hfuel : s.entities.length < fuel + path.length) :
    s.HasTree v (s.snapshotWithin fuel path v) := by
  induction fuel generalizing v path with
  | zero =>
    have hlength := (List.subperm_of_subset hnodup hpath).length_le
    omega
  | succ fuel ih =>
    have hnot (e : Entity) (he : v.entity? = some e) : e ∉ path := fun hin =>
      h he .refl (hleads e hin e he)
    -- each part in turn, with what is written around it
    have hinside (e : Entity) (he : v.entity? = some e) (w : Value) (hw : w ∈ s.inside e) :
        s.HasTree w (s.snapshotWithin fuel (e :: path) w) := by
      by_cases hmem : e ∈ s.entities
      · refine ih (h.inside he hw) (List.nodup_cons.2 ⟨hnot e he, hnodup⟩)
          (List.cons_subset.2 ⟨hmem, hpath⟩) (fun outer houter inner hinner => ?_)
          (by rw [List.length_cons]; omega)
        have hstep := contains_of_mem hw hinner
        rcases List.mem_cons.1 houter with rfl | houter
        · exact .single hstep
        · exact (hleads outer houter e he).tail hstep
      · rw [inside_of_not_mem hmem hw]
        cases fuel <;> exact .undefined
    rw [snapshotWithin_succ fuel hnot]
    cases v with
    | undefined => exact .undefined
    | null => exact .null
    | bool b => exact .bool b
    | number x => exact .number x
    | string t => exact .string t
    | array r => exact .array r (hasTrees_map (hinside _ rfl))
    | object r => exact .object r (hasNamedTrees_map (hinside _ rfl))
    | cell r => exact .cell r (hinside _ rfl _ (List.mem_singleton_self _))
    | function f => exact .function f

/-- A value that is not inside itself is written out in full. -/
theorem AcyclicBelow.hasTree_snapshot (h : s.AcyclicBelow v) : s.HasTree v (s.snapshot v) := by
  refine h.hasTree_snapshotWithin List.nodup_nil (List.nil_subset _)
    (fun _ hin => absurd hin List.not_mem_nil) ?_
  simp only [entities, List.length_append, List.length_map, List.length_range, List.length_nil]
  omega

/-- What has a tree is not inside itself, and the tree is what is written. -/
theorem hasTree_iff {t : Snapshot} : s.HasTree v t ↔ s.AcyclicBelow v ∧ s.snapshot v = t := by
  constructor
  · intro h
    exact ⟨h.acyclicBelow, h.acyclicBelow.hasTree_snapshot.unique h⟩
  · rintro ⟨h, rfl⟩
    exact h.hasTree_snapshot

end LiveMarkup.Store
