import LiveMarkup.Proofs.BindingLaws
import LiveMarkup.Proofs.Change
import LiveMarkup.Proofs.Naming

/-!
# Changes inside a region

A region is a set of things: arrays, objects and cells.  A store encloses its region if what is in
the region refers to nothing outside it; what has not been made yet counts as inside.  Reading from
values inside leads to values inside.  Changes inside the region, with values inside, leave
everything outside as it was and keep the region enclosed, so they can go on for as long as they
like.

## Main definitions

* `Value.Within` — a value that refers to nothing outside a region.
* `Store.Encloses` — a store whose region refers to nothing outside it.
* `Change.StaysIn`, `Store.Confined` — changes inside a region.
* `Store.Spares` — what is outside is as it was.

## Main results

* `Store.Encloses.apply`, `Store.Encloses.spares_apply` — what one change inside a region keeps.
* `Store.Confined.encloses`, `Store.Confined.spares` — what many of them keep.
* `confined_setProperty`, `confined_setCell`, `confined_letGo` — writing inside the region and
  giving up references to what is inside are such changes.
-/

namespace LiveMarkup

variable {R : Entity → Prop} {s t u : Store}

/-- The value refers to nothing outside the region. -/
def Value.Within (R : Entity → Prop) (v : Value) : Prop := ∀ e, v.entity? = some e → R e

theorem within_of_entity? {v : Value} (h : v.entity? = none) : v.Within R := by
  intro e he
  rw [h] at he
  cases he

theorem within_references {vs : List Value} :
    (∀ e ∈ references vs, R e) ↔ ∀ v ∈ vs, v.Within R := by
  constructor
  · intro h v hv e he
    exact h e (List.mem_filterMap.2 ⟨v, hv, he⟩)
  · intro h e he
    obtain ⟨v, hv, he⟩ := List.mem_filterMap.1 he
    exact h v hv e he

theorem within_getD {o : Option Value} (h : ∀ v, o = some v → v.Within R) :
    (o.getD .undefined).Within R := by
  cases o with
  | none => exact within_of_entity? rfl
  | some v => exact h v rfl

theorem within_getElem? {vs : List Value} (h : ∀ v ∈ vs, v.Within R) (i : Nat) :
    (vs[i]?.getD .undefined).Within R :=
  within_getD fun v hv => h v (List.mem_of_getElem? hv)

theorem within_argument {args : List Value} (h : ∀ v ∈ args, v.Within R) (i : Nat) :
    (argument args i).Within R := by
  rw [argument, List.getD_eq_getElem?_getD]
  exact within_getElem? h i

theorem within_resized {vs : List Value} (h : ∀ v ∈ vs, v.Within R) (n : Nat) :
    ∀ v ∈ resized vs n, v.Within R := by
  intro v hv
  rcases List.mem_append.1 hv with hv | hv
  · exact h v (List.mem_of_mem_take hv)
  · rw [List.eq_of_mem_replicate hv]
    exact within_of_entity? rfl

/-- Bindings have nothing but what names are bound to. -/
theorem Bindings.exists_find?_of_mem_values {b : Bindings Value} {v : Value} (h : v ∈ b.values) :
    ∃ name, b.find? name = some v := by
  obtain ⟨⟨name, w⟩, hentry, rfl⟩ := List.mem_map.1 h
  exact ⟨name, (b.find?_eq_some_iff_mem name w).2 hentry⟩

theorem within_insert {b : Bindings Value} (h : ∀ v ∈ b.values, v.Within R) (name : String)
    {w : Value} (hw : w.Within R) : ∀ v ∈ (b.insert name w).values, v.Within R := by
  intro v hv
  obtain ⟨other, hfind⟩ := Bindings.exists_find?_of_mem_values hv
  rw [Bindings.find?_insert] at hfind
  split at hfind
  · cases hfind
    exact hw
  · exact h v (Bindings.mem_values_of_find? hfind)

/-- What has not been made refers to nothing. -/
theorem referents_of_unmade {e : Entity} (h : s.hasMade e = false) : s.referents e = [] := by
  cases e with
  | array r =>
    have hle : s.arrays.size ≤ r.id := by simpa [Store.hasMade] using h
    simp [Store.referents, Store.items, references, Array.getElem?_eq_none hle]
  | object r =>
    have hle : s.objects.size ≤ r.id := by simpa [Store.hasMade] using h
    simp [Store.referents, Store.properties, references, Array.getElem?_eq_none hle,
      Bindings.values, Bindings.empty]
  | cell c =>
    have hhas : ¬s.Has c := by simpa [Store.hasMade, Store.Has] using h
    simp [Store.referents, Store.held, Store.cellState_of_not_has hhas, references, Value.entity?]

/-! ### Enclosed regions -/

/-- What is in the region refers to nothing outside it, and nothing outside it is still to be
made. -/
structure Store.Encloses (R : Entity → Prop) (s : Store) : Prop where
  contents {e : Entity} : R e → ∀ f ∈ s.referents e, R f
  unmade {e : Entity} : s.hasMade e = false → R e

namespace Store.Encloses

variable (h : s.Encloses R)

include h

theorem items {r : ArrayRef} (hr : R (.array r)) : ∀ v ∈ s.items r, v.Within R :=
  within_references.1 (h.contents hr)

theorem properties {r : ObjectRef} (hr : R (.object r)) :
    ∀ v ∈ (s.properties r).values, v.Within R :=
  within_references.1 (h.contents hr)

theorem find? {r : ObjectRef} (hr : R (.object r)) {key : String} {v : Value}
    (hv : (s.properties r).find? key = some v) : v.Within R :=
  h.properties hr v (Bindings.mem_values_of_find? hv)

theorem held {c : CellRef} (hc : R (.cell c)) : (s.held c).Within R :=
  within_references.1 (h.contents hc) _ List.mem_cons_self

theorem previous {c : CellRef} (hc : R (.cell c)) {v : Value}
    (hv : (s.cellState c).previous = some v) : v.Within R :=
  within_references.1 (h.contents hc) v (by simp [hv])

theorem unwrap {v : Value} (hv : v.Within R) : (s.unwrap v).Within R := by
  cases v with
  | cell c => exact h.held (hv _ rfl)
  | _ => exact hv

theorem followCells (n : Nat) {v : Value} (hv : v.Within R) : (s.followCells n v).Within R := by
  induction n generalizing v with
  | zero => exact within_of_entity? rfl
  | succ n ih =>
    cases v with
    | cell c => exact ih (h.held (hv _ rfl))
    | _ => exact hv

theorem resolve {v : Value} (hv : v.Within R) : (s.resolve v).Within R := h.followCells _ hv

/-- What is made takes a place inside. -/
theorem newArray {r : ArrayRef} (hr : s.arrays.size ≤ r.id) : R (.array r) :=
  h.unmade (decide_eq_false (Nat.not_lt_of_le hr))

theorem newObject {r : ObjectRef} (hr : s.objects.size ≤ r.id) : R (.object r) :=
  h.unmade (decide_eq_false (Nat.not_lt_of_le hr))

end Store.Encloses

/-! ### Changes inside -/

/-- A change inside the region: what it changes is inside, and so are the values it brings. -/
def Change.StaysIn (R : Entity → Prop) (_ : Store) : Change → Prop
  | .setItems r items => R (.array r) ∧ ∀ v ∈ items, v.Within R
  | .setProperties r properties => R (.object r) ∧ ∀ v ∈ properties.values, v.Within R
  | .newArray items => ∀ v ∈ items, v.Within R
  | .newObject properties => ∀ v ∈ properties.values, v.Within R
  | .trigger c => R (.cell c)
  | .write c v => R (.cell c) ∧ v.Within R
  | .leave e => R e
  | .notice _ | .detach _ => True
  | _ => False

/-- A store that comes from another by changes inside the region. -/
abbrev Store.Confined (R : Entity → Prop) : Store → Store → Prop := Store.Leads (Change.StaysIn R)

theorem Store.Confined.by (x : Change) (h : x.StaysIn R s) : s.Confined R (s.apply x) :=
  Store.Leads.single h

/-- Outside the region everything is as it was, and no cell outside it is given a pass. -/
structure Store.Spares (R : Entity → Prop) (s t : Store) : Prop where
  items {r : ArrayRef} : ¬R (.array r) → t.items r = s.items r
  properties {r : ObjectRef} : ¬R (.object r) → t.properties r = s.properties r
  cellState {c : CellRef} : ¬R (.cell c) → t.cellState c = s.cellState c
  isGone {e : Entity} : ¬R e → t.isGone e = s.isGone e
  has {c : CellRef} : t.Has c ↔ s.Has c
  queue (q : QueueRef) : ∃ cs, t.queue q = s.queue q ++ cs ∧ ∀ c ∈ cs, s.Has c ∧ R (.cell c)
  spawned : ∃ cs, t.spawned = s.spawned ++ cs ∧ ∀ c ∈ cs, s.Has c ∧ R (.cell c)

namespace Store.Spares

theorem refl (s : Store) : s.Spares R s :=
  ⟨fun _ => rfl, fun _ => rfl, fun _ => rfl, fun _ => rfl, .rfl, fun _ => ⟨[], by simp, by simp⟩,
    ⟨[], by simp, by simp⟩⟩

theorem trans (h : s.Spares R t) (h' : t.Spares R u) : s.Spares R u where
  items hr := (h'.items hr).trans (h.items hr)
  properties hr := (h'.properties hr).trans (h.properties hr)
  cellState hc := (h'.cellState hc).trans (h.cellState hc)
  isGone he := (h'.isGone he).trans (h.isGone he)
  has := h'.has.trans h.has
  queue q := by
    obtain ⟨cs, heq, hcs⟩ := h.queue q
    obtain ⟨ds, heq', hds⟩ := h'.queue q
    refine ⟨cs ++ ds, by rw [heq', heq, List.append_assoc], ?_⟩
    exact List.forall_mem_append.2 ⟨hcs, fun d hd => ⟨h.has.1 (hds d hd).1, (hds d hd).2⟩⟩
  spawned := by
    obtain ⟨cs, heq, hcs⟩ := h.spawned
    obtain ⟨ds, heq', hds⟩ := h'.spawned
    refine ⟨cs ++ ds, by rw [heq', heq, List.append_assoc], ?_⟩
    exact List.forall_mem_append.2 ⟨hcs, fun d hd => ⟨h.has.1 (hds d hd).1, (hds d hd).2⟩⟩

/-- What is outside refers to the same. -/
theorem referents (h : s.Spares R t) {e : Entity} (he : ¬R e) : t.referents e = s.referents e := by
  cases e with
  | array r => rw [Store.referents, Store.referents, h.items he]
  | object r => rw [Store.referents, Store.referents, h.properties he]
  | cell c => simp only [Store.referents, held, h.cellState he]

end Store.Spares

/-! ### What one change keeps -/

namespace Store.Encloses

/-- A store that has grown, in which what is inside refers to what it did before and to more that is
inside. -/
theorem of_referents (h : s.Encloses R) (ha : s.arrays.size ≤ t.arrays.size)
    (ho : s.objects.size ≤ t.objects.size) (hc : s.cells.size ≤ t.cells.size)
    (hreferents : ∀ e, R e → ∀ f ∈ t.referents e, f ∈ s.referents e ∨ R f) : t.Encloses R where
  contents he f hf := (hreferents _ he f hf).elim (h.contents he f) id
  unmade {e} he := by
    refine h.unmade (Bool.eq_false_iff.2 fun hmade => ?_)
    rw [hasMade_of_le s t ha ho hc hmade] at he
    cases he

end Store.Encloses

theorem items_trigger (s : Store) (c : CellRef) (r : ArrayRef) :
    (s.trigger c).items r = s.items r := by
  unfold Store.trigger
  split
  · rfl
  · next state _ =>
    split
    · rfl
    · cases state.scheduler <;> rfl

theorem properties_trigger (s : Store) (c : CellRef) (r : ObjectRef) :
    (s.trigger c).properties r = s.properties r := by
  unfold Store.trigger
  split
  · rfl
  · next state _ =>
    split
    · rfl
    · cases state.scheduler <;> rfl

/-- A request for a pass changes what nothing refers to. -/
theorem referents_trigger (s : Store) (c : CellRef) (e : Entity) :
    (s.trigger c).referents e = s.referents e := by
  cases e with
  | array r => rw [Store.referents, Store.referents, items_trigger]
  | object r => rw [Store.referents, Store.referents, properties_trigger]
  | cell d =>
    simp only [Store.referents, Store.held, Store.cellState_trigger]
    split <;> rfl

theorem arrays_trigger_size (s : Store) (c : CellRef) :
    (s.trigger c).arrays.size = s.arrays.size ∧ (s.trigger c).objects.size = s.objects.size := by
  unfold Store.trigger
  split
  · exact ⟨rfl, rfl⟩
  · next state _ =>
    split
    · exact ⟨rfl, rfl⟩
    · cases state.scheduler <;> exact ⟨rfl, rfl⟩

namespace Store.Encloses

variable (h : s.Encloses R)

include h

theorem trigger (c : CellRef) : (s.trigger c).Encloses R := by
  obtain ⟨ha, ho⟩ := arrays_trigger_size s c
  refine h.of_referents (Nat.le_of_eq ha.symm) (Nat.le_of_eq ho.symm)
    (Nat.le_of_eq (cells_trigger_size s c).symm) fun e _ f hf => .inl ?_
  rwa [referents_trigger] at hf

theorem commit (c : CellRef) {v : Value} (hv : v.Within R) : (s.commit c v).Encloses R := by
  refine h.of_referents (Nat.le_refl _) (Nat.le_refl _)
    (Nat.le_of_eq (s.cells_modifyCell_size c _).symm) fun e he f hf => ?_
  cases e with
  | array r => exact .inl hf
  | object r => exact .inl hf
  | cell d =>
    simp only [referents, Store.held, Store.commit, cellState_modifyCell] at hf
    split at hf
    · -- the value that is replaced is the previous one from now on
      have hnew : ∀ w ∈ [v, (s.cellState d).held], w.Within R := by
        intro w hw
        rcases List.mem_cons.1 hw with rfl | hw
        · exact hv
        · exact List.mem_singleton.1 hw ▸ h.held he
      exact .inr (within_references.2 hnew f hf)
    · exact .inl hf

/-- A change inside the region keeps it enclosed. -/
theorem apply {x : Change} (hx : x.StaysIn R s) : (s.apply x).Encloses R := by
  cases x with
  | setItems r items =>
    refine h.of_referents (by simp [Store.apply, setItems]) (Nat.le_refl _) (Nat.le_refl _)
      fun e _ f hf => ?_
    cases e with
    | array a =>
      simp only [Store.apply, referents, items_setItems] at hf
      split at hf
      · exact .inr (within_references.2 hx.2 f hf)
      · exact .inl hf
    | object _ => exact .inl hf
    | cell _ => exact .inl hf
  | setProperties r properties =>
    refine h.of_referents (Nat.le_refl _) (by simp [Store.apply, setProperties]) (Nat.le_refl _)
      fun e _ f hf => ?_
    cases e with
    | object a =>
      simp only [Store.apply, referents, properties_setProperties] at hf
      split at hf
      · exact .inr (within_references.2 hx.2 f hf)
      · exact .inl hf
    | array _ => exact .inl hf
    | cell _ => exact .inl hf
  | newArray items =>
    refine h.of_referents (by simp [Store.apply, Store.newArray]) (Nat.le_refl _) (Nat.le_refl _)
      fun e _ f hf => ?_
    cases e with
    | array a =>
      simp only [Store.apply, referents, items_newArray] at hf
      split at hf
      · exact .inr (within_references.2 hx f hf)
      · exact .inl hf
    | object _ => exact .inl hf
    | cell _ => exact .inl hf
  | newObject properties =>
    refine h.of_referents (Nat.le_refl _) (by simp [Store.apply, Store.newObject]) (Nat.le_refl _)
      fun e _ f hf => ?_
    cases e with
    | object a =>
      simp only [Store.apply, referents, properties_newObject] at hf
      split at hf
      · exact .inr (within_references.2 hx f hf)
      · exact .inl hf
    | array _ => exact .inl hf
    | cell _ => exact .inl hf
  | trigger c => exact h.trigger c
  | write c v => exact (h.commit c hx.2).trigger c
  | leave e => exact ⟨h.contents, h.unmade⟩
  | notice notices => exact ⟨h.contents, h.unmade⟩
  | detach r => exact ⟨h.contents, h.unmade⟩
  | _ => exact hx.elim

end Store.Encloses

theorem spares_trigger (s : Store) {c : CellRef} (hc : R (.cell c)) : s.Spares R (s.trigger c) where
  items _ := items_trigger s c _
  properties _ := properties_trigger s c _
  cellState {d} hd := by
    rw [Store.cellState_trigger, if_neg]
    rintro ⟨rfl, -⟩
    exact hd hc
  isGone _ := Store.isGone_trigger s c _
  has := Store.has_trigger
  queue q := by
    rw [Store.queue_trigger]
    split
    · next hqueued => exact ⟨[c], rfl, by simpa using ⟨hqueued.1, hc⟩⟩
    · exact ⟨[], by simp, by simp⟩
  spawned := by
    rw [Store.spawned_trigger]
    split
    · next hspawned => exact ⟨[c], rfl, by simpa using ⟨hspawned.1, hc⟩⟩
    · exact ⟨[], by simp, by simp⟩

/-- A store that differs only inside the region, and in no passes. -/
theorem Store.Spares.of_quiet (hitems : ∀ r, ¬R (.array r) → t.items r = s.items r)
    (hproperties : ∀ r, ¬R (.object r) → t.properties r = s.properties r)
    (hcells : ∀ c, ¬R (.cell c) → t.cellState c = s.cellState c)
    (hgone : ∀ e, ¬R e → t.isGone e = s.isGone e) (hsize : t.cells.size = s.cells.size)
    (hqueues : t.queues = s.queues) (hspawned : t.spawned = s.spawned) : s.Spares R t where
  items := hitems _
  properties := hproperties _
  cellState := hcells _
  isGone := hgone _
  has {_} := by simp only [Store.Has, hsize]
  queue q := ⟨[], by rw [Store.queue, hqueues, List.append_nil, Store.queue], by simp⟩
  spawned := ⟨[], by rw [hspawned, List.append_nil], by simp⟩

theorem spares_commit (s : Store) {c : CellRef} (hc : R (.cell c)) (v : Value) :
    s.Spares R (s.commit c v) := by
  refine .of_quiet (fun _ _ => rfl) (fun _ _ => rfl) (fun d hd => ?_) (fun _ _ => rfl)
    (s.cells_modifyCell_size c _) rfl rfl
  rw [Store.commit, Store.cellState_modifyCell, if_neg]
  rintro ⟨rfl, -⟩
  exact hd hc

/-- A change inside the region leaves what is outside as it was. -/
theorem Store.Encloses.spares_apply (h : s.Encloses R) {x : Change} (hx : x.StaysIn R s) :
    s.Spares R (s.apply x) := by
  cases x with
  | setItems r items =>
    refine .of_quiet (fun a ha => ?_) (fun _ _ => rfl) (fun _ _ => rfl) (fun _ _ => rfl) rfl rfl rfl
    rw [Store.apply, items_setItems, if_neg]
    rintro ⟨rfl, -⟩
    exact ha hx.1
  | setProperties r properties =>
    refine .of_quiet (fun _ _ => rfl) (fun a ha => ?_) (fun _ _ => rfl) (fun _ _ => rfl) rfl rfl rfl
    rw [Store.apply, properties_setProperties, if_neg]
    rintro ⟨rfl, -⟩
    exact ha hx.1
  | newArray items =>
    refine .of_quiet (fun a ha => ?_) (fun _ _ => rfl) (fun _ _ => rfl) (fun _ _ => rfl) rfl rfl rfl
    rw [Store.apply, items_newArray, if_neg]
    exact fun hid => ha (h.newArray (Nat.le_of_eq hid.symm))
  | newObject properties =>
    refine .of_quiet (fun _ _ => rfl) (fun a ha => ?_) (fun _ _ => rfl) (fun _ _ => rfl) rfl rfl rfl
    rw [Store.apply, properties_newObject, if_neg]
    exact fun hid => ha (h.newObject (Nat.le_of_eq hid.symm))
  | trigger c => exact spares_trigger s hx
  | write c v => exact (spares_commit s hx.1 v).trans (spares_trigger _ hx.1)
  | leave e =>
    refine .of_quiet (fun _ _ => rfl) (fun _ _ => rfl) (fun _ _ => rfl) (fun f hf => ?_) rfl rfl rfl
    have hne : f ≠ e := by
      rintro rfl
      exact hf hx
    simp [Store.apply, isGone, hne]
  | notice notices =>
    exact .of_quiet (fun _ _ => rfl) (fun _ _ => rfl) (fun _ _ => rfl) (fun _ _ => rfl) rfl rfl rfl
  | detach r =>
    exact .of_quiet (fun _ _ => rfl) (fun _ _ => rfl) (fun _ _ => rfl) (fun _ _ => rfl) rfl rfl rfl
  | _ => exact hx.elim

namespace Store.Confined

/-- Changes inside a region, one after another, keep it enclosed and spare what is outside. -/
theorem keeps (h : s.Confined R t) (hs : s.Encloses R) : t.Encloses R ∧ s.Spares R t :=
  Leads.keeps (I := fun t => t.Encloses R ∧ s.Spares R t) h
    (fun _ _ hx ht => ⟨ht.1.apply hx, ht.2.trans (ht.1.spares_apply hx)⟩) ⟨hs, .refl s⟩

theorem encloses (h : s.Confined R t) (hs : s.Encloses R) : t.Encloses R := (h.keeps hs).1

theorem spares (h : s.Confined R t) (hs : s.Encloses R) : s.Spares R t := (h.keeps hs).2

end Store.Confined

/-! ### Writing -/

section Writing

theorem confined_setItem {r : ArrayRef} {i : Nat} {v : Value} (hs : s.Encloses R)
    (hr : R (.array r)) (hv : v.Within R) (h : s.setItem r i v = .ok t) : s.Confined R t := by
  have hitems := hs.items hr
  simp only [Store.setItem] at h
  split at h
  · cases h
    refine .by (.setItems r _) ⟨hr, fun w hw => ?_⟩
    rcases List.mem_or_eq_of_mem_set hw with hw | rfl
    · exact hitems w hw
    · exact hv
  · cases hgrowth : checkGrowth (s.items r).length i with
    | error e => rw [hgrowth] at h; cases h
    | ok =>
      rw [hgrowth] at h
      cases h
      refine .by (.setItems r _) ⟨hr, List.forall_mem_append.2 ⟨within_resized hitems i, ?_⟩⟩
      simpa using hv

theorem confined_setLength {r : ArrayRef} {n : Nat} (hs : s.Encloses R) (hr : R (.array r))
    (h : s.setLength r n = .ok t) : s.Confined R t := by
  have hcut : s.Confined R (s.setItems r (resized (s.items r) n)) :=
    .by (.setItems r _) ⟨hr, within_resized (hs.items hr) n⟩
  simp only [Store.setLength] at h
  split at h
  · cases hgrowth : checkGrowth (s.items r).length (n - 1) with
    | error e => rw [hgrowth] at h; cases h
    | ok =>
      rw [hgrowth] at h
      cases h
      exact hcut
  · cases h
    exact hcut

theorem confined_setProperty {target v : Value} {key : String} (hs : s.Encloses R)
    (htarget : target.Within R) (hv : v.Within R) (h : s.setProperty target key v = .ok t) :
    s.Confined R t := by
  unfold Store.setProperty at h
  split at h
  · next r =>
    cases h
    have hr : R (.object r) := htarget _ rfl
    exact .by (.setProperties r _) ⟨hr, within_insert (hs.properties hr) key hv⟩
  · next r =>
    have hr : R (.array r) := htarget _ rfl
    split at h
    · split at h
      · exact confined_setLength hs hr h
      · cases h
    · split at h
      · exact confined_setItem hs hr hv h
      · cases h
  · cases h

theorem confined_setCell (s : Store) {c : CellRef} {v : Value} (hc : R (.cell c))
    (hv : v.Within R) : s.Confined R (s.setCell c v).1 := by
  unfold Store.setCell
  split
  · exact .by (.write c v) ⟨hc, hv⟩
  · exact .refl s

theorem confined_setCellProperty {c : CellRef} {key : String} {v : Value} (hs : s.Encloses R)
    (hc : R (.cell c)) (hv : v.Within R) (h : s.setCellProperty c key v = .ok t) :
    s.Confined R t := by
  unfold Store.setCellProperty at h
  cases hwrite : s.setProperty (s.held c) key v with
  | error e => rw [hwrite] at h; cases h
  | ok u =>
    rw [hwrite] at h
    cases h
    exact (confined_setProperty hs (hs.held hc) hv hwrite).trans (Store.Confined.by (.trigger c) hc)

end Writing

/-! ### Lifetime -/

theorem confined_endStreams (s : Store) (c : CellRef) : s.Confined R (s.endStreams c) :=
  Store.Leads.foldl Store.detach (fun _ r => Store.Confined.by (.detach r) trivial) _ s

/-- What is inside gives up only what is inside, so nothing outside goes. -/
theorem confined_letGoWithin (kept : List Entity) (fuel : Nat) {pending : List Loss}
    (hs : s.Encloses R) (hpending : ∀ e, .reference e ∈ pending → R e) :
    s.Confined R (s.letGoWithin kept fuel pending) := by
  induction fuel generalizing s pending with
  | zero => exact .refl s
  | succ fuel ih =>
    match pending with
    | [] => exact .refl s
    | .streams c :: rest =>
      have hends := confined_endStreams (R := R) s c
      exact hends.trans (ih (hends.encloses hs) fun e he => hpending e (List.mem_cons_of_mem _ he))
    | .reference e :: rest =>
      have he : R e := hpending e List.mem_cons_self
      have hrest : ∀ f, .reference f ∈ rest → R f :=
        fun f hf => hpending f (List.mem_cons_of_mem _ hf)
      unfold Store.letGoWithin
      split
      · exact ih hs hrest
      · have hleave : s.Confined R { s with gone := e :: s.gone } := .by (.leave e) he
        refine hleave.trans (ih (hleave.encloses hs) fun f hf => ?_)
        rcases List.mem_append.1 hf with hf | hf
        · rcases List.mem_append.1 hf with hf | hf
          · obtain ⟨g, hg, heq⟩ := List.mem_map.1 hf
            cases heq
            exact hs.contents he f hg
          · cases e <;> simp at hf
        · exact hrest f hf

theorem confined_letGo (kept : List Entity) {lost : List Entity} (hs : s.Encloses R)
    (hlost : ∀ e ∈ lost, R e) : s.Confined R (s.letGo kept lost) := by
  unfold Store.letGo
  split
  · exact .refl s
  · refine confined_letGoWithin kept _ hs fun e he => ?_
    obtain ⟨f, hf, heq⟩ := List.mem_map.1 he
    cases heq
    exact hlost _ hf

/-- What a change inside the region may have left without a reference is inside. -/
theorem within_lost (hs : s.Encloses R) (h : s.Spares R t) {e : Entity} (he : e ∈ s.lost t) :
    R e := by
  obtain ⟨holder, hholder, he⟩ := List.mem_flatMap.1 he
  have hchanged : s.referents holder ≠ t.referents holder := by
    simpa using (List.mem_filter.1 hholder).2
  by_cases hinside : R holder
  · exact hs.contents hinside e he
  · exact absurd (h.referents hinside).symm hchanged

end LiveMarkup
