import LiveMarkup.Store.Lifetime

/-!
# Laws of the store

What each operation on cells and queues leaves of every cell and queue.  Everything that is proved
about passes reads the store through these laws.

## Main results

* `Store.cellState_modifyCell`, `Store.queue_modifyQueue` — an edit of a cell or a queue shows there
  and nowhere else.
* `Store.cellState_newCell` — a new cell takes the first place that is free.
* `Store.cellState_trigger`, `Store.queue_trigger`, `Store.spawned_trigger` — what a request for a
  pass does.
* `Store.requests_setCell` — a write is a request exactly if it counts as a change.
* `Store.items_setItems`, `Store.properties_setProperties` — an edit of an array or an object shows
  there and nowhere else.
* `Store.items_newArray`, `Store.properties_newObject` — a new one takes the first place that is
  free.
-/

namespace LiveMarkup.Store

variable {s : Store}

/-- A cell that has been made. -/
def Has (s : Store) (c : CellRef) : Prop := c.id < s.cells.size

instance (s : Store) (c : CellRef) : Decidable (s.Has c) := inferInstanceAs (Decidable (_ < _))

/-! ### Cells -/

@[simp] theorem cells_modifyCell_size (s : Store) (r : CellRef) (f : CellState → CellState) :
    (s.modifyCell r f).cells.size = s.cells.size := by
  simp [modifyCell]

theorem has_modifyCell {r c : CellRef} {f : CellState → CellState} :
    (s.modifyCell r f).Has c ↔ s.Has c := by
  simp [Has]

theorem cellState_of_not_has {c : CellRef} (h : ¬s.Has c) : s.cellState c = {} := by
  rw [cellState, Array.getD_eq_getD_getElem?, Array.getElem?_eq_none (Nat.le_of_not_lt h)]
  rfl

theorem cellState_of_getElem? {c : CellRef} {state : CellState} (h : s.cells[c.id]? = some state) :
    s.Has c ∧ s.cellState c = state := by
  obtain ⟨hlt, -⟩ := Array.getElem?_eq_some_iff.1 h
  refine ⟨hlt, ?_⟩
  rw [cellState, Array.getD_eq_getD_getElem?, h]
  rfl

theorem not_has_of_getElem? {c : CellRef} (h : s.cells[c.id]? = none) : ¬s.Has c := by
  rw [Array.getElem?_eq_none_iff] at h
  exact Nat.not_lt_of_le h

theorem getElem?_of_has {c : CellRef} (h : s.Has c) : s.cells[c.id]? = some (s.cellState c) := by
  rw [cellState, Array.getD_eq_getD_getElem?, Array.getElem?_eq_getElem h]
  rfl

/-- An edit of a cell shows in that cell and nowhere else. -/
theorem cellState_modifyCell (s : Store) (r c : CellRef) (f : CellState → CellState) :
    (s.modifyCell r f).cellState c =
      if c = r ∧ s.Has c then f (s.cellState c) else s.cellState c := by
  by_cases hc : s.Has c
  · have hget : s.cells[c.id]? = some (s.cellState c) := getElem?_of_has hc
    by_cases hr : c = r
    · subst hr
      rw [if_pos ⟨rfl, hc⟩, cellState, Array.getD_eq_getD_getElem?, modifyCell,
        Array.getElem?_modify, if_pos rfl, hget]
      rfl
    · have hid : r.id ≠ c.id := fun h => hr (by cases c; cases r; cases h; rfl)
      rw [if_neg fun h => hr h.1, cellState, Array.getD_eq_getD_getElem?, modifyCell,
        Array.getElem?_modify, if_neg hid, hget]
      rfl
  · -- a cell that has not been made is read as the default one, before and after
    rw [if_neg fun h => hc h.2, cellState_of_not_has hc,
      cellState_of_not_has fun h => hc (has_modifyCell.1 h)]

/-- An edit of a cell that leaves something of every state alone leaves it alone in the store. -/
theorem project_modifyCell {α : Type} (project : CellState → α) (s : Store) (r c : CellRef)
    (f : CellState → CellState) (h : ∀ state, project (f state) = project state) :
    project ((s.modifyCell r f).cellState c) = project (s.cellState c) := by
  rw [cellState_modifyCell]
  split
  · exact h _
  · rfl

/-- A new cell takes the first place that is free. -/
theorem cellState_newCell (s : Store) (v : Value) (scheduler : Scheduler) (c : CellRef) :
    (s.newCell v scheduler).1.cellState c =
      if c.id = s.cells.size then { held := v, scheduler } else s.cellState c := by
  simp only [newCell, cellState, Array.getD_eq_getD_getElem?, Array.getElem?_push]
  split <;> rfl

theorem has_newCell {v : Value} {scheduler : Scheduler} {c : CellRef} :
    (s.newCell v scheduler).1.Has c ↔ s.Has c ∨ c.id = s.cells.size := by
  simp only [Has, newCell, Array.size_push]
  exact Nat.lt_succ_iff_lt_or_eq

/-! ### Queues -/

/-- An edit of a queue shows in that queue and nowhere else. -/
theorem queue_modifyQueue (s : Store) (q r : QueueRef) (f : List CellRef → List CellRef) :
    (s.modifyQueue q f).queue r =
      if r = q ∧ r.id < s.queues.size then f (s.queue r) else s.queue r := by
  by_cases hlt : r.id < s.queues.size
  · have hget : s.queues[r.id]? = some (s.queue r) := by
      rw [queue, Array.getD_eq_getD_getElem?, Array.getElem?_eq_getElem hlt]
      rfl
    by_cases hr : r = q
    · subst hr
      rw [if_pos ⟨rfl, hlt⟩, queue, Array.getD_eq_getD_getElem?, modifyQueue,
        Array.getElem?_modify, if_pos rfl, hget]
      rfl
    · have hid : q.id ≠ r.id := fun h => hr (by cases r; cases q; cases h; rfl)
      rw [if_neg fun h => hr h.1, queue, Array.getD_eq_getD_getElem?, modifyQueue,
        Array.getElem?_modify, if_neg hid, hget]
      rfl
  · -- a queue that has not been made is read as an empty one, before and after
    have hnone : ∀ t : Store, t.queues.size = s.queues.size → t.queue r = [] := by
      intro t ht
      rw [queue, Array.getD_eq_getD_getElem?, Array.getElem?_eq_none (by omega)]
      rfl
    rw [if_neg fun h => hlt h.2, hnone s rfl, hnone _ (by simp [modifyQueue])]

theorem queue_newQueue (s : Store) (q : QueueRef) : s.newQueue.1.queue q = s.queue q := by
  simp only [newQueue, queue, Array.getD_eq_getD_getElem?, Array.getElem?_push]
  split
  · next h => rw [h, Array.getElem?_eq_none (Nat.le_refl _)]; rfl
  · rfl

/-! ### Requests -/

@[simp] theorem cellState_enqueue (s : Store) (c d : CellRef) (scheduler : Scheduler) :
    (s.enqueue c scheduler).cellState d = s.cellState d := by
  cases scheduler <;> rfl

/-- A request marks the cell as scheduled and is counted. -/
theorem cellState_trigger (s : Store) (c d : CellRef) :
    (s.trigger c).cellState d =
      if d = c ∧ s.Has d then (s.cellState d).request else s.cellState d := by
  unfold trigger
  split
  · next hnone =>
    rw [if_neg]
    rintro ⟨rfl, hd⟩
    exact not_has_of_getElem? hnone hd
  · split <;> simp [cellState_modifyCell]

/-- What a request leaves alone in every state it leaves alone in the store. -/
theorem project_trigger {α : Type} (project : CellState → α) (s : Store) (c d : CellRef)
    (h : ∀ state, project state.request = project state) :
    project ((s.trigger c).cellState d) = project (s.cellState d) := by
  rw [cellState_trigger]
  split
  · exact h _
  · rfl

theorem held_trigger (s : Store) (c d : CellRef) : (s.trigger c).held d = s.held d :=
  project_trigger CellState.held s c d fun _ => rfl

@[simp] theorem cells_trigger_size (s : Store) (c : CellRef) :
    (s.trigger c).cells.size = s.cells.size := by
  unfold trigger
  split
  · rfl
  · next state _ =>
    split
    · exact s.cells_modifyCell_size c _
    · cases state.scheduler <;> exact s.cells_modifyCell_size c _

theorem has_trigger {c d : CellRef} : (s.trigger c).Has d ↔ s.Has d := by
  simp [Has]

theorem requests_trigger {c : CellRef} (hc : s.Has c) :
    ((s.trigger c).cellState c).requests = (s.cellState c).requests + 1 := by
  rw [cellState_trigger, if_pos ⟨rfl, hc⟩, CellState.request]

/-- A write is a request exactly if it counts as a change. -/
theorem requests_setCell {c : CellRef} (hc : s.Has c) (v : Value) :
    ((s.setCell c v).1.cellState c).requests =
      (s.cellState c).requests + if (s.setCell c v).2 then 1 else 0 := by
  unfold setCell
  split
  · have hhas : (s.commit c v).Has c := has_modifyCell.2 hc
    have hcommit : ((s.commit c v).cellState c).requests = (s.cellState c).requests :=
      project_modifyCell CellState.requests s c c _ fun _ => rfl
    rw [requests_trigger hhas, hcommit, if_pos rfl]
  · rfl

/-- A request puts a pass on the queue of the cell, unless one is queued. -/
theorem queue_trigger (s : Store) (c : CellRef) (q : QueueRef) :
    (s.trigger c).queue q =
      if s.Has c ∧ (s.cellState c).scheduled = false ∧ (s.cellState c).scheduler = .queue q ∧
          q.id < s.queues.size
      then s.queue q ++ [c] else s.queue q := by
  unfold trigger
  split
  · next hnone => rw [if_neg fun h => not_has_of_getElem? hnone h.1]
  · next state hsome =>
    obtain ⟨hc, rfl⟩ := cellState_of_getElem? hsome
    cases hscheduled : (s.cellState c).scheduled with
    | true => simp [queue, modifyCell]
    | false =>
      cases hscheduler : (s.cellState c).scheduler with
      | spawner => simp [enqueue, queue, modifyCell]
      | queue r =>
        have hqueue := (s.modifyCell c CellState.request).queue_modifyQueue r q (· ++ [c])
        simp only [enqueue, hqueue, hc, true_and, Scheduler.queue.injEq, Bool.false_eq_true,
          if_false]
        by_cases hr : r = q
        · subst hr
          rfl
        · rw [if_neg fun h => hr h.1.symm, if_neg fun h => hr h.1]
          rfl

/-- A request gives a pass to the executor of the host, unless one is there. -/
theorem spawned_trigger (s : Store) (c : CellRef) :
    (s.trigger c).spawned =
      if s.Has c ∧ (s.cellState c).scheduled = false ∧ (s.cellState c).scheduler = .spawner
      then s.spawned ++ [c] else s.spawned := by
  unfold trigger
  split
  · next hnone => rw [if_neg fun h => not_has_of_getElem? hnone h.1]
  · next state hsome =>
    obtain ⟨hc, rfl⟩ := cellState_of_getElem? hsome
    cases hscheduled : (s.cellState c).scheduled with
    | true => simp [modifyCell]
    | false =>
      cases hscheduler : (s.cellState c).scheduler with
      | spawner => simp [enqueue, modifyCell, hc]
      | queue r => simp [enqueue, modifyCell, modifyQueue]

theorem queues_trigger_size (s : Store) (c : CellRef) :
    (s.trigger c).queues.size = s.queues.size := by
  unfold trigger
  split
  · rfl
  · next state _ =>
    split
    · rfl
    · cases state.scheduler <;> simp [enqueue, modifyQueue, modifyCell]

theorem isGone_trigger (s : Store) (c : CellRef) (e : Entity) :
    (s.trigger c).isGone e = s.isGone e := by
  unfold trigger
  split
  · rfl
  · next state _ =>
    split
    · rfl
    · cases state.scheduler <;> rfl

/-! ### Arrays and objects -/

/-- An edit of an array shows in that array and nowhere else. -/
theorem items_setItems (s : Store) (r a : ArrayRef) (xs : List Value) :
    (s.setItems r xs).items a = if a = r ∧ s.hasMade (.array a) then xs else s.items a := by
  simp only [setItems, items, Array.getD_eq_getD_getElem?, Array.getElem?_setIfInBounds, hasMade,
    decide_eq_true_eq]
  obtain ⟨i⟩ := r
  obtain ⟨j⟩ := a
  by_cases hij : i = j
  · subst hij
    by_cases hlt : i < s.arrays.size <;> simp [hlt]
  · simp [hij, Ne.symm hij]

/-- An edit of an object shows in that object and nowhere else. -/
theorem properties_setProperties (s : Store) (r a : ObjectRef) (b : Bindings Value) :
    (s.setProperties r b).properties a =
      if a = r ∧ s.hasMade (.object a) then b else s.properties a := by
  simp only [setProperties, properties, Array.getD_eq_getD_getElem?, Array.getElem?_setIfInBounds,
    hasMade, decide_eq_true_eq]
  obtain ⟨i⟩ := r
  obtain ⟨j⟩ := a
  by_cases hij : i = j
  · subst hij
    by_cases hlt : i < s.objects.size <;> simp [hlt]
  · simp [hij, Ne.symm hij]

/-- A new array takes the first place that is free. -/
theorem items_newArray (s : Store) (xs : List Value) (a : ArrayRef) :
    (s.newArray xs).1.items a = if a.id = s.arrays.size then xs else s.items a := by
  simp only [newArray, items, Array.getD_eq_getD_getElem?, Array.getElem?_push]
  split <;> rfl

/-- A new object takes the first place that is free. -/
theorem properties_newObject (s : Store) (b : Bindings Value) (a : ObjectRef) :
    (s.newObject b).1.properties a = if a.id = s.objects.size then b else s.properties a := by
  simp only [newObject, properties, Array.getD_eq_getD_getElem?, Array.getElem?_push]
  split <;> rfl

end LiveMarkup.Store
