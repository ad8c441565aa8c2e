import LiveMarkup.Proofs.Hosting

/-!
# Passes in order

A cell has a pass where its scheduler keeps passes exactly if it is marked as scheduled, and never
two.  This holds of every live cell on a queue, whatever a host does; for a cell that is gone the
mark may stay after the pass has been taken from the queue, since nobody is left to be told.

The subscribers of a cell are distinct, and are callbacks that there are.

## Main definitions

* `Store.Orderly` — the passes are where the marks say.
* `Store.Enlisted` — what holds of all subscribers.

## Main results

* `Store.Hosts.orderly`, `Store.Hosts.enlisted` — what a host does keeps both.
* `Store.Orderly.start`, `Store.Orderly.startSpawned` — so does the start of a pass.
-/

namespace LiveMarkup

namespace Store

variable {s t : Store} {n : Nat}

/-- The passes are where the marks say. -/
structure Orderly (s : Store) : Prop where
  standard : defaultQueue.id < s.queues.size
  queued : ∀ q c, c ∈ s.queue q → s.Has c ∧ (s.cellState c).scheduler = .queue q
  spawned : ∀ c ∈ s.spawned, s.Has c ∧ (s.cellState c).scheduler = .spawner
  queue_lt : ∀ c q, s.Has c → (s.cellState c).scheduler = .queue q → q.id < s.queues.size
  counted : ∀ c q, s.Has c → s.isGone (.cell c) = false → (s.cellState c).scheduler = .queue q →
    (s.queue q).count c = if (s.cellState c).scheduled then 1 else 0

namespace Orderly

/-- Whatever leaves the marks and the queues alone keeps the order. -/
theorem of_same (h : Orderly s) (hcells : t.cells.size = s.cells.size)
    (hscheduler : ∀ c, (t.cellState c).scheduler = (s.cellState c).scheduler)
    (hscheduled : ∀ c, (t.cellState c).scheduled = (s.cellState c).scheduled)
    (hqueues : t.queues = s.queues) (hspawned : ∀ c ∈ t.spawned, c ∈ s.spawned)
    (hgone : ∀ e, s.isGone e → t.isGone e) : Orderly t := by
  have hhas : ∀ c, t.Has c ↔ s.Has c := fun c => by rw [Has, Has, hcells]
  have hqueue : ∀ q, t.queue q = s.queue q := fun q => by rw [queue, queue, hqueues]
  constructor
  case standard =>
    rw [hqueues]
    exact h.standard
  case queued =>
    intro q c hc
    rw [hhas, hscheduler]
    exact h.queued q c (hqueue q ▸ hc)
  case spawned =>
    intro c hc
    rw [hhas, hscheduler]
    exact h.spawned c (hspawned c hc)
  case queue_lt =>
    intro c q hc hq
    rw [hqueues]
    exact h.queue_lt c q ((hhas c).1 hc) (hscheduler c ▸ hq)
  case counted =>
    intro c q hc hlive hq
    -- what lives now lived before
    have hlive' : s.isGone (.cell c) = false :=
      Bool.eq_false_iff.2 fun hs => Bool.eq_false_iff.1 hlive (hgone _ hs)
    rw [hqueue, hscheduled]
    exact h.counted c q ((hhas c).1 hc) hlive' (hscheduler c ▸ hq)

theorem quiet (h : Orderly s) (hst : Quiet s t) : Orderly t :=
  h.of_same hst.cells (fun _ => hst.scheduler) (fun _ => hst.scheduled) hst.queues
    (fun _ hc => hst.spawned ▸ hc) hst.gone

theorem newCell (h : Orderly s) (v : Value) (scheduler : Scheduler)
    (hplace : ∀ q, scheduler = .queue q → q.id < s.queues.size) :
    Orderly (s.newCell v scheduler).1 := by
  have hold : ∀ c, s.Has c → (s.newCell v scheduler).1.cellState c = s.cellState c := fun c hc => by
    rw [cellState_newCell, if_neg (Nat.ne_of_lt hc)]
  have hcases : ∀ c, (s.newCell v scheduler).1.Has c →
      s.Has c ∨ ¬s.Has c ∧ (s.newCell v scheduler).1.cellState c = { held := v, scheduler } := by
    intro c hc
    rcases has_newCell.1 hc with hc | hid
    · exact .inl hc
    · refine .inr ⟨Nat.not_lt_of_le (Nat.le_of_eq hid.symm), ?_⟩
      rw [cellState_newCell, if_pos hid]
  constructor
  case standard => exact h.standard
  case queued =>
    intro q c hc
    obtain ⟨hhas, hscheduler⟩ := h.queued q c hc
    exact ⟨has_newCell.2 (.inl hhas), hold c hhas ▸ hscheduler⟩
  case spawned =>
    intro c hc
    obtain ⟨hhas, hscheduler⟩ := h.spawned c hc
    exact ⟨has_newCell.2 (.inl hhas), hold c hhas ▸ hscheduler⟩
  case queue_lt =>
    intro c q hc hq
    rcases hcases c hc with hhas | ⟨-, hstate⟩
    · exact h.queue_lt c q hhas (hold c hhas ▸ hq)
    · rw [hstate] at hq
      exact hplace q hq
  case counted =>
    intro c q hc hlive hq
    rcases hcases c hc with hhas | ⟨hnew, hstate⟩
    · rw [hold c hhas] at hq ⊢
      exact h.counted c q hhas hlive hq
    · -- the new cell has no mark, and only cells that were there are on a queue
      rw [hstate]
      exact List.count_eq_zero.2 fun hmem => hnew (h.queued q c hmem).1

theorem newQueue (h : Orderly s) : Orderly s.newQueue.1 := by
  have hsize : s.queues.size ≤ s.newQueue.1.queues.size := s.queues_size_le_apply .newQueue
  constructor
  case standard => exact Nat.lt_of_lt_of_le h.standard hsize
  case queued =>
    intro q c hc
    rw [queue_newQueue] at hc
    exact h.queued q c hc
  case spawned => exact h.spawned
  case queue_lt =>
    intro c q hc hq
    exact Nat.lt_of_lt_of_le (h.queue_lt c q hc hq) hsize
  case counted =>
    intro c q hc hlive hq
    rw [queue_newQueue]
    exact h.counted c q hc hlive hq

theorem commit (h : Orderly s) (c : CellRef) (v : Value) : Orderly (s.commit c v) :=
  h.of_same (s.cells_modifyCell_size c _) (fun d => project_modifyCell _ s c d _ fun _ => rfl)
    (fun d => project_modifyCell _ s c d _ fun _ => rfl) rfl (fun _ => id) (fun _ => id)

/-- A request puts the mark and the pass there together. -/
theorem trigger (h : Orderly s) (d : CellRef) : Orderly (s.trigger d) := by
  have hscheduler : ∀ c, ((s.trigger d).cellState c).scheduler = (s.cellState c).scheduler :=
    fun c => project_trigger CellState.scheduler s d c fun _ => rfl
  constructor
  case standard =>
    rw [queues_trigger_size]
    exact h.standard
  case queued =>
    intro q c hc
    rw [has_trigger, hscheduler]
    rw [queue_trigger] at hc
    split at hc
    · next hd =>
      rcases List.mem_append.1 hc with hc | hc
      · exact h.queued q c hc
      · rw [List.mem_singleton.1 hc]
        exact ⟨hd.1, hd.2.2.1⟩
    · exact h.queued q c hc
  case spawned =>
    intro c hc
    rw [has_trigger, hscheduler]
    rw [spawned_trigger] at hc
    split at hc
    · next hd =>
      rcases List.mem_append.1 hc with hc | hc
      · exact h.spawned c hc
      · rw [List.mem_singleton.1 hc]
        exact ⟨hd.1, hd.2.2⟩
    · exact h.spawned c hc
  case queue_lt =>
    intro c q hc hq
    rw [queues_trigger_size]
    exact h.queue_lt c q (has_trigger.1 hc) (hscheduler c ▸ hq)
  case counted =>
    intro c q hc hlive hq
    rw [has_trigger] at hc
    rw [isGone_trigger] at hlive
    rw [hscheduler] at hq
    have hcount := h.counted c q hc hlive hq
    rw [queue_trigger, cellState_trigger]
    by_cases hcd : c = d
    · subst hcd
      rw [if_pos (show c = c ∧ s.Has c from ⟨rfl, hc⟩)]
      cases hmark : (s.cellState c).scheduled with
      | true =>
        -- the pass that is there already is the one
        rw [hmark] at hcount
        simpa [CellState.request] using hcount
      | false =>
        rw [hmark] at hcount
        rw [if_pos ⟨hc, rfl, hq, h.queue_lt c q hc hq⟩, List.count_append, hcount]
        simp [CellState.request]
    · -- the pass that may be put there is of another cell
      rw [if_neg (show ¬(c = d ∧ s.Has c) from fun hd => hcd hd.1)]
      split
      · rw [List.count_append, hcount, List.count_singleton]
        simp [Ne.symm hcd]
      · exact hcount

/-- What a change keeps. -/
theorem apply (h : Orderly s) {x : Change} (hx : hosting n s x) : Orderly (s.apply x) := by
  by_cases hquiet : x.IsQuiet
  · exact h.quiet (s.quiet_apply hquiet)
  · cases x
    case newCell v scheduler =>
      refine h.newCell v scheduler fun q hq => ?_
      subst hq
      rcases hx with rfl | hlt
      · exact h.standard
      · exact hlt
    case newQueue => exact h.newQueue
    case trigger c => exact h.trigger c
    case write c v => exact (h.commit c v).trigger c
    all_goals exact absurd trivial hquiet

end Orderly

theorem Hosts.orderly (hst : s.Hosts n t) (h : Orderly s) : Orderly t :=
  hst.keeps (fun _ _ hx h => h.apply hx) h

/-! ### The start of a pass -/

theorem cellState_startPass (s : Store) (c d : CellRef) :
    (s.startPass c).cellState d =
      if d = c ∧ s.Has d then { s.cellState d with scheduled := false } else s.cellState d :=
  s.cellState_modifyCell c d _

theorem scheduler_startPass (s : Store) (c d : CellRef) :
    ((s.startPass c).cellState d).scheduler = (s.cellState d).scheduler :=
  project_modifyCell _ s c d _ fun _ => rfl

/-- The queue with its first pass taken from it. -/
theorem queue_take {c : CellRef} {rest : List CellRef} {q : QueueRef} (hq : s.queue q = c :: rest)
    (r : QueueRef) :
    (s.modifyQueue q fun _ => rest).queue r = if r = q then rest else s.queue r := by
  have hlt : q.id < s.queues.size := by
    refine Nat.lt_of_not_le fun hle => ?_
    rw [queue, Array.getD_eq_getD_getElem?, Array.getElem?_eq_none hle] at hq
    cases hq
  rw [queue_modifyQueue]
  by_cases hr : r = q
  · subst hr
    rw [if_pos ⟨rfl, hlt⟩, if_pos rfl]
  · rw [if_neg fun h => hr h.1, if_neg hr]

namespace Orderly

/-- When a pass is taken from a queue the order is kept for all other cells, and what is there of
its own cell is one pass less. -/
theorem count_take (h : Orderly s) {c : CellRef} {rest : List CellRef} {q : QueueRef}
    (hq : s.queue q = c :: rest) {d : CellRef} {r : QueueRef}
    (hscheduler : (s.cellState d).scheduler = .queue r) :
    ((s.modifyQueue q fun _ => rest).queue r).count d + (if d = c then 1 else 0) =
      (s.queue r).count d := by
  have hc := (h.queued q c (by rw [hq]; exact List.mem_cons_self)).2
  rw [queue_take hq]
  by_cases hr : r = q
  · subst hr
    rw [if_pos rfl, hq, List.count_cons]
    by_cases hd : d = c
    · simp [hd]
    · simp [hd, Ne.symm hd]
  · have hd : d ≠ c := by
      rintro rfl
      rw [hscheduler] at hc
      exact hr (Scheduler.queue.inj hc)
    rw [if_neg hr, if_neg hd, Nat.add_zero]

/-- A pass that is queued of a live cell is the only one, and is marked. -/
theorem count_rest (h : Orderly s) {c : CellRef} {rest : List CellRef} {q : QueueRef}
    (hq : s.queue q = c :: rest) (hlive : s.isGone (.cell c) = false) :
    (s.cellState c).scheduled = true ∧ rest.count c = 0 := by
  obtain ⟨hc, hscheduler⟩ := h.queued q c (by rw [hq]; exact List.mem_cons_self)
  have hcount := h.counted c q hc hlive hscheduler
  rw [hq, List.count_cons_self] at hcount
  cases hmark : (s.cellState c).scheduled with
  | true =>
    rw [hmark, if_pos rfl] at hcount
    exact ⟨rfl, by omega⟩
  | false =>
    rw [hmark] at hcount
    simp at hcount

theorem mem_of_take {c d : CellRef} {rest : List CellRef} {q r : QueueRef}
    (hq : s.queue q = c :: rest) (hd : d ∈ (s.modifyQueue q fun _ => rest).queue r) :
    d ∈ s.queue r := by
  rw [queue_take hq] at hd
  split at hd
  · next hr =>
    rw [hr, hq]
    exact List.mem_cons_of_mem _ hd
  · exact hd

/-- The pass of a cell that is gone is taken from its queue. -/
theorem skip (h : Orderly s) {c : CellRef} {rest : List CellRef} {q : QueueRef}
    (hq : s.queue q = c :: rest) (hgone : s.isGone (.cell c) = true) :
    Orderly (s.modifyQueue q fun _ => rest) := by
  have hsize : (s.modifyQueue q fun _ => rest).queues.size = s.queues.size := by
    simp [modifyQueue]
  constructor
  case standard => exact hsize ▸ h.standard
  case queued =>
    intro r d hd
    exact h.queued r d (mem_of_take hq hd)
  case spawned => exact h.spawned
  case queue_lt =>
    intro d r hd hr
    exact hsize ▸ h.queue_lt d r hd hr
  case counted =>
    intro d r hd hlive hr
    -- nothing is said of the cell whose pass is taken, since it is gone
    have hdc : d ≠ c := by
      rintro rfl
      rw [show s.isGone (.cell d) = false from hlive] at hgone
      cases hgone
    have hcount := h.count_take hq hr
    rw [if_neg hdc, Nat.add_zero] at hcount
    rw [hcount]
    exact h.counted d r hd hlive hr

/-- A pass that is taken from a queue to be started takes its mark with it. -/
theorem start (h : Orderly s) {c : CellRef} {rest : List CellRef} {q : QueueRef}
    (hq : s.queue q = c :: rest) (hlive : s.isGone (.cell c) = false) :
    Orderly ((s.modifyQueue q fun _ => rest).startPass c) := by
  have hsize : (s.modifyQueue q fun _ => rest).queues.size = s.queues.size := by
    simp [modifyQueue]
  have hhas : ∀ d, ((s.modifyQueue q fun _ => rest).startPass c).Has d ↔ s.Has d := fun d =>
    has_modifyCell
  have hscheduler := (s.modifyQueue q fun _ => rest).scheduler_startPass c
  constructor
  case standard => exact hsize ▸ h.standard
  case queued =>
    intro r d hd
    rw [hhas, hscheduler]
    exact h.queued r d (mem_of_take hq hd)
  case spawned =>
    intro d hd
    rw [hhas, hscheduler]
    exact h.spawned d hd
  case queue_lt =>
    intro d r hd hr
    rw [hscheduler] at hr
    exact hsize ▸ h.queue_lt d r ((hhas d).1 hd) hr
  case counted =>
    intro d r hd hlived hr
    rw [hscheduler] at hr
    rw [hhas] at hd
    have hcount := h.count_take hq hr
    have hbefore := h.counted d r hd hlived hr
    have hstate := (s.modifyQueue q fun _ => rest).cellState_startPass c d
    show ((s.modifyQueue q fun _ => rest).queue r).count d = _
    by_cases hdc : d = c
    · -- the mark and the only pass go together
      subst hdc
      rw [if_pos ⟨rfl, hd⟩] at hstate
      rw [if_pos rfl] at hcount
      rw [hstate]
      rw [(h.count_rest hq hlive).1] at hbefore
      simp only [if_true, Bool.false_eq_true, if_false] at hbefore ⊢
      omega
    · rw [if_neg fun hd => hdc hd.1] at hstate
      rw [if_neg hdc, Nat.add_zero] at hcount
      rw [hstate, hcount]
      exact hbefore

/-- The start of a pass that the host's executor runs touches no queue. -/
theorem startSpawned (h : Orderly s) {c : CellRef} (hc : (s.cellState c).scheduler = .spawner) :
    Orderly (s.startPass c) := by
  have hhas : ∀ d, (s.startPass c).Has d ↔ s.Has d := fun d => has_modifyCell
  have hscheduler := s.scheduler_startPass c
  constructor
  case standard => exact h.standard
  case queued =>
    intro r d hd
    rw [hhas, hscheduler]
    exact h.queued r d hd
  case spawned =>
    intro d hd
    rw [hhas, hscheduler]
    exact h.spawned d hd
  case queue_lt =>
    intro d r hd hr
    rw [hscheduler] at hr
    exact h.queue_lt d r ((hhas d).1 hd) hr
  case counted =>
    intro d r hd hlive hr
    rw [hscheduler] at hr
    -- the cell has its passes elsewhere
    have hdc : d ≠ c := by
      rintro rfl
      rw [hc] at hr
      cases hr
    have hstate := s.cellState_startPass c d
    rw [if_neg fun h' => hdc h'.1] at hstate
    rw [hstate]
    exact h.counted d r ((hhas d).1 hd) hlive hr

/-- So does taking the passes from there. -/
theorem gather (h : Orderly s) : Orderly { s with spawned := [] } :=
  h.of_same rfl (fun _ => rfl) (fun _ => rfl) rfl (fun _ hc => absurd hc List.not_mem_nil)
    fun _ => id

end Orderly

end Store

/-! ### Subscribers -/

/-- The changes that add or take out subscribers. -/
def Change.Enlists : Change → Prop
  | .subscribe _ _ | .unsubscribe _ _ | .unsubscribeAll _ => True
  | _ => False

namespace Store

variable {s t : Store} {n : Nat}

theorem subscribers_modifyCell (s : Store) (d c : CellRef) {f : CellState → CellState}
    (h : ∀ state, (f state).subscribers = state.subscribers) :
    ((s.modifyCell d f).cellState c).subscribers = (s.cellState c).subscribers :=
  project_modifyCell CellState.subscribers s d c f h

theorem subscribers_trigger (s : Store) (d c : CellRef) :
    ((s.trigger d).cellState c).subscribers = (s.cellState c).subscribers :=
  project_trigger CellState.subscribers s d c fun _ => rfl

theorem subscribers_finishPass (s : Store) (d c : CellRef) :
    ((s.finishPass d).cellState c).subscribers = (s.cellState c).subscribers := by
  have hfold : ∀ (f : Store → StreamRef → Store), (∀ s r, (f s r).cells = s.cells) →
      ∀ (l : List StreamRef) (s : Store), (l.foldl f s).cells = s.cells := by
    intro f hf l
    induction l with
    | nil => exact fun _ => rfl
    | cons r l ih => exact fun s => (ih (f s r)).trans (hf s r)
  have hcells : ∀ s t : Store, s.cells = t.cells → s.cellState c = t.cellState c := fun s t h => by
    rw [cellState, cellState, h]
  simp only [finishPass]
  rw [hcells _ _ (hfold notify (fun _ _ => rfl) _ _),
    hcells _ _ (hfold detach (fun _ _ => rfl) _ _)]
  exact s.subscribers_modifyCell d c fun _ => rfl

/-- All changes but three leave the subscribers alone. -/
theorem subscribers_apply (s : Store) {x : Change} (h : ¬x.Enlists) (c : CellRef) :
    ((s.apply x).cellState c).subscribers = (s.cellState c).subscribers := by
  cases x
  case subscribe | unsubscribe | unsubscribeAll => exact absurd trivial h
  case newCell v scheduler =>
    simp only [apply, cellState_newCell]
    split
    · next hid => rw [cellState_of_not_has (Nat.not_lt_of_le (Nat.le_of_eq hid.symm))]
    · rfl
  case trigger d => exact s.subscribers_trigger d c
  case write d v =>
    exact ((s.commit d v).subscribers_trigger d c).trans (s.subscribers_modifyCell d c fun _ => rfl)
  case finishPass d => exact s.subscribers_finishPass d c
  case listen d =>
    have hlisteners : ∀ (t : Store) (r : StreamRef), ((t.modifyCell d fun state =>
        { state with listeners := state.listeners ++ [r] }).cellState c).subscribers =
          (t.cellState c).subscribers := fun t _ => t.subscribers_modifyCell d c fun _ => rfl
    exact hlisteners { s with streams := s.streams.push {} } _
  case poll r waker =>
    simp only [apply, poll]
    split <;> rfl
  all_goals rfl

/-- Subscribers are distinct, and among so many callbacks. -/
structure Enlisted (n : Nat) (s : Store) : Prop where
  distinct : ∀ c, (s.cellState c).subscribers.Nodup
  known : ∀ c, ∀ k ∈ (s.cellState c).subscribers, k.id < n

namespace Enlisted

theorem of_same (h : Enlisted n s)
    (hst : ∀ c, (t.cellState c).subscribers = (s.cellState c).subscribers) : Enlisted n t where
  distinct := fun c => hst c ▸ h.distinct c
  known := fun c k hk => h.known c k (hst c ▸ hk)

theorem mono {m : Nat} (h : Enlisted n s) (hnm : n ≤ m) : Enlisted m s where
  distinct := h.distinct
  known := fun c k hk => Nat.lt_of_lt_of_le (h.known c k hk) hnm

/-- An edit of a cell that keeps its subscribers as they should be. -/
theorem modifyCell (h : Enlisted n s) (d : CellRef) {f : CellState → CellState}
    (hdistinct : ∀ state : CellState, state.subscribers.Nodup → (f state).subscribers.Nodup)
    (hknown : ∀ state : CellState, (∀ k ∈ state.subscribers, k.id < n) →
      ∀ k ∈ (f state).subscribers, k.id < n) : Enlisted n (s.modifyCell d f) := by
  refine ⟨fun c => ?_, fun c => ?_⟩
  · rw [cellState_modifyCell]
    split
    · exact hdistinct _ (h.distinct c)
    · exact h.distinct c
  · rw [cellState_modifyCell]
    split
    · exact hknown _ (h.known c)
    · exact h.known c

theorem subscribe (h : Enlisted n s) (d : CellRef) {k : CallbackRef} (hk : k.id < n) :
    Enlisted n (s.subscribe d k) := by
  refine h.modifyCell d (fun state hstate => ?_) (fun state hstate => ?_)
  · split
    · exact hstate
    · next hnew =>
      have hnew' : k ∉ state.subscribers := fun hmem => hnew (List.contains_iff_mem.2 hmem)
      exact List.nodup_append.2 ⟨hstate, by simp, fun j hj l hl hjl =>
        hnew' (List.mem_singleton.1 hl ▸ hjl ▸ hj)⟩
  · split
    · exact hstate
    · intro j hj
      rcases List.mem_append.1 hj with hj | hj
      · exact hstate j hj
      · rw [List.mem_singleton.1 hj]
        exact hk

theorem apply (h : Enlisted n s) {x : Change} (hx : hosting n s x) : Enlisted n (s.apply x) := by
  by_cases hsame : x.Enlists
  · cases x
    case subscribe c k => exact h.subscribe c hx
    case unsubscribe c k =>
      exact h.modifyCell c (fun _ hstate => hstate.erase k)
        fun _ hstate j hj => hstate j (List.mem_of_mem_erase hj)
    case unsubscribeAll c =>
      exact h.modifyCell c (fun _ _ => List.nodup_nil) fun _ _ j hj => absurd hj List.not_mem_nil
    all_goals exact absurd hsame id
  · exact h.of_same (s.subscribers_apply hsame)

end Enlisted

theorem Hosts.enlisted (hst : s.Hosts n t) (h : Enlisted n s) : Enlisted n t :=
  hst.keeps (fun _ _ hx h => h.apply hx) h

end Store

end LiveMarkup
