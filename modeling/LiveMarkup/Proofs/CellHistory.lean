import LiveMarkup.Proofs.Change

/-!
# What becomes of a cell

Whatever is done to a store, a cell stays where it is, requests for its passes only become more, and
a pass that has been requested stays requested until it starts.  While there is no request the cell
holds what it held: every committed write is a request.

## Main definitions

* `Store.Quiet` — changes that leave every pass and every held value alone.
* `Store.Persists`, `Store.Follows` — what a later store says of a cell, given an earlier one.

## Main results

* `Store.quiet_apply` — all changes are quiet but for a few.
* `Store.Leads.follows` — what changes make of a cell.
-/

namespace LiveMarkup

/-- What is known of a cell beside who is told of its passes. -/
def CellState.core (state : CellState) : CellState :=
  { state with subscribers := [], listeners := [] }

/-- The changes that no pass and no held value shows. -/
def Change.IsQuiet : Change → Prop
  | .newCell _ _ | .newQueue | .trigger _ | .write _ _ => False
  | _ => True

namespace Store

variable {s t u : Store} {c : CellRef}

/-! ### Quiet changes -/

/-- Two stores of which the later has the same passes and the same held values. -/
structure Quiet (s t : Store) : Prop where
  core : ∀ c, (t.cellState c).core = (s.cellState c).core
  cells : t.cells.size = s.cells.size
  queues : t.queues = s.queues
  spawned : t.spawned = s.spawned
  gone : ∀ e, s.isGone e → t.isGone e

namespace Quiet

theorem refl (s : Store) : Quiet s s := ⟨fun _ => rfl, rfl, rfl, rfl, fun _ => id⟩

theorem trans (h : Quiet s t) (h' : Quiet t u) : Quiet s u where
  core := fun c => (h'.core c).trans (h.core c)
  cells := h'.cells.trans h.cells
  queues := h'.queues.trans h.queues
  spawned := h'.spawned.trans h.spawned
  gone := fun e he => h'.gone e (h.gone e he)

/-- Nothing but the cells, the queues and what is gone shows. -/
theorem of_eq (hcells : t.cells = s.cells) (hqueues : t.queues = s.queues)
    (hspawned : t.spawned = s.spawned) (hgone : t.gone = s.gone) : Quiet s t where
  core := fun c => by rw [cellState, cellState, hcells]
  cells := by rw [hcells]
  queues := hqueues
  spawned := hspawned
  gone := fun e he => by rwa [isGone, hgone]

theorem modifyCell (s : Store) (c : CellRef) {f : CellState → CellState}
    (h : ∀ state, (f state).core = state.core) : Quiet s (s.modifyCell c f) where
  core := fun d => project_modifyCell CellState.core s c d f h
  cells := s.cells_modifyCell_size c f
  queues := rfl
  spawned := rfl
  gone := fun _ => id

theorem foldl {α : Type} {f : Store → α → Store} (hf : ∀ s a, Quiet s (f s a)) (l : List α)
    (s : Store) : Quiet s (l.foldl f s) := by
  induction l generalizing s with
  | nil => exact refl s
  | cons a l ih => exact (hf s a).trans (ih (f s a))

theorem has (h : Quiet s t) : t.Has c ↔ s.Has c := by rw [Has, Has, h.cells]

theorem held (h : Quiet s t) : (t.cellState c).held = (s.cellState c).held :=
  congrArg (·.held) (h.core c)

theorem previous (h : Quiet s t) : (t.cellState c).previous = (s.cellState c).previous :=
  congrArg (·.previous) (h.core c)

theorem scheduled (h : Quiet s t) : (t.cellState c).scheduled = (s.cellState c).scheduled :=
  congrArg (·.scheduled) (h.core c)

theorem scheduler (h : Quiet s t) : (t.cellState c).scheduler = (s.cellState c).scheduler :=
  congrArg (·.scheduler) (h.core c)

theorem requests (h : Quiet s t) : (t.cellState c).requests = (s.cellState c).requests :=
  congrArg (·.requests) (h.core c)

end Quiet

theorem quiet_finishPass (s : Store) (c : CellRef) : Quiet s (s.finishPass c) := by
  have hdetach : ∀ s r, Quiet s (detach s r) := fun _ _ => .of_eq rfl rfl rfl rfl
  have hnotify : ∀ s r, Quiet s (notify s r) := fun _ _ => .of_eq rfl rfl rfl rfl
  have hlisteners : ∀ kept,
      Quiet s (s.modifyCell c fun state => { state with listeners := kept }) := fun _ =>
    Quiet.modifyCell s c fun _ => rfl
  exact (hlisteners _).trans ((Quiet.foldl hdetach _ _).trans (Quiet.foldl hnotify _ _))

/-- All changes are quiet but those that make a cell or a queue or request a pass. -/
theorem quiet_apply (s : Store) {x : Change} (h : x.IsQuiet) : Quiet s (s.apply x) := by
  cases x
  case newCell | newQueue | trigger | write => exact h.elim
  case leave e => exact ⟨fun _ => rfl, rfl, rfl, rfl, fun f hf => by
    simp only [apply, isGone, List.contains_cons, Bool.or_eq_true]
    exact .inr hf⟩
  case subscribe c k =>
    refine Quiet.modifyCell s c fun state => ?_
    split <;> rfl
  case unsubscribe c k => exact Quiet.modifyCell s c fun _ => rfl
  case unsubscribeAll c => exact Quiet.modifyCell s c fun _ => rfl
  case listen c =>
    have hstream : Quiet s { s with streams := s.streams.push {} } := .of_eq rfl rfl rfl rfl
    have hlisteners : ∀ (t : Store) (r : StreamRef),
        Quiet t (t.modifyCell c fun state => { state with listeners := state.listeners ++ [r] }) :=
      fun t _ => Quiet.modifyCell t c fun _ => rfl
    exact hstream.trans (hlisteners _ _)
  case finishPass c => exact s.quiet_finishPass c
  case poll r waker =>
    simp only [apply, poll]
    split
    · exact .of_eq rfl rfl rfl rfl
    · exact .refl s
  all_goals exact .of_eq rfl rfl rfl rfl

/-! ### Cells -/

/-- What stays of a cell, whatever happens. -/
structure Persists (s t : Store) (c : CellRef) : Prop where
  has : s.Has c → t.Has c
  gone : s.isGone (.cell c) → t.isGone (.cell c)
  scheduler : s.Has c → (t.cellState c).scheduler = (s.cellState c).scheduler
  requests : (s.cellState c).requests ≤ (t.cellState c).requests
  unwritten : (t.cellState c).requests = (s.cellState c).requests → s.Has c →
    (t.cellState c).held = (s.cellState c).held ∧
      (t.cellState c).previous = (s.cellState c).previous

/-- What a later store says of a cell, given an earlier one, as long as no pass of it starts. -/
structure Follows (s t : Store) (c : CellRef) : Prop extends Persists s t c where
  requested : (s.cellState c).requests < (t.cellState c).requests → (t.cellState c).scheduled = true
  scheduled : (s.cellState c).scheduled = true → (t.cellState c).scheduled = true
  unrequested : (t.cellState c).requests = (s.cellState c).requests →
    (t.cellState c).scheduled = (s.cellState c).scheduled

namespace Persists

theorem refl (s : Store) (c : CellRef) : Persists s s c where
  has := id
  gone := id
  scheduler := fun _ => rfl
  requests := Nat.le_refl _
  unwritten := fun _ _ => ⟨rfl, rfl⟩

theorem trans (h : Persists s t c) (h' : Persists t u c) : Persists s u c where
  has := fun hs => h'.has (h.has hs)
  gone := fun hs => h'.gone (h.gone hs)
  scheduler := fun hs => (h'.scheduler (h.has hs)).trans (h.scheduler hs)
  requests := Nat.le_trans h.requests h'.requests
  unwritten := fun heq hs => by
    have hst := h.requests
    have htu := h'.requests
    obtain ⟨hheld, hprevious⟩ := h.unwritten (by omega) hs
    obtain ⟨hheld', hprevious'⟩ := h'.unwritten (by omega) (h.has hs)
    exact ⟨hheld'.trans hheld, hprevious'.trans hprevious⟩

/-- A start takes the mark and nothing else. -/
theorem of_start (hhas : s.Has c → t.Has c) (hgone : s.isGone (.cell c) → t.isGone (.cell c))
    (h : t.cellState c = { s.cellState c with scheduled := false }) : Persists s t c where
  has := hhas
  gone := hgone
  scheduler := fun _ => by rw [h]
  requests := Nat.le_of_eq (by rw [h])
  unwritten := fun _ _ => by rw [h]; exact ⟨rfl, rfl⟩

end Persists

namespace Follows

/-- Nothing has become of a cell that is in the state it was in. -/
theorem of_eq (hhas : s.Has c → t.Has c) (hgone : s.isGone (.cell c) → t.isGone (.cell c))
    (h : t.cellState c = s.cellState c) : Follows s t c where
  has := hhas
  gone := hgone
  scheduler := fun _ => by rw [h]
  requests := Nat.le_of_eq (by rw [h])
  requested := fun hlt => by rw [h] at hlt; exact absurd hlt (Nat.lt_irrefl _)
  scheduled := fun hs => by rw [h, hs]
  unrequested := fun _ => by rw [h]
  unwritten := fun _ _ => by rw [h]; exact ⟨rfl, rfl⟩

theorem refl (s : Store) (c : CellRef) : Follows s s c := of_eq id id rfl

theorem trans (h : Follows s t c) (h' : Follows t u c) : Follows s u c where
  toPersists := h.toPersists.trans h'.toPersists
  requested := fun hlt => by
    rcases Nat.lt_or_ge (s.cellState c).requests (t.cellState c).requests with hst | hts
    · exact h'.scheduled (h.requested hst)
    · exact h'.requested (Nat.lt_of_le_of_lt hts hlt)
  scheduled := fun hs => h'.scheduled (h.scheduled hs)
  unrequested := fun heq => by
    have hst := h.requests
    have htu := h'.requests
    exact (h'.unrequested (by omega)).trans (h.unrequested (by omega))

end Follows

theorem Quiet.follows (h : Quiet s t) (c : CellRef) : Follows s t c where
  has := h.has.2
  gone := h.gone _
  scheduler := fun _ => h.scheduler
  requests := Nat.le_of_eq h.requests.symm
  requested := fun hlt => absurd h.requests.symm (Nat.ne_of_lt hlt)
  scheduled := fun hs => h.scheduled.trans hs
  unrequested := fun _ => h.scheduled
  unwritten := fun _ _ => ⟨h.held, h.previous⟩

/-- A cell that is made is like the one that was not there, but for what it holds and where its
passes are queued. -/
theorem follows_newCell (s : Store) (v : Value) (scheduler : Scheduler) (c : CellRef) :
    Follows s (s.newCell v scheduler).1 c := by
  have hstate := s.cellState_newCell v scheduler c
  have hhas : s.Has c → (s.newCell v scheduler).1.Has c := fun hc => has_newCell.2 (.inl hc)
  split at hstate
  · next hid =>
    have hnew : ¬s.Has c := Nat.not_lt_of_le (Nat.le_of_eq hid.symm)
    have hnone := cellState_of_not_has hnew
    exact
      { has := hhas
        gone := id
        scheduler := fun hc => absurd hc hnew
        requests := by rw [hnone]; exact Nat.zero_le _
        requested := fun hlt => by rw [hstate] at hlt; exact absurd hlt (Nat.not_lt_zero _)
        scheduled := fun hs => by rw [hnone] at hs; cases hs
        unrequested := fun _ => by rw [hstate, hnone]
        unwritten := fun _ hc => absurd hc hnew }
  · exact .of_eq hhas id hstate

/-- A request shows in the cell it is made of, whatever has been written with it. -/
theorem Follows.of_request {written : CellState} (hhas : s.Has c → t.Has c)
    (hgone : s.isGone (.cell c) → t.isGone (.cell c)) (h : t.cellState c = written.request)
    (hscheduler : written.scheduler = (s.cellState c).scheduler)
    (hrequests : written.requests = (s.cellState c).requests) : Follows s t c := by
  have hcount : (t.cellState c).requests = (s.cellState c).requests + 1 := by
    rw [h, CellState.request, hrequests]
  exact
    { has := hhas
      gone := hgone
      scheduler := fun _ => by rw [h]; exact hscheduler
      requests := by omega
      requested := fun _ => by rw [h]; rfl
      scheduled := fun _ => by rw [h]; rfl
      unrequested := fun heq => by omega
      unwritten := fun heq => by omega }

theorem follows_trigger (s : Store) (d c : CellRef) : Follows s (s.trigger d) c := by
  have hstate := s.cellState_trigger d c
  have hgone : s.isGone (.cell c) → (s.trigger d).isGone (.cell c) := (s.isGone_trigger d _).trans
  split at hstate
  · exact .of_request has_trigger.2 hgone hstate rfl rfl
  · exact .of_eq has_trigger.2 hgone hstate

theorem follows_write (s : Store) (d : CellRef) (v : Value) (c : CellRef) :
    Follows s ((s.commit d v).trigger d) c := by
  have hstate := (s.commit d v).cellState_trigger d c
  have hhas : s.Has c → ((s.commit d v).trigger d).Has c := fun hc =>
    has_trigger.2 (has_modifyCell.2 hc)
  have hgone : s.isGone (.cell c) → ((s.commit d v).trigger d).isGone (.cell c) :=
    ((s.commit d v).isGone_trigger d _).trans
  by_cases hcd : c = d ∧ s.Has c
  · rw [if_pos ⟨hcd.1, has_modifyCell.2 hcd.2⟩, commit, cellState_modifyCell, if_pos hcd] at hstate
    exact .of_request hhas hgone hstate rfl rfl
  · rw [if_neg fun h => hcd ⟨h.1, has_modifyCell.1 h.2⟩, commit, cellState_modifyCell,
      if_neg hcd] at hstate
    exact .of_eq hhas hgone hstate

/-- What a change makes of a cell. -/
theorem follows_apply (s : Store) (x : Change) (c : CellRef) : Follows s (s.apply x) c := by
  by_cases hquiet : x.IsQuiet
  · exact (s.quiet_apply hquiet).follows c
  · cases x
    case newCell v scheduler => exact s.follows_newCell v scheduler c
    case newQueue => exact .of_eq id id rfl
    case trigger d => exact s.follows_trigger d c
    case write d v => exact s.follows_write d v c
    all_goals exact absurd trivial hquiet

/-- What changes make of a cell. -/
theorem Leads.follows {permitted : Store → Change → Prop} (h : Leads permitted s t) (c : CellRef) :
    Follows s t c :=
  h.relates (R := fun s t => Follows s t c) (fun s => .refl s c) (fun _ _ _ => .trans)
    fun s x _ => s.follows_apply x c

/-! ### Queues -/

/-- No queue is ever taken away. -/
theorem queues_size_le_apply (s : Store) (x : Change) :
    s.queues.size ≤ (s.apply x).queues.size := by
  by_cases hquiet : x.IsQuiet
  · exact Nat.le_of_eq (congrArg Array.size (s.quiet_apply hquiet).queues.symm)
  · cases x
    case newCell => exact Nat.le_refl _
    case newQueue => simp [apply, newQueue]
    case trigger c => exact Nat.le_of_eq (s.queues_trigger_size c).symm
    case write c v => exact Nat.le_of_eq ((s.commit c v).queues_trigger_size c).symm
    all_goals exact absurd trivial hquiet

theorem Leads.queues_size_le {permitted : Store → Change → Prop} (h : Leads permitted s t) :
    s.queues.size ≤ t.queues.size :=
  h.relates (R := fun s t => s.queues.size ≤ t.queues.size) (fun _ => Nat.le_refl _)
    (fun _ _ _ => Nat.le_trans) fun s x _ => s.queues_size_le_apply x

end Store

end LiveMarkup
