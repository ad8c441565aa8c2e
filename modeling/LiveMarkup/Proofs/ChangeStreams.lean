import LiveMarkup.Builtin.Function
import LiveMarkup.Proofs.Change
import Mathlib.Data.List.Induction

/-!
# Streams neither lose nor invent passes

A stream shows its reader whether a pass of the cell has finished since it was last asked, and wakes
the reader by the waker that was left when it was.  What it shows is a matter of what has happened
to the cell and to the stream, in whatever order that was, and of nothing else in the store: the
other cells and streams, and all that goes on beside them, make no difference.

Passes and the end of a cell reach a stream through the list of the cell's listeners, from which
streams that nobody reads are taken out in a pass.  So the invariant is that no stream is twice in
these lists, in one of them or in two; then a stream that is read stays in the list of its cell, and
what it shows changes by what happens to this cell and to this stream, one step at a time.

## Main definitions

* `StreamEvent`, `Store.after` — what happens, one thing after another.
* `Store.wakes`, `Store.wakesDuring` — the streams whose readers are woken, with the wakers.
* `Store.Wired`, `Store.Connected` — the invariant, and a stream that is read.
* `StreamState.next` — what an event makes of a stream of a cell.
* `PassSince` — a pass has finished since the stream was last polled.

## Main results

* `Store.streamState_after`, `Store.Connected.after` — one event.
* `Store.notices_after` — exactly the wakers are woken.
* `streams_keep_count` — what a stream answers, and when its reader is woken.
-/

namespace LiveMarkup

/-- A change that no stream shows. -/
def Change.IsAside : Change → Prop
  | .listen _ | .poll _ _ | .stopReading _ | .detach _ | .finishPass _ => False
  | _ => True

/-- Something that happens. -/
inductive StreamEvent
  /-- A stream of a cell is made. -/
  | listen (c : CellRef)
  /-- A stream is asked for news, and a waker is left. -/
  | poll (r : StreamRef) (waker : String)
  /-- The reader of a stream lets it go. -/
  | stopReading (r : StreamRef)
  /-- A pass of a cell has called the subscribers, and tells the streams. -/
  | pass (c : CellRef)
  /-- A cell goes, and its streams end. -/
  | drop (c : CellRef)
  /-- Anything that no stream shows. -/
  | aside (x : Change) (isAside : x.IsAside)

/-- Something goes, or the streams of a cell that goes end. -/
def StreamEvent.IsGoing : StreamEvent → Prop
  | .drop _ | .aside (.leave _) _ => True
  | _ => False

namespace Store

variable {s : Store} {c : CellRef} {r : StreamRef}

/-- The store after something has happened. -/
def after (s : Store) : StreamEvent → Store
  | .listen c => (s.listen c).1
  | .poll r waker => (s.poll r waker).1
  | .stopReading r => s.stopReading r
  | .pass c => s.finishPass c
  | .drop c => s.endStreams c
  | .aside x _ => s.apply x

/-- The store after one thing after another has happened. -/
def afterAll (s : Store) (es : List StreamEvent) : Store := es.foldl after s

theorem exists_events_letGoWithin (kept : List Entity) (fuel : Nat) (pending : List Loss)
    (s : Store) :
    ∃ es, (∀ e ∈ es, e.IsGoing) ∧ s.letGoWithin kept fuel pending = s.afterAll es := by
  -- by induction on the fuel, since what goes puts its own losses in front
  induction fuel generalizing s pending with
  | zero => exact ⟨[], by simp, rfl⟩
  | succ fuel ih =>
    match pending with
    | [] => exact ⟨[], by simp, rfl⟩
    | .streams c :: rest =>
      obtain ⟨es, hgoing, hes⟩ := ih rest (s.endStreams c)
      exact ⟨.drop c :: es, List.forall_mem_cons.2 ⟨trivial, hgoing⟩, hes⟩
    | .reference x :: rest =>
      unfold letGoWithin
      split
      · exact ih rest s
      · obtain ⟨es, hgoing, hes⟩ := ih (s.losses x ++ rest) { s with gone := x :: s.gone }
        exact ⟨.aside (.leave x) trivial :: es, List.forall_mem_cons.2 ⟨trivial, hgoing⟩, hes⟩

/-- Giving up references is a series of events. -/
theorem exists_events_letGo (s : Store) (kept lost : List Entity) :
    ∃ es, (∀ e ∈ es, e.IsGoing) ∧ s.letGo kept lost = s.afterAll es := by
  unfold letGo
  split
  · exact ⟨[], by simp, rfl⟩
  · exact exists_events_letGoWithin kept _ _ s

/-! ### Wakers -/

/-- The waker that a reader has left with a stream, if there is one. -/
def leftWaker (s : Store) (r : StreamRef) : List (StreamRef × String) :=
  (s.streamState r).waker.toList.map (r, ·)

/-- The streams whose readers an event wakes, with the wakers, in order. -/
def wakes (s : Store) : StreamEvent → List (StreamRef × String)
  | .pass c =>
    let (kept, closed) := (s.cellState c).listeners.partition fun r => (s.streamState r).reading
    (closed ++ kept).flatMap s.leftWaker
  | .drop c => (s.cellState c).listeners.flatMap s.leftWaker
  | _ => []

/-- The streams whose readers are woken while one thing after another happens. -/
def wakesDuring (s : Store) : List StreamEvent → List (StreamRef × String)
  | [] => []
  | e :: es => s.wakes e ++ (s.after e).wakesDuring es

/-- Changes what is known of a stream, and wakes its reader. -/
def tell (f : StreamState → StreamState) (s : Store) (r : StreamRef) : Store :=
  (s.modifyStream r f).wake r

theorem detach_eq_tell : detach = tell fun state => { state with attached := false } := rfl

theorem notify_eq_tell : notify = tell fun state => { state with dirty := true } := rfl

/-- A stream that has been made. -/
def HasStream (s : Store) (r : StreamRef) : Prop := r.id < s.streams.size

instance (s : Store) (r : StreamRef) : Decidable (s.HasStream r) :=
  inferInstanceAs (Decidable (_ < _))

/-- An edit of a stream shows in that stream and nowhere else. -/
theorem streamState_modifyStream (s : Store) (q r : StreamRef) (f : StreamState → StreamState) :
    (s.modifyStream q f).streamState r =
      if r = q ∧ s.HasStream r then f (s.streamState r) else s.streamState r := by
  obtain ⟨i⟩ := r
  obtain ⟨j⟩ := q
  simp only [streamState, modifyStream, HasStream, Array.getD_eq_getD_getElem?,
    Array.getElem?_modify, StreamRef.mk.injEq]
  by_cases hlt : i < s.streams.size
  · by_cases hij : i = j
    · subst hij
      simp [hlt]
    · simp [hij, Ne.symm hij]
  · simp [hlt]

theorem hasStream_modifyStream {q : StreamRef} {f : StreamState → StreamState} :
    (s.modifyStream q f).HasStream r ↔ s.HasStream r := by
  simp [HasStream, modifyStream]

variable {f : StreamState → StreamState}

theorem hasStream_tell {q : StreamRef} : (tell f s q).HasStream r ↔ s.HasStream r := by
  simp [HasStream, tell, wake, notice, modifyStream]

/-- Who is told has no waker left. -/
theorem streamState_tell (s : Store) (q r : StreamRef) :
    (tell f s q).streamState r =
      if r = q ∧ s.HasStream r then { f (s.streamState r) with waker := none }
      else s.streamState r := by
  show ((s.modifyStream q f).modifyStream q _).streamState r = _
  simp only [streamState_modifyStream, hasStream_modifyStream]
  split <;> rfl

theorem hasStream_foldl_tell {rs : List StreamRef} :
    (rs.foldl (tell f) s).HasStream r ↔ s.HasStream r := by
  induction rs generalizing s with
  | nil => rfl
  | cons q rest ih => rw [List.foldl_cons, ih, hasStream_tell]

/-- Telling several streams leaves the others alone. -/
theorem streamState_foldl_tell_of_notMem {rs : List StreamRef} (hr : r ∉ rs) (s : Store) :
    (rs.foldl (tell f) s).streamState r = s.streamState r := by
  induction rs generalizing s with
  | nil => rfl
  | cons q rest ih =>
    rw [List.mem_cons, not_or] at hr
    obtain ⟨hq, hrest⟩ := hr
    rw [List.foldl_cons, ih hrest, streamState_tell, if_neg fun h => hq h.1]

/-- Telling several streams tells each of them once. -/
theorem streamState_foldl_tell {rs : List StreamRef} (hnodup : rs.Nodup) (hr : r ∈ rs)
    {s : Store} (hmade : s.HasStream r) :
    (rs.foldl (tell f) s).streamState r = { f (s.streamState r) with waker := none } := by
  induction rs generalizing s with
  | nil => cases hr
  | cons q rest ih =>
    obtain ⟨hq, hrest⟩ := List.nodup_cons.1 hnodup
    rw [List.foldl_cons]
    rcases List.mem_cons.1 hr with rfl | hr
    · rw [streamState_foldl_tell_of_notMem hq, streamState_tell, if_pos ⟨rfl, hmade⟩]
    · rw [ih hrest hr (hasStream_tell.2 hmade), streamState_tell,
        if_neg fun h : r = q ∧ _ => hq (h.1 ▸ hr)]

/-- Telling several streams leaves the wakers of the others. -/
theorem flatMap_leftWaker_foldl_tell {rs qs : List StreamRef} (hapart : ∀ q ∈ qs, q ∉ rs)
    (s : Store) : qs.flatMap (rs.foldl (tell f) s).leftWaker = qs.flatMap s.leftWaker := by
  have hsame : ∀ q ∈ qs, (rs.foldl (tell f) s).leftWaker q = s.leftWaker q := fun q hq => by
    rw [leftWaker, streamState_foldl_tell_of_notMem (hapart q hq), leftWaker]
  rw [List.flatMap_def, List.flatMap_def, List.map_congr_left hsame]

/-- Telling several streams wakes their readers, each by the waker that is left. -/
theorem notices_foldl_tell (hf : ∀ state, (f state).waker = state.waker) {rs : List StreamRef}
    (hnodup : rs.Nodup) (s : Store) :
    (rs.foldl (tell f) s).notices =
      s.notices ++ (rs.flatMap s.leftWaker).map fun w => .woken w.2 := by
  induction rs generalizing s with
  | nil => simp
  | cons q rest ih =>
    obtain ⟨hq, hrest⟩ := List.nodup_cons.1 hnodup
    -- what the change makes of the first stream does not touch the waker that is woken
    have hfirst : (tell f s q).notices =
        s.notices ++ (s.leftWaker q).map fun w => .woken w.2 := by
      have hwaker : ((s.modifyStream q f).streamState q).waker = (s.streamState q).waker := by
        rw [streamState_modifyStream]
        split
        · exact hf _
        · rfl
      show s.notices ++ ((s.modifyStream q f).streamState q).waker.toList.map .woken = _
      rw [hwaker, leftWaker, List.map_map]
      rfl
    have hapart : ∀ p ∈ rest, p ∉ [q] := fun p hp heq => hq (List.mem_singleton.1 heq ▸ hp)
    have hothers : rest.flatMap (tell f s q).leftWaker = rest.flatMap s.leftWaker :=
      flatMap_leftWaker_foldl_tell hapart s
    rw [List.foldl_cons, ih hrest, hfirst, hothers, List.flatMap_cons, List.map_append,
      List.append_assoc]

theorem notices_foldl_detach {rs : List StreamRef} (hnodup : rs.Nodup) (s : Store) :
    (rs.foldl detach s).notices =
      s.notices ++ (rs.flatMap s.leftWaker).map fun w => .woken w.2 := by
  rw [detach_eq_tell]
  exact notices_foldl_tell (by intro _; rfl) hnodup s

theorem notices_foldl_notify {rs : List StreamRef} (hnodup : rs.Nodup) (s : Store) :
    (rs.foldl notify s).notices =
      s.notices ++ (rs.flatMap s.leftWaker).map fun w => .woken w.2 := by
  rw [notify_eq_tell]
  exact notices_foldl_tell (by intro _; rfl) hnodup s

theorem filter_leftWaker (s : Store) (q r : StreamRef) :
    (s.leftWaker q).filter (·.1 = r) = if q = r then s.leftWaker q else [] := by
  unfold leftWaker
  cases (s.streamState q).waker with
  | none => simp
  | some waker => by_cases hq : q = r <;> simp [hq]

/-- Of the wakers that are left with several streams, those left with one of them. -/
theorem filter_flatMap_leftWaker {rs : List StreamRef} (hnodup : rs.Nodup) (s : Store)
    (r : StreamRef) :
    (rs.flatMap s.leftWaker).filter (·.1 = r) = if r ∈ rs then s.leftWaker r else [] := by
  induction rs with
  | nil => rfl
  | cons q rest ih =>
    obtain ⟨hq, hrest⟩ := List.nodup_cons.1 hnodup
    rw [List.flatMap_cons, List.filter_append, ih hrest, filter_leftWaker]
    by_cases heq : q = r
    · subst heq
      simp [hq]
    · simp [heq, Ne.symm heq]

/-! ### Listeners -/

/-- The streams that are told of the passes of a cell. -/
def listeners (s : Store) (c : CellRef) : List StreamRef := (s.cellState c).listeners

/-- No stream is told twice. -/
structure Wired (s : Store) : Prop where
  nodup : ∀ c, (s.listeners c).Nodup
  disjoint : ∀ c d r, r ∈ s.listeners c → r ∈ s.listeners d → c = d
  made : ∀ c, ∀ r ∈ s.listeners c, s.HasStream r

/-- A stream of a cell that is read. -/
structure Connected (s : Store) (c : CellRef) (r : StreamRef) : Prop where
  wired : s.Wired
  listens : r ∈ s.listeners c
  reading : (s.streamState r).reading = true

/-- The listeners of a cell who read, and those who do not. -/
theorem finishPass_eq (s : Store) (c : CellRef) :
    s.finishPass c =
      ((s.listeners c).filter fun r => (s.streamState r).reading).foldl notify
        (((s.listeners c).filter fun r => !(s.streamState r).reading).foldl detach
          (s.modifyCell c fun state => { state with
            listeners := (s.listeners c).filter fun r => (s.streamState r).reading })) := by
  simp only [finishPass, List.partition_eq_filter_filter, listeners]
  rfl

theorem listeners_modifyCell (s : Store) (d c : CellRef) {f : CellState → CellState}
    (h : ∀ state, (f state).listeners = state.listeners) :
    (s.modifyCell d f).listeners c = s.listeners c :=
  project_modifyCell CellState.listeners s d c f h

theorem listeners_trigger (s : Store) (d c : CellRef) :
    (s.trigger d).listeners c = s.listeners c :=
  project_trigger CellState.listeners s d c fun _ => rfl

theorem streams_trigger (s : Store) (d : CellRef) : (s.trigger d).streams = s.streams := by
  unfold trigger
  split
  · rfl
  · next state _ =>
    split
    · rfl
    · cases state.scheduler <;> rfl

theorem wakes_pass (s : Store) (c : CellRef) :
    s.wakes (.pass c) =
      ((s.listeners c).filter (fun r => !(s.streamState r).reading) ++
        (s.listeners c).filter fun r => (s.streamState r).reading).flatMap s.leftWaker := by
  simp only [wakes, List.partition_eq_filter_filter, listeners]
  rfl

/-- A change that no stream shows leaves the streams alone. -/
theorem streams_apply (s : Store) {x : Change} (hx : x.IsAside) :
    (s.apply x).streams = s.streams := by
  cases x
  case listen | poll | stopReading | detach | finishPass => exact hx.elim
  case trigger d => exact s.streams_trigger d
  case write d v => exact (s.commit d v).streams_trigger d
  all_goals rfl

/-- A change that no stream shows leaves the lists of listeners alone. -/
theorem listeners_apply (s : Store) {x : Change} (hx : x.IsAside) (c : CellRef) :
    (s.apply x).listeners c = s.listeners c := by
  cases x
  case listen | poll | stopReading | detach | finishPass => exact hx.elim
  case newCell v scheduler =>
    simp only [apply, listeners, cellState_newCell]
    split
    · next hid => rw [cellState_of_not_has (Nat.not_lt_of_le (Nat.le_of_eq hid.symm))]
    · rfl
  case trigger d => exact s.listeners_trigger d c
  case write d v =>
    exact ((s.commit d v).listeners_trigger d c).trans (s.listeners_modifyCell d c fun _ => rfl)
  case subscribe d k =>
    refine s.listeners_modifyCell d c fun state => ?_
    split <;> rfl
  case unsubscribe d k => exact s.listeners_modifyCell d c fun _ => rfl
  case unsubscribeAll d => exact s.listeners_modifyCell d c fun _ => rfl
  all_goals rfl

/-- Telling streams leaves the cells alone. -/
theorem cells_foldl_tell (rs : List StreamRef) (s : Store) :
    (rs.foldl (tell f) s).cells = s.cells := by
  induction rs generalizing s with
  | nil => rfl
  | cons q rest ih => exact ih (tell f s q)

theorem listeners_listen (s : Store) (c d : CellRef) :
    (s.listen c).1.listeners d =
      if d = c ∧ s.Has d then s.listeners d ++ [⟨s.streams.size⟩] else s.listeners d := by
  show ((Store.modifyCell { s with streams := s.streams.push {} } c _).cellState d).listeners = _
  rw [cellState_modifyCell]
  show (if d = c ∧ s.Has d then _ else _ : CellState).listeners = _
  split <;> rfl

theorem poll_fst (s : Store) (r : StreamRef) (waker : String) :
    (s.poll r waker).1 =
      if (s.streamState r).attached then
        s.modifyStream r fun state => { state with dirty := false, waker := some waker }
      else s := by
  simp only [poll]
  split <;> rfl

theorem poll_snd (s : Store) (r : StreamRef) (waker : String) :
    (s.poll r waker).2 =
      if (s.streamState r).attached then
        if (s.streamState r).dirty then .changed else .pending
      else .ended := by
  simp only [poll]
  split <;> rfl

theorem listeners_poll (s : Store) (r : StreamRef) (waker : String) (d : CellRef) :
    (s.poll r waker).1.listeners d = s.listeners d := by
  simp only [poll]
  split <;> rfl

theorem listeners_endStreams (s : Store) (c d : CellRef) :
    (s.endStreams c).listeners d = s.listeners d := by
  rw [endStreams, detach_eq_tell, listeners, cellState, cells_foldl_tell]
  rfl

/-- A pass takes out the streams that nobody reads. -/
theorem listeners_finishPass (s : Store) (c d : CellRef) :
    (s.finishPass c).listeners d =
      if d = c then (s.listeners d).filter fun r => (s.streamState r).reading
      else s.listeners d := by
  rw [finishPass_eq, notify_eq_tell, detach_eq_tell, listeners, cellState, cells_foldl_tell,
    cells_foldl_tell]
  show ((s.modifyCell c _).cellState d).listeners = _
  rw [cellState_modifyCell]
  by_cases hd : d = c
  · subst hd
    by_cases hhas : s.Has d
    · rw [if_pos ⟨rfl, hhas⟩, if_pos rfl]
    · rw [if_neg fun h => hhas h.2, if_pos rfl, listeners, cellState_of_not_has hhas]
      rfl
  · rw [if_neg fun h => hd h.1, if_neg hd]
    rfl

/-- Streams that have been made stay. -/
theorem HasStream.after (h : s.HasStream r) (e : StreamEvent) : (s.after e).HasStream r := by
  cases e with
  | listen c =>
    show r.id < (s.streams.push {}).size
    rw [Array.size_push]
    exact Nat.lt_succ_of_lt h
  | poll q waker =>
    simp only [Store.after, poll]
    split
    · exact hasStream_modifyStream.2 h
    · exact h
  | stopReading q => exact hasStream_modifyStream.2 h
  | pass c =>
    show (s.finishPass c).HasStream r
    rw [finishPass_eq, notify_eq_tell, detach_eq_tell]
    exact hasStream_foldl_tell.2 (hasStream_foldl_tell.2 h)
  | drop c =>
    show (s.endStreams c).HasStream r
    rw [endStreams, detach_eq_tell]
    exact hasStream_foldl_tell.2 h
  | aside x hx =>
    show r.id < (s.apply x).streams.size
    rw [s.streams_apply hx]
    exact h

/-! ### The invariant -/

theorem wired_initial : Store.initial.Wired := by
  have hnone : ∀ c, Store.initial.listeners c = [] := fun c => by
    rw [listeners, cellState_of_not_has (Nat.not_lt_zero _)]
  refine ⟨fun c => ?_, fun c d r hr => ?_, fun c r hr => ?_⟩
  · rw [hnone]
    exact List.nodup_nil
  · rw [hnone] at hr
    cases hr
  · rw [hnone] at hr
    cases hr

/-- Lists of listeners that have become no longer. -/
theorem Wired.of_sublist {t : Store} (h : s.Wired)
    (hsub : ∀ c, (t.listeners c).Sublist (s.listeners c))
    (hmade : ∀ r, s.HasStream r → t.HasStream r) : t.Wired where
  nodup c := (h.nodup c).sublist (hsub c)
  disjoint c d r hc hd := h.disjoint c d r ((hsub c).subset hc) ((hsub d).subset hd)
  made c r hr := hmade r (h.made c r ((hsub c).subset hr))

/-- A new stream is told of the passes of one cell only. -/
theorem Wired.listen (h : s.Wired) (c : CellRef) : (s.listen c).1.Wired := by
  -- the place of the new stream is past all that are in the lists
  have hnew : ∀ d, (⟨s.streams.size⟩ : StreamRef) ∉ s.listeners d := fun d hmem =>
    absurd (h.made d _ hmem) (Nat.lt_irrefl _)
  have hmem : ∀ d r, r ∈ (s.listen c).1.listeners d ↔
      r ∈ s.listeners d ∨ (d = c ∧ s.Has d) ∧ r = ⟨s.streams.size⟩ := by
    intro d r
    rw [listeners_listen]
    split
    · next hd => rw [List.mem_append, List.mem_singleton, and_iff_right hd]
    · next hd => simp [hd]
  refine ⟨fun d => ?_, fun d d' r hd hd' => ?_, fun d r hr => ?_⟩
  · rw [listeners_listen]
    split
    · exact List.nodup_append.2 ⟨h.nodup d, by simp, fun q hq p hp heq =>
        hnew d (List.mem_singleton.1 hp ▸ heq ▸ hq)⟩
    · exact h.nodup d
  · rcases (hmem d r).1 hd with hd | ⟨⟨rfl, -⟩, rfl⟩
    · rcases (hmem d' r).1 hd' with hd' | ⟨-, rfl⟩
      · exact h.disjoint d d' r hd hd'
      · exact absurd hd (hnew d)
    · rcases (hmem d' _).1 hd' with hd' | ⟨⟨rfl, -⟩, -⟩
      · exact absurd hd' (hnew d')
      · rfl
  · have hgrown : ∀ q, s.HasStream q → (s.listen c).1.HasStream q := fun q hq =>
      hq.after (.listen c)
    rcases (hmem d r).1 hr with hr | ⟨-, rfl⟩
    · exact hgrown r (h.made d r hr)
    · show s.streams.size < (s.streams.push {}).size
      rw [Array.size_push]
      exact Nat.lt_succ_self _

theorem Wired.after (h : s.Wired) (e : StreamEvent) : (s.after e).Wired := by
  cases e with
  | listen c => exact h.listen c
  | poll q waker =>
    refine h.of_sublist (fun c => ?_) fun r hr => hr.after _
    exact (s.listeners_poll q waker c).symm ▸ .refl _
  | stopReading q => exact h.of_sublist (fun c => .refl _) fun r hr => hr.after (.stopReading q)
  | pass c =>
    refine h.of_sublist (fun d => ?_) fun r hr => hr.after _
    rw [Store.after, listeners_finishPass]
    split
    · exact List.filter_sublist
    · exact .refl _
  | drop c =>
    refine h.of_sublist (fun d => ?_) fun r hr => hr.after _
    exact (s.listeners_endStreams c d).symm ▸ .refl _
  | aside x hx =>
    refine h.of_sublist (fun c => ?_) fun r hr => hr.after _
    exact (s.listeners_apply hx c).symm ▸ .refl _

theorem Wired.afterAll (h : s.Wired) (es : List StreamEvent) : (s.afterAll es).Wired := by
  induction es generalizing s with
  | nil => exact h
  | cons e es ih => exact ih (h.after e)

end Store

/-! ### One stream -/

/-- What an event makes of a stream `r` of the cell `c` that is read. -/
def StreamState.next (c : CellRef) (r : StreamRef) (state : StreamState) :
    StreamEvent → StreamState
  | .poll q waker =>
    if q = r ∧ state.attached then { state with dirty := false, waker := some waker } else state
  | .stopReading q => if q = r then { state with reading := false } else state
  | .pass d => if d = c then { state with dirty := true, waker := none } else state
  | .drop d => if d = c then { state with attached := false, waker := none } else state
  | .listen _ | .aside _ _ => state

namespace Store

variable {s : Store} {c : CellRef} {r : StreamRef}

namespace Connected

theorem mem_iff (h : s.Connected c r) (d : CellRef) : r ∈ s.listeners d ↔ d = c :=
  ⟨fun hd => h.wired.disjoint d c r hd h.listens, fun hd => hd ▸ h.listens⟩

theorem hasStream (h : s.Connected c r) : s.HasStream r := h.wired.made c r h.listens

/-- A pass of its cell, and no other, keeps a stream that is read. -/
theorem mem_kept_iff (h : s.Connected c r) (d : CellRef) :
    r ∈ (s.listeners d).filter (fun r => (s.streamState r).reading) ↔ d = c := by
  simp [h.reading, h.mem_iff]

theorem notMem_closed (h : s.Connected c r) (d : CellRef) :
    r ∉ (s.listeners d).filter fun r => !(s.streamState r).reading := by
  simp [h.reading]

/-- A pass tells those who read. -/
theorem streamState_finishPass (h : s.Connected c r) (d : CellRef) :
    (s.finishPass d).streamState r = (s.streamState r).next c r (.pass d) := by
  rw [finishPass_eq, notify_eq_tell, detach_eq_tell, StreamState.next]
  have hmade : ∀ f, (s.modifyCell d f).HasStream r := fun _ => h.hasStream
  -- to let go of those who do not read changes nothing for one who does
  by_cases hd : d = c
  · rw [if_pos hd, streamState_foldl_tell ((h.wired.nodup d).filter _) ((h.mem_kept_iff d).2 hd)
      (hasStream_foldl_tell.2 (hmade _)), streamState_foldl_tell_of_notMem (h.notMem_closed d)]
    rfl
  · rw [if_neg hd, streamState_foldl_tell_of_notMem fun hr => hd ((h.mem_kept_iff d).1 hr),
      streamState_foldl_tell_of_notMem (h.notMem_closed d)]
    rfl

/-- A stream changes by what happens to its cell and to itself. -/
theorem streamState_after (h : s.Connected c r) (e : StreamEvent) :
    (s.after e).streamState r = (s.streamState r).next c r e := by
  cases e with
  | listen d =>
    show (s.streams.push {}).getD r.id _ = s.streams.getD r.id _
    rw [Array.getD_eq_getD_getElem?, Array.getD_eq_getD_getElem?, Array.getElem?_push,
      if_neg (Nat.ne_of_lt h.hasStream)]
  | poll q waker =>
    rw [Store.after, poll_fst, StreamState.next]
    by_cases hq : q = r
    · subst hq
      by_cases hattached : (s.streamState q).attached = true
      · rw [if_pos hattached, if_pos ⟨rfl, hattached⟩, streamState_modifyStream,
          if_pos ⟨rfl, h.hasStream⟩]
      · rw [if_neg hattached, if_neg fun h => hattached h.2]
    · rw [if_neg fun h : q = r ∧ _ => hq h.1]
      split
      · rw [streamState_modifyStream, if_neg fun h => hq h.1.symm]
      · rfl
  | stopReading q =>
    show (s.modifyStream q _).streamState r = _
    rw [streamState_modifyStream, StreamState.next]
    by_cases hq : q = r
    · rw [if_pos ⟨hq.symm, h.hasStream⟩, if_pos hq]
    · rw [if_neg fun h => hq h.1.symm, if_neg hq]
  | pass d => exact h.streamState_finishPass d
  | drop d =>
    show ((s.listeners d).foldl detach s).streamState r = _
    rw [detach_eq_tell, StreamState.next]
    by_cases hd : d = c
    · rw [if_pos hd, streamState_foldl_tell (h.wired.nodup d) ((h.mem_iff d).2 hd) h.hasStream]
    · rw [if_neg hd, streamState_foldl_tell_of_notMem fun hr => hd ((h.mem_iff d).1 hr)]
  | aside x hx =>
    show (s.apply x).streams.getD r.id _ = s.streams.getD r.id _
    rw [s.streams_apply hx]

/-- A stream that is read stays connected. -/
theorem after (h : s.Connected c r) {e : StreamEvent} (hread : e ≠ .stopReading r) :
    (s.after e).Connected c r where
  wired := h.wired.after e
  listens := by
    cases e with
    | listen d =>
      rw [Store.after, listeners_listen]
      split
      · exact List.mem_append_left _ h.listens
      · exact h.listens
    | poll q waker =>
      rw [Store.after, listeners_poll]
      exact h.listens
    | stopReading q => exact h.listens
    | pass d =>
      rw [Store.after, listeners_finishPass]
      split
      · exact List.mem_filter.2 ⟨h.listens, h.reading⟩
      · exact h.listens
    | drop d =>
      rw [Store.after, listeners_endStreams]
      exact h.listens
    | aside x hx =>
      rw [Store.after, s.listeners_apply hx]
      exact h.listens
  reading := by
    rw [h.streamState_after]
    cases e with
    | stopReading q => rw [StreamState.next, if_neg fun hq : q = r => hread (hq ▸ rfl), h.reading]
    | listen | aside => exact h.reading
    | poll | pass | drop =>
      rw [StreamState.next]
      split <;> exact h.reading

/-- The reader of a stream is woken by a pass and by the end of its cell. -/
theorem filter_wakes (h : s.Connected c r) (e : StreamEvent) :
    (s.wakes e).filter (·.1 = r) =
      match e with
      | .pass d | .drop d => if d = c then s.leftWaker r else []
      | _ => [] := by
  cases e with
  | pass d =>
    have hnodup := h.wired.nodup d
    rw [wakes_pass, List.flatMap_append, List.filter_append,
      filter_flatMap_leftWaker (hnodup.filter _), filter_flatMap_leftWaker (hnodup.filter _),
      if_neg (h.notMem_closed d), List.nil_append]
    simp only [h.mem_kept_iff]
  | drop d =>
    show ((s.listeners d).flatMap s.leftWaker).filter (·.1 = r) = _
    rw [filter_flatMap_leftWaker (h.wired.nodup d)]
    simp only [h.mem_iff]
  | _ => rfl

end Connected

/-- What wakes readers wakes them by exactly the wakers that they have left, in order. -/
theorem notices_after (h : s.Wired) {e : StreamEvent} (hstream : ∀ x hx, e ≠ .aside x hx) :
    (s.after e).notices = s.notices ++ (s.wakes e).map fun w => .woken w.2 := by
  cases e with
  | listen c => simp [Store.after, wakes, listen, modifyCell]
  | poll q waker =>
    rw [Store.after, poll_fst]
    split <;> simp [wakes, modifyStream]
  | stopReading q => simp [Store.after, wakes, stopReading, modifyStream]
  | pass c =>
    have hnodup := h.nodup c
    have hapart : ∀ q ∈ (s.listeners c).filter (fun r => (s.streamState r).reading),
        q ∉ (s.listeners c).filter fun r => !(s.streamState r).reading := by
      intro q hq hclosed
      simp [(List.mem_filter.1 hq).2] at hclosed
    rw [Store.after, finishPass_eq, notices_foldl_notify (hnodup.filter _),
      notices_foldl_detach (hnodup.filter _), detach_eq_tell,
      flatMap_leftWaker_foldl_tell hapart, wakes_pass, List.flatMap_append, List.map_append,
      ← List.append_assoc]
    rfl
  | drop c => exact notices_foldl_detach (h.nodup c) s
  | aside x hx => exact absurd rfl (hstream x hx)

/-! ### Runs -/

/-- A new stream is connected to its cell. -/
theorem Wired.connected (h : s.Wired) (hc : s.Has c) :
    (s.listen c).1.Connected c (s.listen c).2 ∧
      (s.listen c).1.streamState (s.listen c).2 = {} := by
  have hstate : (s.listen c).1.streamState (s.listen c).2 = {} := by
    show (s.streams.push {}).getD s.streams.size _ = _
    rw [Array.getD_eq_getD_getElem?, Array.getElem?_push_size]
    rfl
  refine ⟨⟨h.listen c, ?_, by rw [hstate]⟩, hstate⟩
  rw [listeners_listen, if_pos ⟨rfl, hc⟩]
  exact List.mem_append_right _ (List.mem_singleton_self _)

namespace Connected

variable {es : List StreamEvent}

theorem afterAll (h : s.Connected c r) (hread : .stopReading r ∉ es) :
    (s.afterAll es).Connected c r := by
  induction es generalizing s with
  | nil => exact h
  | cons e es ih =>
    rw [List.mem_cons, not_or] at hread
    exact ih (h.after (Ne.symm hread.1)) hread.2

theorem streamState_afterAll (h : s.Connected c r) (hread : .stopReading r ∉ es) :
    (s.afterAll es).streamState r = es.foldl (StreamState.next c r) (s.streamState r) := by
  induction es generalizing s with
  | nil => rfl
  | cons e es ih =>
    rw [List.mem_cons, not_or] at hread
    rw [List.foldl_cons, ← h.streamState_after e]
    exact ih (h.after (Ne.symm hread.1)) hread.2

end Connected

end Store

namespace StreamState

variable {state : StreamState} {c : CellRef} {r : StreamRef}

theorem attached_next (e : StreamEvent) :
    (state.next c r e).attached = true ↔ state.attached = true ∧ e ≠ .drop c := by
  cases e with
  | drop d =>
    by_cases hd : d = c <;> simp [next, hd]
  | listen | aside => simp [next]
  | poll | stopReading | pass =>
    rw [next]
    split <;> simp

/-- The cell has its end of a stream until it goes. -/
theorem attached_foldl (es : List StreamEvent) (state : StreamState) :
    (es.foldl (next c r) state).attached = true ↔ state.attached = true ∧ .drop c ∉ es := by
  induction es generalizing state with
  | nil => simp
  | cons e es ih =>
    rw [List.foldl_cons, ih, attached_next, List.mem_cons, not_or, and_assoc]
    exact and_congr_right fun _ => and_congr_left fun _ => ne_comm

theorem dirty_next (hattached : state.attached = true) (e : StreamEvent) :
    (state.next c r e).dirty = true ↔
      e = .pass c ∨ state.dirty = true ∧ ∀ waker, e ≠ .poll r waker := by
  cases e with
  | pass d => by_cases hd : d = c <;> simp [next, hd]
  | poll q waker => by_cases hq : q = r <;> simp [next, hq, hattached]
  | listen | aside => simp [next]
  | stopReading | drop =>
    rw [next]
    split <;> simp

/-- Nothing but a poll and what wakes the reader touches the waker. -/
theorem waker_next {e : StreamEvent} (hpoll : ∀ waker, e ≠ .poll r waker) (hpass : e ≠ .pass c)
    (hdrop : e ≠ .drop c) : (state.next c r e).waker = state.waker := by
  cases e with
  | pass d => rw [next, if_neg fun h : d = c => hpass (h ▸ rfl)]
  | drop d => rw [next, if_neg fun h : d = c => hdrop (h ▸ rfl)]
  | poll q waker => rw [next, if_neg fun h : q = r ∧ _ => hpoll waker (h.1 ▸ rfl)]
  | listen | aside => rfl
  | stopReading q =>
    rw [next]
    split <;> rfl

end StreamState

/-! ### Answers -/

/-- A pass of the cell has finished since the stream was last polled, or since the beginning if it
has not been. -/
def PassSince (c : CellRef) (r : StreamRef) (es : List StreamEvent) : Prop :=
  ∃ earlier later, es = earlier ++ .pass c :: later ∧ ∀ waker, .poll r waker ∉ later

variable {c : CellRef} {r : StreamRef}

theorem passSince_concat (es : List StreamEvent) (e : StreamEvent) :
    PassSince c r (es ++ [e]) ↔
      e = .pass c ∨ PassSince c r es ∧ ∀ waker, e ≠ .poll r waker := by
  constructor
  · rintro ⟨earlier, later, heq, hpolls⟩
    rcases List.eq_nil_or_concat later with rfl | ⟨later, x, rfl⟩
    · obtain ⟨-, he⟩ := List.append_inj' heq rfl
      exact .inl (List.singleton_inj.1 he)
    · rw [List.concat_eq_append, ← List.cons_append, ← List.append_assoc] at heq
      obtain ⟨rfl, he⟩ := List.append_inj' heq rfl
      obtain rfl := List.singleton_inj.1 he
      simp only [List.concat_eq_append, List.mem_append, List.mem_singleton, not_or] at hpolls
      exact .inr ⟨⟨earlier, later, rfl, fun waker => (hpolls waker).1⟩,
        fun waker => Ne.symm (hpolls waker).2⟩
  · rintro (rfl | ⟨⟨earlier, later, rfl, hpolls⟩, hlast⟩)
    · exact ⟨es, [], rfl, fun _ => List.not_mem_nil⟩
    · refine ⟨earlier, later ++ [e], by simp, fun waker hmem => ?_⟩
      rcases List.mem_append.1 hmem with hmem | hmem
      · exact hpolls waker hmem
      · exact hlast waker (List.mem_singleton.1 hmem).symm

/-- While the cell is there a stream is marked exactly if a pass has finished since it was last
polled. -/
theorem StreamState.dirty_foldl (es : List StreamEvent) (hdrop : .drop c ∉ es) :
    (es.foldl (StreamState.next c r) {}).dirty = true ↔ PassSince c r es := by
  -- from the end, since the last poll and the last pass decide
  induction es using List.reverseRecOn with
  | nil =>
    have hnone : ¬PassSince c r [] := by
      rintro ⟨earlier, later, heq, -⟩
      simp at heq
    simp [hnone]
  | append_singleton es e ih =>
    have hdrop' : .drop c ∉ es := fun hmem => hdrop (List.mem_append_left _ hmem)
    rw [List.foldl_append, List.foldl_cons, List.foldl_nil,
      dirty_next ((attached_foldl es {}).2 ⟨rfl, hdrop'⟩), ih hdrop',
      passSince_concat]

namespace Store.Connected

variable {s : Store} {es : List StreamEvent}

/-! ### Wakes -/

/-- Where no waker is left nobody is woken. -/
theorem filter_wakesDuring_of_none (h : s.Connected c r) (hread : .stopReading r ∉ es)
    (hpolls : ∀ waker, .poll r waker ∉ es) (hnone : (s.streamState r).waker = none) :
    (s.wakesDuring es).filter (·.1 = r) = [] := by
  induction es generalizing s with
  | nil => rfl
  | cons e es ih =>
    simp only [List.mem_cons, not_or] at hread hpolls
    -- only a poll of this stream would leave a waker
    have hleft : s.leftWaker r = [] := by rw [leftWaker, hnone]; rfl
    have hfirst : (s.wakes e).filter (·.1 = r) = [] := by
      rw [h.filter_wakes]
      split <;> simp [hleft]
    have hnext : ((s.after e).streamState r).waker = none := by
      rw [h.streamState_after]
      cases e with
      | poll q waker =>
        rw [StreamState.next, if_neg fun hq : q = r ∧ _ => (hpolls waker).1 (hq.1 ▸ rfl), hnone]
      | listen | aside => exact hnone
      | stopReading | pass | drop =>
        rw [StreamState.next]
        split <;> first | rfl | exact hnone
    rw [wakesDuring, List.filter_append, hfirst,
      ih (h.after (Ne.symm hread.1)) hread.2 (fun waker => (hpolls waker).2) hnext]
    rfl

/-- A waker that is left is woken by the first pass or by the end of the cell, and by nothing after
that. -/
theorem filter_wakesDuring (h : s.Connected c r) (hread : .stopReading r ∉ es)
    (hpolls : ∀ waker, .poll r waker ∉ es) {waker : String}
    (hsome : (s.streamState r).waker = some waker) :
    (.pass c ∈ es ∨ .drop c ∈ es → (s.wakesDuring es).filter (·.1 = r) = [(r, waker)]) ∧
      (.pass c ∉ es → .drop c ∉ es → (s.wakesDuring es).filter (·.1 = r) = []) := by
  induction es generalizing s with
  | nil => exact ⟨fun hmem => by simp at hmem, fun _ _ => rfl⟩
  | cons e es ih =>
    simp only [List.mem_cons, not_or] at hread hpolls
    have hafter := h.after (Ne.symm hread.1)
    have hleft : s.leftWaker r = [(r, waker)] := by rw [leftWaker, hsome]; rfl
    rw [wakesDuring, List.filter_append]
    by_cases hwakes : e = .pass c ∨ e = .drop c
    · -- the reader is woken now, and leaves no waker for what comes
      have hfirst : (s.wakes e).filter (·.1 = r) = [(r, waker)] := by
        rw [h.filter_wakes]
        rcases hwakes with rfl | rfl <;> simp [hleft]
      have hnext : ((s.after e).streamState r).waker = none := by
        rw [h.streamState_after]
        rcases hwakes with rfl | rfl <;> simp [StreamState.next]
      rw [hfirst, hafter.filter_wakesDuring_of_none hread.2 (fun waker => (hpolls waker).2) hnext]
      refine ⟨fun _ => rfl, fun hpass hdrop => ?_⟩
      rcases hwakes with rfl | rfl
      · exact absurd List.mem_cons_self hpass
      · exact absurd List.mem_cons_self hdrop
    · rw [not_or] at hwakes
      have hfirst : (s.wakes e).filter (·.1 = r) = [] := by
        rw [h.filter_wakes]
        cases e with
        | pass d => exact if_neg fun hd : d = c => hwakes.1 (hd ▸ rfl)
        | drop d => exact if_neg fun hd : d = c => hwakes.2 (hd ▸ rfl)
        | _ => rfl
      have hnext : ((s.after e).streamState r).waker = some waker := by
        rw [h.streamState_after, StreamState.waker_next (fun waker => Ne.symm (hpolls waker).1)
          hwakes.1 hwakes.2, hsome]
      rw [hfirst, List.nil_append]
      simpa [Ne.symm hwakes.1, Ne.symm hwakes.2] using
        ih hafter hread.2 (fun waker => (hpolls waker).2) hnext

/-- The waker of a poll is left, if the cell is still there. -/
theorem waker_poll (h : s.Connected c r) (hattached : (s.streamState r).attached = true)
    (waker : String) : ((s.after (.poll r waker)).streamState r).waker = some waker := by
  rw [h.streamState_after, StreamState.next, if_pos ⟨rfl, hattached⟩]

end Store.Connected

theorem Store.afterAll_append (s : Store) (es es' : List StreamEvent) :
    s.afterAll (es ++ es') = (s.afterAll es).afterAll es' :=
  List.foldl_append

/-- Streams neither lose nor invent passes.  Let anything have happened, and let a stream of a cell
be made.  Whatever happens then, one thing after another, as long as the reader keeps the stream:

* A poll answers `ended` once the cell has gone.  Until then it answers `changed` if a pass of the
  cell has finished since the last poll of the stream, or since the stream was made, and `pending`
  if none has.
* The waker that a poll leaves while the cell is there is woken exactly once if a pass of the cell
  finishes or the cell goes before the next poll, and not at all if neither happens; so it is woken
  by the first of these.
* What an event wakes is what the host gets to see, each waker once and in order. -/
theorem streams_keep_count (before : List StreamEvent) {c : CellRef}
    (hc : (Store.initial.afterAll before).Has c) (es : List StreamEvent) :
    let made := (Store.initial.afterAll before).listen c
    let r := made.2
    .stopReading r ∉ es →
      (∀ waker, let answer := ((made.1.afterAll es).poll r waker).2
        (.drop c ∈ es → answer = .ended) ∧
        (.drop c ∉ es → PassSince c r es → answer = .changed) ∧
        (.drop c ∉ es → ¬PassSince c r es → answer = .pending)) ∧
      (∀ earlier waker later, es = earlier ++ .poll r waker :: later → .drop c ∉ earlier →
        (∀ other, .poll r other ∉ later) →
        let polled := made.1.afterAll (earlier ++ [.poll r waker])
        let woken := (polled.wakesDuring later).filter (·.1 = r)
        (.pass c ∈ later ∨ .drop c ∈ later → woken = [(r, waker)]) ∧
        (.pass c ∉ later → .drop c ∉ later → woken = [])) ∧
      ∀ e, (∀ x isAside, e ≠ .aside x isAside) →
        ((made.1.afterAll es).after e).notices = (made.1.afterAll es).notices ++
          ((made.1.afterAll es).wakes e).map fun w => .woken w.2 := by
  intro made r hread
  obtain ⟨hmade, hfresh⟩ := (Store.wired_initial.afterAll before).connected hc
  have hend := hmade.afterAll hread
  refine ⟨fun waker => ?_, fun earlier waker later heq hdrop hpolls => ?_, fun e he =>
    Store.notices_after hend.wired he⟩
  · have hstate := hmade.streamState_afterAll hread
    rw [hfresh] at hstate
    simp only [Store.poll_snd]
    rw [show (made.1.afterAll es).streamState r = _ from hstate]
    refine ⟨fun hdrop => ?_, fun hdrop hpass => ?_, fun hdrop hpass => ?_⟩
    · rw [if_neg fun hattached => ((StreamState.attached_foldl es {}).1 hattached).2 hdrop]
    · rw [if_pos ((StreamState.attached_foldl es {}).2 ⟨rfl, hdrop⟩),
        if_pos ((StreamState.dirty_foldl es hdrop).2 hpass)]
    · rw [if_pos ((StreamState.attached_foldl es {}).2 ⟨rfl, hdrop⟩),
        if_neg fun hdirty => hpass ((StreamState.dirty_foldl es hdrop).1 hdirty)]
  · subst heq
    simp only [List.mem_append, List.mem_cons, not_or] at hread
    have hearlier := hmade.afterAll hread.1
    have hattached : ((made.1.afterAll earlier).streamState r).attached = true := by
      rw [show (made.1.afterAll earlier).streamState r = _ from hmade.streamState_afterAll hread.1,
        hfresh, StreamState.attached_foldl]
      exact ⟨rfl, hdrop⟩
    have hwaker := hearlier.waker_poll hattached waker
    rw [Store.afterAll_append]
    exact (hearlier.after (Ne.symm hread.2.1)).filter_wakesDuring hread.2.2 hpolls hwaker

/-- A pass finishes after a poll that found nothing. -/
theorem pass_wakes_reader :
    let made := (Store.initial.afterAll [.aside (.newCell .null .spawner) trivial]).listen ⟨0⟩
    let polled := made.1.afterAll [.poll ⟨0⟩ "reader"]
    (polled.wakesDuring [.pass ⟨0⟩]).filter (·.1 = ⟨0⟩) = [(⟨0⟩, "reader")] ∧
      (((polled.afterAll [.pass ⟨0⟩])).poll ⟨0⟩ "reader").2 = .changed := by
  have hmain := streams_keep_count [.aside (.newCell .null .spawner) trivial] (c := ⟨0⟩) (by decide)
    [.poll ⟨0⟩ "reader", .pass ⟨0⟩] (by simp)
  refine ⟨(hmain.2.1 [] "reader" [.pass ⟨0⟩] rfl (by simp) (by simp)).1 (by simp), ?_⟩
  exact (hmain.1 "reader").2.1 (by simp) ⟨[.poll ⟨0⟩ "reader"], [], rfl, by simp⟩

end LiveMarkup
