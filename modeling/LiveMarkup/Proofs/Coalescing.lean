import LiveMarkup.Proofs.Run

/-!
# Requests become one pass

Requests that are made before a pass starts become one pass.  What carries this is a balance: as
long as nothing is requested, the passes that start and the mark that is left make up the mark that
was there.

## Main definitions

* `Store.LivesOn` — a cell that is there and has its passes on a queue.
* `startsBetween` — how many passes of a cell start between two moments.

## Main results

* `starts_add_mark` — the balance.
* `passes_coalesce` — a queue has a pass of a cell exactly if the cell is marked, and never two; two
  passes of a cell have a request between them; requests before a pass become that one pass.
-/

namespace LiveMarkup

open Store

/-- A cell that is there and has its passes on a queue. -/
def Store.LivesOn (s : Store) (c : CellRef) (q : QueueRef) : Prop :=
  s.Has c ∧ s.isGone (.cell c) = false ∧ (s.cellState c).scheduler = .queue q

instance (s : Store) (c : CellRef) (q : QueueRef) : Decidable (s.LivesOn c q) :=
  inferInstanceAs (Decidable (_ ∧ _ ∧ _))

/-- How many passes of a cell start from one moment to another. -/
def startsBetween (steps : List Step) (c : CellRef) (i n : Nat) : Nat :=
  (List.range' i (n - i)).countP (passStarts steps c)

variable {steps : List Step} {c : CellRef} {q : QueueRef} {i j n : Nat}

/-! ### Counting starts -/

@[simp] theorem startsBetween_self (steps : List Step) (c : CellRef) (i : Nat) :
    startsBetween steps c i i = 0 := by
  simp [startsBetween]

theorem startsBetween_succ (h : i ≤ n) :
    startsBetween steps c i (n + 1) = startsBetween steps c i n + (passStarts steps c n).toNat := by
  have hlength : n + 1 - i = n - i + 1 := by omega
  have hlast : i + (n - i) = n := by omega
  rw [startsBetween, hlength, List.range'_concat, List.countP_append, Nat.one_mul, hlast,
    startsBetween]
  cases hstart : passStarts steps c n <;> simp [hstart]

theorem startsBetween_add (hij : i ≤ j) (hjn : j ≤ n) :
    startsBetween steps c i n = startsBetween steps c i j + startsBetween steps c j n := by
  induction hjn with
  | refl => simp
  | @step n hjn ih =>
    rw [startsBetween_succ (Nat.le_trans hij hjn), ih, startsBetween_succ hjn, Nat.add_assoc]

/-! ### The balance -/

/-- While no pass of it starts, a cell keeps what there is of it. -/
theorem follows_of_no_start (hij : i ≤ j) (hnone : startsBetween steps c i j = 0) :
    (moment steps i).store.Follows (moment steps j).store c := by
  induction hij with
  | refl => exact .refl _ c
  | @step j hij ih =>
    -- no pass has started before the last move, and none starts in it
    rw [startsBetween_succ hij] at hnone
    rcases follows_or_started steps j c with ⟨hfollows, -⟩ | hstarted
    · exact (ih (by omega)).trans hfollows
    · have hstart : passStarts steps c j = true := hstarted.starts
      rw [hstart] at hnone
      simp at hnone

/-- Without a request a move only starts the pass that the mark tells of. -/
theorem start_add_mark (hq : (stateAt steps n c).scheduler = .queue q)
    (hsame : (stateAt steps (n + 1) c).requests = (stateAt steps n c).requests) :
    (passStarts steps c n).toNat + (stateAt steps (n + 1) c).scheduled.toNat =
      (stateAt steps n c).scheduled.toNat := by
  rcases follows_or_started steps n c with ⟨hfollows, hnot⟩ | hstarted
  · have hmark : (stateAt steps (n + 1) c).scheduled = (stateAt steps n c).scheduled :=
      hfollows.unrequested hsame
    rw [hnot, hmark]
    simp
  · have hstart : passStarts steps c n = true := hstarted.starts
    have hbefore : (stateAt steps n c).scheduled = true := hstarted.scheduled q hq
    have hafter : stateAt steps (n + 1) c = { stateAt steps n c with scheduled := false } :=
      hstarted.state
    rw [hstart, hbefore, hafter]
    rfl

/-- As long as nothing is requested, the passes that start and the mark that is left make up the
mark that was there. -/
theorem starts_add_mark (hjn : j ≤ n) (hhas : (moment steps j).store.Has c)
    (hq : (stateAt steps j c).scheduler = .queue q)
    (hsame : (stateAt steps n c).requests = (stateAt steps j c).requests) :
    startsBetween steps c j n + (stateAt steps n c).scheduled.toNat =
      (stateAt steps j c).scheduled.toNat := by
  induction hjn with
  | refl => simp
  | @step n hjn ih =>
    change (stateAt steps (n + 1) c).requests = _ at hsame
    change startsBetween steps c j (n + 1) + (stateAt steps (n + 1) c).scheduled.toNat = _
    have hearlier : (stateAt steps j c).requests ≤ (stateAt steps n c).requests :=
      (persists steps hjn c).requests
    have hlater : (stateAt steps n c).requests ≤ (stateAt steps (n + 1) c).requests :=
      (persists steps (Nat.le_succ n) c).requests
    have hscheduler : (stateAt steps n c).scheduler = .queue q :=
      ((persists steps hjn c).scheduler hhas).trans hq
    have hmove := start_add_mark hscheduler (by omega)
    have hbefore := ih (by omega)
    rw [startsBetween_succ hjn]
    omega

/-- A cell that is marked has been made. -/
theorem has_of_scheduled (h : (stateAt steps i c).scheduled = true) :
    (moment steps i).store.Has c := by
  by_cases hhas : (moment steps i).store.Has c
  · exact hhas
  · rw [stateAt, cellState_of_not_has hhas] at h
    cases h

/-- A cell that lives at a moment lived before, once it had been made. -/
theorem livesOn_of_le (hjn : j ≤ n) (hhas : (moment steps j).store.Has c)
    (hlives : (moment steps n).store.LivesOn c q) : (moment steps j).store.LivesOn c q := by
  obtain ⟨-, hlive, hscheduler⟩ := hlives
  have hpersists := persists steps hjn c
  refine ⟨hhas, ?_, (hpersists.scheduler hhas).symm.trans hscheduler⟩
  rw [Bool.eq_false_iff] at hlive ⊢
  exact fun hgone => hlive (hpersists.gone hgone)

/-- The queue of a cell has one pass of it if the cell is marked, and else none. -/
theorem count_queue (hlives : (moment steps i).store.LivesOn c q) :
    ((moment steps i).store.queue q).count c = (stateAt steps i c).scheduled.toNat := by
  obtain ⟨hhas, hlive, hscheduler⟩ := hlives
  rw [(sound_moment steps i).orderly.counted c q hhas hlive hscheduler, stateAt]
  cases ((moment steps i).store.cellState c).scheduled <;> rfl

/-- Requests coalesce.  At every moment the queue of a live cell has exactly one pass of it that has
not started if the cell is marked as scheduled, and none if it is not.  Between the starts of two
passes of a cell there is a request.  Requests made while no pass starts, however many, are one pass
on the queue, and as long as there are no more of them either that pass has started, and no other,
or it is still there. -/
theorem passes_coalesce (steps : List Step) (c : CellRef) (q : QueueRef) :
    (∀ i, (moment steps i).store.LivesOn c q →
      ((moment steps i).store.queue q).count c =
        if (stateAt steps i c).scheduled then 1 else 0) ∧
    (∀ i n, i < n → passStarts steps c i = true → passStarts steps c n = true →
      (stateAt steps n c).scheduler = .queue q →
        (stateAt steps (i + 1) c).requests < (stateAt steps n c).requests) ∧
    (∀ i j n, i ≤ j → j ≤ n → (moment steps n).store.LivesOn c q →
      startsBetween steps c i j = 0 →
      (stateAt steps i c).requests < (stateAt steps j c).requests →
      (stateAt steps n c).requests = (stateAt steps j c).requests →
        ((moment steps j).store.queue q).count c = 1 ∧
          startsBetween steps c i n + ((moment steps n).store.queue q).count c = 1) := by
  refine ⟨?_, ?_, ?_⟩
  · intro i hlives
    rw [count_queue hlives]
    cases (stateAt steps i c).scheduled <;> rfl
  · intro i n hin hstart hnext hscheduler
    -- else the mark, which the first start took, would not be there for the second to take
    have hfirst := started_of_passStarts steps hstart
    have hsecond := started_of_passStarts steps hnext
    have hpersists := persists steps (Nat.succ_le_of_lt hin) c
    have hhas : (moment steps (i + 1)).store.Has c := hfirst.persists.has hfirst.has
    refine Nat.lt_of_le_of_ne hpersists.requests fun hsame => ?_
    have hbalance := starts_add_mark (Nat.succ_le_of_lt hin) hhas
      ((hpersists.scheduler hhas).symm.trans hscheduler) hsame.symm
    have hmark : (stateAt steps n c).scheduled = true := hsecond.scheduled q hscheduler
    have htaken : stateAt steps (i + 1) c = { stateAt steps i c with scheduled := false } :=
      hfirst.state
    rw [hmark, htaken] at hbalance
    simp at hbalance
  · intro i j n hij hjn hlives hnone hrequested hsame
    have hmark : (stateAt steps j c).scheduled = true :=
      (follows_of_no_start hij hnone).requested hrequested
    have hhas := has_of_scheduled hmark
    have hlivesj := livesOn_of_le hjn hhas hlives
    -- from there on the mark, or the start that has taken it, is all there is
    have hbalance := starts_add_mark hjn hhas hlivesj.2.2 hsame
    rw [hmark] at hbalance
    refine ⟨?_, ?_⟩
    · rw [count_queue hlivesj, hmark]
      rfl
    · rw [count_queue hlives, startsBetween_add hij hjn, hnone, Nat.zero_add]
      exact hbalance

/-- A host that requests two passes of a cell before it drains the queue, then one more. -/
def twoBatches : List Step := [
  .act (.newCell "c" (.number 0) .standard),
  .act (.onCell "c" .trigger),
  .act (.onCell "c" .trigger),
  .drain none,
  .act (.onCell "c" .trigger),
  .drain none]

/-- The two requests of the first batch are one pass, and the request of the second lies between the
two starts. -/
theorem twoBatches_coalesce :
    ((moment twoBatches 3).store.queue defaultQueue).count ⟨0⟩ = 1 ∧
      startsBetween twoBatches ⟨0⟩ 1 6 +
        ((moment twoBatches 6).store.queue defaultQueue).count ⟨0⟩ = 1 ∧
      (stateAt twoBatches 5 ⟨0⟩).requests < (stateAt twoBatches 9 ⟨0⟩).requests := by
  obtain ⟨-, hbetween, hone⟩ := passes_coalesce twoBatches ⟨0⟩ defaultQueue
  obtain ⟨hqueued, hstarted⟩ := hone 1 3 6 (by decide) (by decide) (by decide) (by decide)
    (by decide) (by decide)
  exact ⟨hqueued, hstarted, hbetween 4 9 (by decide) (by decide) (by decide) (by decide)⟩

end LiveMarkup
