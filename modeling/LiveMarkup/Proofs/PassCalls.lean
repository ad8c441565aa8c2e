import LiveMarkup.Proofs.Run

/-!
# What a pass calls

A pass walks the subscribers that its cell had when it started.  Whatever the callbacks do
meanwhile, those whose turn has come and those still waiting are that list, and the pass calls those
that are subscribed when their turn comes.

While a pass is under way more is under way than when it started, and the pass is innermost when
exactly one thing more is.

## Main definitions

* `Machine.turn?`, `turns` — whose turn comes in a move, and the turns of a pass in order.
* `callsIn`, `callsOfPass` — the callbacks that a move calls, and those that a pass calls itself.

## Main results

* `pass_progress` — how far a pass has come at any moment.
* `pass_calls_the_still_subscribed` — what one pass calls.
-/

namespace LiveMarkup

open Store

/-- The callback whose turn comes in the next move, in the pass of a cell that is innermost over so
many other activities. -/
def Machine.turn? (m : Machine) (c : CellRef) (below : Nat) : Option CallbackRef :=
  match m.stack with
  | .pass d (k :: _) :: rest => if d = c ∧ rest.length = below then some k else none
  | _ => none

/-- The name of the callback, if the event is a call. -/
def Event.called? : Event → Option String
  | .call name => some name
  | _ => none

/-- The moments after one and before another. -/
def momentsBetween (p n : Nat) : List Nat := List.range' (p + 1) (n - (p + 1))

/-- The turns of the pass that starts in the move after moment `p`, up to moment `n`: when they
come, and whose they are. -/
def turns (steps : List Step) (c : CellRef) (p n : Nat) : List (Nat × CallbackRef) :=
  (momentsBetween p n).filterMap fun j =>
    ((moment steps j).turn? c (height steps p)).map fun k => (j, k)

/-- The names of the callbacks that are called in the move after a moment. -/
def callsIn (steps : List Step) (j : Nat) : List String :=
  ((moment steps (j + 1)).log.drop (moment steps j).log.length).filterMap Event.called?

/-- The names of the callbacks that the pass which starts in the move after moment `p` calls itself,
up to moment `n`: those called in the moves that are made while it is innermost. -/
def callsOfPass (steps : List Step) (p n : Nat) : List String :=
  (momentsBetween p n).flatMap fun j =>
    if height steps j = height steps p + 1 then callsIn steps j else []

/-- Whether the callback of a turn is subscribed when the turn comes. -/
def stillSubscribed (steps : List Step) (c : CellRef) (turn : Nat × CallbackRef) : Bool :=
  (moment steps turn.1).store.isSubscribed c turn.2

/-- The name of the callback of a turn. -/
def nameOf (steps : List Step) (turn : Nat × CallbackRef) : String :=
  (moment steps turn.1).session.callbackName turn.2

variable {steps : List Step} {c : CellRef} {p n : Nat} {waiting : List CallbackRef}
  {below : List Activity}

theorem momentsBetween_succ (h : p < n) : momentsBetween p (n + 1) = momentsBetween p n ++ [n] := by
  have hlength : n + 1 - (p + 1) = n - (p + 1) + 1 := by omega
  have hlast : p + 1 + (n - (p + 1)) = n := by omega
  rw [momentsBetween, hlength, List.range'_concat, Nat.one_mul, hlast, momentsBetween]

theorem momentsBetween_first (p : Nat) : momentsBetween p (p + 1) = [] := by
  simp [momentsBetween]

theorem turns_succ (h : p < n) :
    turns steps c p (n + 1) = turns steps c p n ++
      (((moment steps n).turn? c (height steps p)).map fun k => (n, k)).toList := by
  rw [turns, momentsBetween_succ h, List.filterMap_append, turns]
  cases hturn : (moment steps n).turn? c (height steps p) <;> simp [hturn]

theorem callsOfPass_succ (h : p < n) :
    callsOfPass steps p (n + 1) = callsOfPass steps p n ++
      if height steps n = height steps p + 1 then callsIn steps n else [] := by
  rw [callsOfPass, momentsBetween_succ h, List.flatMap_append, callsOfPass]
  simp

/-- How far a pass has come: who has had a turn and who is waiting, and what it has called. -/
structure PassProgress (steps : List Step) (c : CellRef) (p n : Nat)
    (waiting : List CallbackRef) : Prop where
  turned : (turns steps c p n).map Prod.snd ++ waiting = (stateAt steps p c).subscribers
  called : callsOfPass steps p n =
    ((turns steps c p n).filter (stillSubscribed steps c)).map (nameOf steps)

/-- A pass is under way over other activities. -/
def UnderWay (m : Machine) (c : CellRef) (waiting : List CallbackRef) (below : List Activity) :
    Prop :=
  ∃ above, m.stack = above ++ .pass c waiting :: below

/-- Something that is under way has a next move. -/
theorem moves_of_stack {a : Activity} {rest : List Activity}
    (hstack : (moment steps n).stack = a :: rest) :
    (moment steps n).Move (moment steps (n + 1)) := by
  rcases moment_succ steps n with ⟨hnone, -⟩ | hmove
  · rw [Machine.move, hstack] at hnone
    cases hnone
  · exact (sound_moment steps n).moves hmove

theorem callsIn_of_log {events : List Event}
    (hlog : (moment steps (n + 1)).log = (moment steps n).log ++ events) :
    callsIn steps n = events.filterMap Event.called? := by
  rw [callsIn, hlog, List.drop_left]

theorem turn?_of_pass {m : Machine} {k : CallbackRef}
    (hstack : m.stack = .pass c (k :: waiting) :: below) : m.turn? c below.length = some k := by
  simp [Machine.turn?, hstack]

/-- Nobody has a turn in a pass that is not innermost. -/
theorem turn?_of_length_ne {m : Machine} {height : Nat} (h : m.stack.length ≠ height + 1) :
    m.turn? c height = none := by
  unfold Machine.turn?
  split
  · next d k others rest hstack =>
    rw [hstack, List.length_cons] at h
    exact if_neg fun hpass => h (by rw [hpass.2])
  · rfl

/-- Nobody has a turn in a pass in which nobody is waiting. -/
theorem turn?_of_nobody {m : Machine} {height : Nat} (hstack : m.stack = .pass c [] :: below) :
    m.turn? c height = none := by
  rw [Machine.turn?, hstack]

theorem progress_of_no_turn (hpn : p < n) (hprogress : PassProgress steps c p n waiting)
    (hturn : (moment steps n).turn? c (height steps p) = none)
    (hcalls : height steps n = height steps p + 1 → callsIn steps n = []) :
    PassProgress steps c p (n + 1) waiting := by
  have hsame : turns steps c p (n + 1) = turns steps c p n := by
    rw [turns_succ hpn, hturn]
    exact List.append_nil _
  refine ⟨hsame ▸ hprogress.turned, ?_⟩
  rw [callsOfPass_succ hpn, hsame, hprogress.called]
  split
  · next hheight => rw [hcalls hheight, List.append_nil]
  · exact List.append_nil _

/-- A move of what is under way above a pass leaves the pass where it is. -/
theorem progress_above {a : Activity} {above : List Activity} (hpn : p < n)
    (hbelow : below.length = height steps p)
    (hstack : (moment steps n).stack = a :: (above ++ .pass c waiting :: below))
    (hprogress : PassProgress steps c p n waiting) :
    PassProgress steps c p (n + 1) waiting ∧ UnderWay (moment steps (n + 1)) c waiting below := by
  have hheight : (moment steps n).stack.length ≠ height steps p + 1 := by
    rw [hstack, List.length_cons, List.length_append, List.length_cons, hbelow]
    omega
  refine ⟨progress_of_no_turn hpn hprogress (turn?_of_length_ne hheight) fun h =>
    absurd h hheight, ?_⟩
  obtain ⟨next, hnext⟩ := (moves_of_stack hstack).keeps_below hstack
  exact ⟨next ++ above, by rw [hnext, List.append_assoc]⟩

/-- A turn takes the first waiting subscriber, and calls it if it is still subscribed. -/
theorem progress_turn {k : CallbackRef} (hpn : p < n) (hbelow : below.length = height steps p)
    (hstack : (moment steps n).stack = .pass c (k :: waiting) :: below)
    (hprogress : PassProgress steps c p n (k :: waiting)) :
    PassProgress steps c p (n + 1) waiting ∧ UnderWay (moment steps (n + 1)) c waiting below := by
  obtain ⟨⟨next, hnext⟩, hlog⟩ := (moves_of_stack hstack).of_turn hstack
  -- nothing is above the pass, so it makes this move itself
  have hheight : height steps n = height steps p + 1 := by
    rw [height, hstack, List.length_cons, hbelow]
  have hturns : turns steps c p (n + 1) = turns steps c p n ++ [(n, k)] := by
    rw [turns_succ hpn, ← hbelow, turn?_of_pass hstack]
    rfl
  refine ⟨⟨?_, ?_⟩, next, hnext⟩
  · rw [hturns, List.map_append, List.append_assoc]
    exact hprogress.turned
  · rw [callsOfPass_succ hpn, if_pos hheight, hturns, List.filter_append, List.map_append,
      hprogress.called, callsIn_of_log hlog]
    congr 1
    by_cases hsubscribed : (moment steps n).store.isSubscribed c k
    · have hstill : stillSubscribed steps c (n, k) = true := hsubscribed
      rw [if_pos hsubscribed, List.filter_cons_of_pos hstill]
      rfl
    · have hstill : ¬stillSubscribed steps c (n, k) = true := hsubscribed
      rw [if_neg hsubscribed, List.filter_cons_of_neg hstill]
      rfl

/-- A pass in which nobody is waiting ends and calls nobody. -/
theorem progress_finish (hpn : p < n) (hstack : (moment steps n).stack = .pass c [] :: below)
    (hprogress : PassProgress steps c p n []) :
    PassProgress steps c p (n + 1) [] ∧ (moment steps (n + 1)).stack = below := by
  obtain ⟨hnext, notices, hlog⟩ := (moves_of_stack hstack).of_finish hstack
  refine ⟨progress_of_no_turn hpn hprogress (turn?_of_nobody hstack) fun _ => ?_, hnext⟩
  rw [callsIn_of_log hlog, List.filterMap_map]
  exact List.filterMap_eq_nil_iff.2 fun _ _ => rfl

/-- What is so when a pass has started. -/
theorem progress_start (steps : List Step) (c : CellRef) (p : Nat) :
    PassProgress steps c p (p + 1) (stateAt steps p c).subscribers where
  turned := by
    rw [turns, momentsBetween_first]
    rfl
  called := by
    rw [callsOfPass, turns, momentsBetween_first]
    rfl

/-- How far a pass has come at any moment until it has ended. -/
theorem pass_progress (hstart : passStarts steps c p = true) (hpn : p < n)
    (hway : ∀ j, p < j → j < n → height steps p < height steps j) :
    ∃ waiting below, below.length = height steps p ∧ PassProgress steps c p n waiting ∧
      (UnderWay (moment steps n) c waiting below ∨
        waiting = [] ∧ (moment steps n).stack = below) := by
  obtain ⟨below, hfirst, hbelow⟩ := (started_of_passStarts steps hstart).stack
  suffices h : ∃ waiting, PassProgress steps c p n waiting ∧
      (UnderWay (moment steps n) c waiting below ∨
        waiting = [] ∧ (moment steps n).stack = below) by
    obtain ⟨waiting, hprogress, hstack⟩ := h
    exact ⟨waiting, below, hbelow, hprogress, hstack⟩
  induction hpn with
  | refl => exact ⟨_, progress_start steps c p, .inl ⟨[], hfirst⟩⟩
  | @step n hpn ih =>
    obtain ⟨waiting, hprogress, ⟨above, hstack⟩ | ⟨-, hstack⟩⟩ :=
      ih fun j hpj hjn => hway j hpj (Nat.lt_succ_of_lt hjn)
    · -- what is innermost decides what the move does
      cases above with
      | cons a above =>
        obtain ⟨hnext, hunder⟩ := progress_above hpn hbelow hstack hprogress
        exact ⟨waiting, hnext, .inl hunder⟩
      | nil =>
        cases waiting with
        | nil =>
          obtain ⟨hnext, hended⟩ := progress_finish hpn hstack hprogress
          exact ⟨[], hnext, .inr ⟨rfl, hended⟩⟩
        | cons k waiting =>
          obtain ⟨hnext, hunder⟩ := progress_turn hpn hbelow hstack hprogress
          exact ⟨waiting, hnext, .inl hunder⟩
    · -- it has not ended yet
      have hmore := hway n hpn (Nat.lt_succ_self n)
      rw [height, height, hstack, hbelow] at hmore
      exact absurd hmore (Nat.lt_irrefl _)

/-- What one pass calls.  The turns of a pass come in the order of the subscribers that its cell had
when it started, each of which is there once; all have had their turn when it ends.  It calls, in
that order, exactly those that are subscribed when their turn comes, and nobody else. -/
theorem pass_calls_the_still_subscribed (steps : List Step) (c : CellRef) (p n : Nat)
    (hstart : passStarts steps c p = true) (hpn : p < n)
    (hway : ∀ j, p < j → j < n → height steps p < height steps j) :
    (stateAt steps p c).subscribers.Nodup ∧
      (∃ waiting, (turns steps c p n).map Prod.snd ++ waiting = (stateAt steps p c).subscribers ∧
        (height steps n ≤ height steps p → waiting = [])) ∧
      callsOfPass steps p n =
        ((turns steps c p n).filter (stillSubscribed steps c)).map (nameOf steps) := by
  obtain ⟨waiting, below, hbelow, hprogress, hstack⟩ := pass_progress hstart hpn hway
  refine ⟨(sound_moment steps p).enlisted.distinct c, ⟨waiting, hprogress.turned, fun hended => ?_⟩,
    hprogress.called⟩
  rcases hstack with ⟨above, hstack⟩ | ⟨hnobody, -⟩
  · -- it is still under way
    rw [height, hstack, List.length_append, List.length_cons, hbelow] at hended
    omega
  · exact hnobody

/-- A host with two subscribers of a cell, of which the first takes the second out. -/
def farewell : List Step := [
  .act (.newCell "c" (.number 0) .standard),
  .callback "f" [.act (.unsubscribe "second")] 1,
  .callback "g" [] 0,
  .act (.onCell "c" (.subscribe "f" "first")),
  .act (.onCell "c" (.subscribe "g" "second")),
  .act (.onCell "c" .trigger),
  .drain none]

/-- Both have a turn, and only the first is called. -/
theorem farewell_calls_the_first :
    turns farewell ⟨0⟩ 7 13 = [(8, ⟨0⟩), (11, ⟨1⟩)] ∧
      callsOfPass farewell 7 13 =
        ((turns farewell ⟨0⟩ 7 13).filter (stillSubscribed farewell ⟨0⟩)).map (nameOf farewell) ∧
      callsOfPass farewell 7 13 = ["f"] := by
  have hway : ∀ j, j < 13 → 7 < j → height farewell 7 < height farewell j := by decide
  obtain ⟨-, -, hcalls⟩ := pass_calls_the_still_subscribed farewell ⟨0⟩ 7 13 (by decide)
    (by decide) fun j hpj hjn => hway j hjn hpj
  exact ⟨by decide, hcalls, by decide⟩

end LiveMarkup
