import Mathlib.Algebra.Ring.Nat
import LiveMarkup.Proofs.PassCalls

/-!
# Drains within drains

A drain takes passes from its queue until it finds none.  The callbacks of a pass that it has
started may request passes on the same queue and may drain it themselves, to any depth; the drains
under way then take turns, the innermost first.

Two balances hold between any two moments of any run, however the drains are nested.  What was on
the queue, followed by what is put on it, is what is taken from it, followed by what is left.  And
what the drains under way have counted, with what is taken, is what the drains under way count
later, with what those that have returned meanwhile report.

## Main definitions

* `Machine.taken?`, `Machine.placed`, `Machine.reported?` — what a move does to a queue and its
  drains.
* `Machine.counting` — what the drains under way have counted.
* `passesTaken`, `passesPlaced`, `countsReported` — the same, for all moves between two moments.

## Main results

* `queue_balance`, `count_balance` — the two balances.
* `drain_takes_all_in_order` — what is so when a drain returns.
-/

namespace LiveMarkup

open Store

/-! ### Queues grow at the end -/

namespace Store

variable {s t : Store} {n : Nat}

/-- A change leaves a queue as it is or puts passes behind those that are there. -/
theorem queue_extends_apply (s : Store) (x : Change) (q : QueueRef) :
    s.queue q <+: (s.apply x).queue q := by
  have htrigger : ∀ (s : Store) c, s.queue q <+: (s.trigger c).queue q := by
    intro s c
    rw [queue_trigger]
    split
    · exact List.prefix_append _ _
    · exact List.prefix_rfl
  by_cases hquiet : x.IsQuiet
  · have hsame : (s.apply x).queue q = s.queue q := by
      rw [queue, queue, (s.quiet_apply hquiet).queues]
    exact hsame ▸ List.prefix_rfl
  · cases x
    case newCell held scheduler => exact List.prefix_rfl
    case newQueue =>
      have hsame : (s.apply .newQueue).queue q = s.queue q := s.queue_newQueue q
      exact hsame ▸ List.prefix_rfl
    case trigger c => exact htrigger s c
    case write c v => exact htrigger (s.commit c v) c
    all_goals exact absurd trivial hquiet

theorem Hosts.queue_extends (h : s.Hosts n t) (q : QueueRef) : s.queue q <+: t.queue q :=
  Leads.relates (R := fun s t => s.queue q <+: t.queue q) h (fun _ => List.prefix_rfl)
    (fun _ _ _ => List.IsPrefix.trans) fun s x _ => s.queue_extends_apply x q

end Store

/-- The passes that an activity has counted, if it drains the queue. -/
def Activity.counted (q : QueueRef) : Activity → Nat
  | .drain r k => if r = q then k else 0
  | _ => 0

namespace Machine

variable {m m' : Machine} {rest : List Activity} {q r : QueueRef} {k : Nat}

/-! ### One move -/

/-- The pass that a drain of the queue takes from it in the next move. -/
def taken? (m : Machine) (q : QueueRef) : Option CellRef :=
  match m.stack with
  | .drain r _ :: _ => if r = q then (m.store.queue q).head? else none
  | _ => none

/-- The count that a drain of the queue reports in the next move, in which it returns. -/
def reported? (m : Machine) (q : QueueRef) : Option Nat :=
  match m.stack with
  | .drain r k :: _ => if r = q ∧ m.store.queue q = [] then some k else none
  | _ => none

/-- What the next move leaves of the queue as it is. -/
def left (m : Machine) (q : QueueRef) : List CellRef :=
  (m.store.queue q).drop (m.taken? q).toList.length

/-- The passes that a move puts on the queue: those behind what it leaves of it. -/
def placed (m m' : Machine) (q : QueueRef) : List CellRef :=
  (m'.store.queue q).drop (m.left q).length

/-- The passes that the drains of the queue that are under way have counted. -/
def counting (m : Machine) (q : QueueRef) : Nat := (m.stack.map (Activity.counted q)).sum

/-- Whether a drain is innermost. -/
def Draining (m : Machine) : Prop := ∃ r k rest, m.stack = .drain r k :: rest

theorem taken?_of_drain (hstack : m.stack = .drain r k :: rest) (q : QueueRef) :
    m.taken? q = if r = q then (m.store.queue q).head? else none := by
  rw [taken?, hstack]

theorem reported?_of_drain (hstack : m.stack = .drain r k :: rest) (q : QueueRef) :
    m.reported? q = if r = q ∧ m.store.queue q = [] then some k else none := by
  rw [reported?, hstack]

theorem taken?_of_not_draining (h : ¬m.Draining) (q : QueueRef) : m.taken? q = none := by
  unfold taken?
  split
  · next r k rest hstack => exact absurd ⟨r, k, rest, hstack⟩ h
  · rfl

theorem reported?_of_not_draining (h : ¬m.Draining) (q : QueueRef) : m.reported? q = none := by
  unfold reported?
  split
  · next r k rest hstack => exact absurd ⟨r, k, rest, hstack⟩ h
  · rfl

theorem counting_of_stack {a : Activity} (hstack : m.stack = a :: rest) (q : QueueRef) :
    m.counting q = a.counted q + (rest.map (Activity.counted q)).sum := by
  rw [counting, hstack, List.map_cons, List.sum_cons]

/-- What is taken is the first of the queue. -/
theorem taken_append_left (m : Machine) (q : QueueRef) :
    (m.taken? q).toList ++ m.left q = m.store.queue q := by
  have hhead : m.taken? q = none ∨ m.taken? q = (m.store.queue q).head? := by
    unfold taken?
    split
    · split
      · exact .inr rfl
      · exact .inl rfl
    · exact .inl rfl
  rw [left]
  rcases hhead with h | h
  · rw [h]
    rfl
  · rw [h]
    cases m.store.queue q <;> rfl

/-! ### The moves of a drain -/

/-- A machine of which a drain has taken a pass from its queue and counted it, over what is under
way below the drain. -/
def afterTaking (m : Machine) (rest : List Activity) (r : QueueRef) (k : Nat)
    (others : List CellRef) : Machine :=
  ({ m with stack := rest }.onStore fun store => store.modifyQueue r fun _ => others).push
    (.drain r (k + 1))

/-- What a drain does that is innermost: it returns and reports what it has counted if it finds
nothing on its queue, and else takes the first pass from it, counts it and starts it. -/
theorem drain_moves (hstack : m.stack = .drain r k :: rest) (h : m.move = some m') :
    (m.store.queue r = [] ∧ m' = { m with stack := rest }.answer (.count k)) ∨
      ∃ c others, m.store.queue r = c :: others ∧
        m' = (m.afterTaking rest r k others).startPass c := by
  have hadvance : m' = { m with stack := rest }.advance (.drain r k) := by
    rw [move, hstack] at h
    exact (Option.some.inj h).symm
  have hqueue : { m with stack := rest }.store.queue r = m.store.queue r := rfl
  cases hq : m.store.queue r with
  | nil =>
    rw [hq] at hqueue
    simp only [advance, hqueue] at hadvance
    exact .inl ⟨rfl, hadvance⟩
  | cons c others =>
    rw [hq] at hqueue
    simp only [advance, hqueue] at hadvance
    exact .inr ⟨c, others, rfl, hadvance⟩

theorem queue_startPass (m : Machine) (c : CellRef) (q : QueueRef) :
    (m.startPass c).store.queue q = m.store.queue q := by
  unfold startPass
  split <;> rfl

theorem stack_startPass (m : Machine) (c : CellRef) :
    (m.startPass c).stack =
      if m.store.isGone (.cell c) then m.stack
      else .pass c (m.store.cellState c).subscribers :: m.stack := by
  unfold startPass
  split <;> rfl

theorem queue_afterTaking {c : CellRef} {others : List CellRef}
    (hqueue : m.store.queue r = c :: others) (q : QueueRef) :
    (m.afterTaking rest r k others).store.queue q =
      if r = q then others else m.store.queue q := by
  -- a queue on which there is something has been made
  have hmade : r.id < m.store.queues.size := Nat.lt_of_not_le fun hout => by
    rw [queue, Array.getD_eq_getD_getElem?, Array.getElem?_eq_none hout] at hqueue
    cases hqueue
  refine (m.store.queue_modifyQueue r q fun _ => others).trans ?_
  by_cases hrq : r = q
  · subst hrq
    rw [if_pos ⟨rfl, hmade⟩, if_pos rfl]
  · rw [if_neg fun h => hrq h.1.symm, if_neg hrq]

/-- What a move that takes nothing leaves of a queue. -/
theorem Move.queue_extends (h : Move m m') (hdraining : ¬m.Draining) (q : QueueRef) :
    m.store.queue q <+: m'.store.queue q := by
  cases h with
  | work a next rest working before after plain session => exact session.store.queue_extends q
  | gather callback steps rest before after session =>
    rw [store, store, session]
    exact List.prefix_rfl
  | turn c k waiting next rest before after plain store session log =>
    exact store ▸ List.prefix_rfl
  | finish c rest before after session log => exact session.store.queue_extends q
  | skip r k c others rest before => exact absurd ⟨r, k, rest, before⟩ hdraining
  | start r k c others rest before => exact absurd ⟨r, k, rest, before⟩ hdraining
  | startSpawned c others started rest before live after session =>
    rw [store, store, session]
    exact List.prefix_rfl

theorem left_extends (hm : m.Sound) (h : m.move = some m') (q : QueueRef) :
    m.left q <+: m'.store.queue q := by
  by_cases hdraining : m.Draining
  · obtain ⟨r, k, rest, hstack⟩ := hdraining
    rw [left, taken?_of_drain hstack]
    rcases drain_moves hstack h with ⟨hqueue, rfl⟩ | ⟨c, others, hqueue, rfl⟩
    · have hkept := (becomes_answer { m with stack := rest } (.count k)).store.queue_extends q
      split
      · next hrq =>
        rw [← hrq, hqueue]
        exact List.nil_prefix
      · exact hkept
    · rw [queue_startPass, queue_afterTaking hqueue]
      split
      · next hrq =>
        rw [← hrq, hqueue]
        exact List.prefix_rfl
      · exact List.prefix_rfl
  · rw [left, taken?_of_not_draining hdraining]
    exact (hm.moves h).queue_extends hdraining q

/-- What was on a queue, followed by what a move puts there, is what the move takes, followed by
what is there then. -/
theorem queue_move (hm : m.Sound) (h : m.move = some m') (q : QueueRef) :
    m.store.queue q ++ m.placed m' q = (m.taken? q).toList ++ m'.store.queue q := by
  have hbehind : m.left q ++ m.placed m' q = m'.store.queue q :=
    List.prefix_iff_eq_append.1 (left_extends hm h q)
  rw [← m.taken_append_left q, List.append_assoc, hbehind]

/-! ### Counting -/

theorem counting_answer (m : Machine) (report : Report) (q : QueueRef) :
    (m.answer report).counting q = m.counting q := by
  rw [counting, counting, stack_answer]

theorem counting_push (m : Machine) (a : Activity) (q : QueueRef) :
    (m.push a).counting q = a.counted q + m.counting q := counting_of_stack rfl q

theorem counting_call (m : Machine) (c : CallbackRef) (q : QueueRef) :
    (m.call c).counting q = m.counting q := by
  unfold call
  split
  · rfl
  · simp only
    split
    · rfl
    · exact Nat.zero_add _

theorem counting_startPass (m : Machine) (c : CellRef) (q : QueueRef) :
    (m.startPass c).counting q = m.counting q := by
  unfold startPass
  split
  · rfl
  · exact Nat.zero_add _

/-- A step that begins a drain has counted nothing yet. -/
theorem counting_begin (m : Machine) (step : Step) (q : QueueRef) :
    (m.begin step).counting q = m.counting q := by
  cases step with
  | act action => exact counting_answer _ _ _
  | callback name steps times => exact counting_answer _ _ _
  | call callback =>
    simp only [begin]
    split
    · exact (counting_call _ _ _).trans (Nat.zero_add _)
    · exact counting_answer _ _ _
  | effect name callback cells =>
    simp only [begin]
    split
    · exact (counting_call _ _ _).trans (Nat.zero_add _)
    · exact counting_answer _ _ _
  | drain queue =>
    refine (counting_push _ _ _).trans ?_
    simp [Activity.counted]
  | tick => exact Nat.zero_add _

/-- Nothing but a drain counts. -/
theorem counting_advance (m : Machine) (a : Activity) (hnot : ∀ r k, a ≠ .drain r k)
    (q : QueueRef) : (m.advance a).counting q = m.counting q := by
  cases a with
  | steps callback steps =>
    cases steps with
    | nil => rfl
    | cons step steps => exact (counting_begin _ _ _).trans (Nat.zero_add _)
  | report r => exact counting_answer _ _ _
  | effect name k cells => exact counting_answer _ _ _
  | pass c waiting =>
    cases waiting with
    | nil => rw [counting, counting, advance, stack_finishPass]
    | cons k waiting =>
      have hpass : (m.push (.pass c waiting)).counting q = m.counting q := Nat.zero_add _
      simp only [advance, callIfSubscribed]
      split
      · exact (counting_call _ _ _).trans hpass
      · exact hpass
  | drain r k => exact absurd rfl (hnot r k)
  | tick tasks started =>
    cases tasks with
    | nil => exact counting_answer _ _ _
    | cons c others => exact (counting_startPass _ _ _).trans (Nat.zero_add _)

/-- What the drains under way have counted, with what a move takes, is what the drains under way
have counted then, with what a drain reports that returns in the move. -/
theorem count_move (h : m.move = some m') (q : QueueRef) :
    m.counting q + (m.taken? q).toList.length =
      m'.counting q + (m.reported? q).toList.sum := by
  by_cases hdraining : m.Draining
  · obtain ⟨r, k, rest, hstack⟩ := hdraining
    rw [counting_of_stack hstack, taken?_of_drain hstack, reported?_of_drain hstack]
    rcases drain_moves hstack h with ⟨hqueue, rfl⟩ | ⟨c, others, hqueue, rfl⟩
    · -- the drain is no longer under way, and reports what it has counted
      rw [counting_answer, counting]
      by_cases hrq : r = q
      · subst hrq
        simp [Activity.counted, hqueue, Nat.add_comm]
      · simp [Activity.counted, hrq]
    · have hrest : (m.afterTaking rest r k others).counting q =
          (Activity.drain r (k + 1)).counted q + (rest.map (Activity.counted q)).sum :=
        counting_of_stack rfl q
      rw [counting_startPass, hrest]
      by_cases hrq : r = q
      · subst hrq
        simp [Activity.counted, hqueue]
        omega
      · simp [Activity.counted, hrq]
  · rw [taken?_of_not_draining hdraining, reported?_of_not_draining hdraining]
    rw [move] at h
    split at h
    · cases h
    · next a rest hstack =>
      have hnot : ∀ r k, a ≠ .drain r k := fun r k ha => hdraining ⟨r, k, rest, ha ▸ hstack⟩
      have hnone : a.counted q = 0 := by
        cases a with
        | drain r k => exact absurd rfl (hnot r k)
        | _ => rfl
      cases h
      rw [counting_advance _ a hnot, counting_of_stack hstack, hnone, Nat.zero_add]
      rfl

end Machine

/-! ### Many moves -/

/-- What all moves from one moment to another add up to. -/
def gathered {α : Type} (f : Nat → List α) (i n : Nat) : List α :=
  (List.range' i (n - i)).flatMap f

/-- The passes that drains of a queue take from it, in order. -/
def passesTaken (steps : List Step) (q : QueueRef) : Nat → Nat → List CellRef :=
  gathered fun j => ((moment steps j).taken? q).toList

/-- The passes that are put on a queue, in order. -/
def passesPlaced (steps : List Step) (q : QueueRef) : Nat → Nat → List CellRef :=
  gathered fun j => (moment steps j).placed (moment steps (j + 1)) q

/-- What the drains of a queue that return report, in order. -/
def countsReported (steps : List Step) (q : QueueRef) : Nat → Nat → List Nat :=
  gathered fun j => ((moment steps j).reported? q).toList

@[simp] theorem gathered_self {α : Type} (f : Nat → List α) (i : Nat) : gathered f i i = [] := by
  simp [gathered]

theorem gathered_succ {α : Type} {f : Nat → List α} {i n : Nat} (h : i ≤ n) :
    gathered f i (n + 1) = gathered f i n ++ f n := by
  have hlength : n + 1 - i = n - i + 1 := by omega
  have hlast : i + (n - i) = n := by omega
  rw [gathered, hlength, List.range'_concat, List.flatMap_append, Nat.one_mul, hlast, gathered,
    List.flatMap_singleton]

variable {steps : List Step} {q : QueueRef} {i n : Nat}

theorem passesTaken_succ (h : i ≤ n) :
    passesTaken steps q i (n + 1) =
      passesTaken steps q i n ++ ((moment steps n).taken? q).toList := gathered_succ h

theorem passesPlaced_succ (h : i ≤ n) :
    passesPlaced steps q i (n + 1) =
      passesPlaced steps q i n ++ (moment steps n).placed (moment steps (n + 1)) q :=
  gathered_succ h

theorem countsReported_succ (h : i ≤ n) :
    countsReported steps q i (n + 1) =
      countsReported steps q i n ++ ((moment steps n).reported? q).toList := gathered_succ h

/-- Once nothing is under way nothing is taken, put there or reported. -/
theorem still_of_no_move (hnone : (moment steps n).move = none)
    (hsame : moment steps (n + 1) = moment steps n) (q : QueueRef) :
    (moment steps n).taken? q = none ∧ (moment steps n).reported? q = none ∧
      (moment steps n).placed (moment steps (n + 1)) q = [] := by
  have hdraining : ¬(moment steps n).Draining := by
    rintro ⟨r, k, rest, hstack⟩
    rw [Machine.move, hstack] at hnone
    cases hnone
  have htaken := Machine.taken?_of_not_draining hdraining q
  refine ⟨htaken, Machine.reported?_of_not_draining hdraining q, ?_⟩
  rw [hsame, Machine.placed, Machine.left, htaken]
  exact List.drop_length

/-- What was on a queue, followed by what is put on it, is what is taken from it, followed by what
is on it then. -/
theorem queue_balance (steps : List Step) (q : QueueRef) (hin : i ≤ n) :
    (moment steps i).store.queue q ++ passesPlaced steps q i n =
      passesTaken steps q i n ++ (moment steps n).store.queue q := by
  induction hin with
  | refl => simp [passesPlaced, passesTaken]
  | @step n hin ih =>
    have hmove : (moment steps n).store.queue q ++
        (moment steps n).placed (moment steps (n + 1)) q =
          ((moment steps n).taken? q).toList ++ (moment steps (n + 1)).store.queue q := by
      rcases moment_succ steps n with ⟨hnone, hsame⟩ | hmove
      · obtain ⟨htaken, -, hplaced⟩ := still_of_no_move hnone hsame q
        rw [htaken, hplaced, hsame, List.append_nil]
        rfl
      · exact Machine.queue_move (sound_moment steps n) hmove q
    rw [passesPlaced_succ hin, passesTaken_succ hin, ← List.append_assoc, ih, List.append_assoc,
      hmove, List.append_assoc]

/-- What the drains of a queue that are under way have counted, with the passes taken, is what those
under way have counted then, with what those report that have returned. -/
theorem count_balance (steps : List Step) (q : QueueRef) (hin : i ≤ n) :
    (moment steps i).counting q + (passesTaken steps q i n).length =
      (moment steps n).counting q + (countsReported steps q i n).sum := by
  induction hin with
  | refl => simp [passesTaken, countsReported]
  | @step n hin ih =>
    have hmove : (moment steps n).counting q + ((moment steps n).taken? q).toList.length =
        (moment steps (n + 1)).counting q + ((moment steps n).reported? q).toList.sum := by
      rcases moment_succ steps n with ⟨hnone, hsame⟩ | hmove
      · obtain ⟨htaken, hreported, -⟩ := still_of_no_move hnone hsame q
        rw [htaken, hreported, hsame]
        rfl
      · exact Machine.count_move hmove q
    rw [Nat.succ_eq_add_one, passesTaken_succ hin, countsReported_succ hin, List.length_append,
      List.sum_append]
    omega

/-! ### From the beginning of a drain to its return -/

theorem Machine.queue_answer (m : Machine) (report : Report) (q : QueueRef) :
    (m.answer report).store.queue q = m.store.queue q := by
  simp only [Machine.answer]
  split <;> rfl

/-- The next moment, when a drain is innermost. -/
theorem move_of_drain {rest : List Activity} {r : QueueRef} {k : Nat}
    (hstack : (moment steps n).stack = .drain r k :: rest) :
    (moment steps n).move = some (moment steps (n + 1)) := by
  rcases moment_succ steps n with ⟨hnone, -⟩ | hmove
  · rw [Machine.move, hstack] at hnone
    cases hnone
  · exact hmove

/-- A pass that is taken from a queue starts, unless its cell is gone. -/
theorem passStarts_of_taken {c : CellRef} (h : (moment steps n).taken? q = some c) :
    passStarts steps c n = !(moment steps n).store.isGone (.cell c) := by
  by_cases hdraining : (moment steps n).Draining
  case neg =>
    rw [Machine.taken?_of_not_draining hdraining] at h
    cases h
  obtain ⟨r, k, rest, hstack⟩ := hdraining
  rw [Machine.taken?_of_drain hstack] at h
  split at h
  case isFalse => cases h
  next hrq =>
    subst hrq
    rcases Machine.drain_moves hstack (move_of_drain hstack) with
      ⟨hqueue, -⟩ | ⟨d, others, hqueue, htake⟩
    · rw [hqueue] at h
      cases h
    · rw [hqueue] at h
      cases h
      -- the taking changes nothing but the queue and the count
      have hgone : ((moment steps n).afterTaking rest r k others).store.isGone (.cell c) =
        (moment steps n).store.isGone (.cell c) := rfl
      rw [passStarts, htake, Machine.starts, Machine.stack_startPass, hgone]
      cases (moment steps n).store.isGone (.cell c) with
      | true => rfl
      | false => simp [Machine.afterTaking, Machine.push, Machine.onStore, hstack]

/-- A drain that reports a count returns: it is no longer under way, and the count is the answer to
whoever began it. -/
theorem returns_of_reported {k : Nat} (h : (moment steps n).reported? q = some k) :
    ∃ rest, (moment steps n).stack = .drain q k :: rest ∧
      moment steps (n + 1) = { moment steps n with stack := rest }.answer (.count k) := by
  by_cases hdraining : (moment steps n).Draining
  case neg =>
    rw [Machine.reported?_of_not_draining hdraining] at h
    cases h
  obtain ⟨r, l, rest, hstack⟩ := hdraining
  rw [Machine.reported?_of_drain hstack] at h
  split at h
  case isFalse => cases h
  next hreturns =>
    obtain ⟨rfl, hnothing⟩ := hreturns
    cases h
    refine ⟨rest, hstack, ?_⟩
    rcases Machine.drain_moves hstack (move_of_drain hstack) with
      ⟨-, hreturn⟩ | ⟨d, others, hqueue, -⟩
    · exact hreturn
    · rw [hnothing] at hqueue
      cases hqueue

/-- A drain that has begun is under way over what was under way then, or has returned, having found
nothing on its queue. -/
theorem drain_under_way {below : List Activity}
    (hbegun : (moment steps i).stack = .drain q 0 :: below) (hin : i ≤ n)
    (hway : ∀ j, i ≤ j → j < n → below.length < height steps j) :
    (∃ above k, (moment steps n).stack = above ++ .drain q k :: below) ∨
      ((moment steps n).stack = below ∧ (moment steps n).store.queue q = []) := by
  induction hin with
  | refl => exact .inl ⟨[], 0, hbegun⟩
  | @step n hin ih =>
    rcases ih fun j hij hjn => hway j hij (Nat.lt_succ_of_lt hjn) with
      ⟨above, k, hstack⟩ | ⟨hstack, -⟩
    · cases above with
      | cons a above =>
        -- what is above the drain makes the move
        obtain ⟨next, hnext⟩ := (moves_of_stack hstack).keeps_below hstack
        exact .inl ⟨next ++ above, k, hnext.trans (List.append_assoc _ _ _).symm⟩
      | nil =>
        rcases Machine.drain_moves hstack (move_of_drain hstack) with
          ⟨hqueue, hreturn⟩ | ⟨c, others, -, htake⟩
        · refine .inr ⟨?_, ?_⟩
          · rw [Nat.succ_eq_add_one, hreturn, Machine.stack_answer]
          · rw [Nat.succ_eq_add_one, hreturn, Machine.queue_answer]
            exact hqueue
        · rw [Nat.succ_eq_add_one, htake, Machine.stack_startPass]
          split
          · exact .inl ⟨[], k + 1, rfl⟩
          · exact .inl ⟨[.pass c _], k + 1, rfl⟩
    · -- it has not returned yet
      have hmore := hway n hin (Nat.lt_succ_self n)
      rw [height, hstack] at hmore
      exact absurd hmore (Nat.lt_irrefl _)

theorem counting_of_none {m : Machine} (h : ∀ k, .drain q k ∉ m.stack) : m.counting q = 0 := by
  refine List.sum_eq_zero_iff_forall_eq_nat.2 fun count hcount => ?_
  obtain ⟨a, ha, rfl⟩ := List.mem_map.1 hcount
  cases a with
  | drain r k => exact if_neg fun hrq : r = q => h k (hrq ▸ ha)
  | _ => rfl

/-- Whatever the callbacks of the passes do, those that drains have started within drains among
them, this is so when a drain of a queue returns.  The queue is empty.  The passes that have been
taken from it since the drain began are those that were on it and those that have been put on it
meanwhile, each as often as it was there, in that order; and those that have ever been taken from it
are those that have ever been put on it.  The counts that the drain and the drains within it have
reported add up to how many have been taken since it began, and, if it was the outermost, those that
have ever been reported add up to how many have ever been taken.

A pass that is taken starts in the same move, if its cell is not gone; a count that is reported is
the answer to the step that began the drain. -/
theorem drain_takes_all_in_order (steps : List Step) (q : QueueRef) (i n : Nat)
    (below : List Activity) (hbegun : (moment steps i).stack = .drain q 0 :: below) (hin : i < n)
    (hway : ∀ j, i ≤ j → j < n → below.length < height steps j)
    (hended : height steps n ≤ below.length) :
    (moment steps n).store.queue q = [] ∧
      passesTaken steps q i n =
        (moment steps i).store.queue q ++ passesPlaced steps q i n ∧
      passesTaken steps q 0 n = passesPlaced steps q 0 n ∧
      (countsReported steps q i n).sum = (passesTaken steps q i n).length ∧
      ((∀ k, .drain q k ∉ below) →
        (countsReported steps q 0 n).sum = (passesTaken steps q 0 n).length) ∧
      (∀ j c, (moment steps j).taken? q = some c →
        passStarts steps c j = !(moment steps j).store.isGone (.cell c)) ∧
      ∀ j k, (moment steps j).reported? q = some k → ∃ rest,
        (moment steps j).stack = .drain q k :: rest ∧
          moment steps (j + 1) = { moment steps j with stack := rest }.answer (.count k) := by
  rcases drain_under_way hbegun (Nat.le_of_lt hin) hway with ⟨above, k, hstack⟩ | ⟨hstack, hempty⟩
  · -- it is still under way
    rw [height, hstack, List.length_append, List.length_cons] at hended
    omega
  have hfirst : (moment steps 0).store.queue q = [] := by
    rcases q with ⟨_ | _⟩ <;> rfl
  have hsince := queue_balance steps q (Nat.le_of_lt hin)
  have hever := queue_balance steps q (Nat.zero_le n)
  have hcounted := count_balance steps q (Nat.le_of_lt hin)
  have hallCounted := count_balance steps q (Nat.zero_le n)
  have hbelow : (moment steps i).counting q = (moment steps n).counting q := by
    rw [Machine.counting_of_stack hbegun, Machine.counting, hstack]
    simp [Activity.counted]
  rw [hempty, List.append_nil] at hsince hever
  rw [hfirst, List.nil_append] at hever
  refine ⟨hempty, hsince.symm, hever.symm, by omega, fun houtermost => ?_,
    fun _ _ => passStarts_of_taken, fun _ _ => returns_of_reported⟩
  have hnow : (moment steps n).counting q = 0 := counting_of_none (hstack ▸ houtermost)
  have hthen : (moment steps 0).counting q = 0 := rfl
  omega

/-- A host with three cells.  It requests passes of the first and the last.  The subscriber of the
first requests a pass of the second and drains the queue from inside the pass of the first. -/
def nestedDrains : List Step := [
  .act (.newCell "c" (.number 0) .standard),
  .act (.newCell "d" (.number 0) .standard),
  .act (.newCell "e" (.number 0) .standard),
  .callback "f" [.act (.onCell "d" .trigger), .drain none] 1,
  .act (.onCell "c" (.subscribe "f" "s")),
  .act (.onCell "c" .trigger),
  .act (.onCell "e" .trigger),
  .drain none]

/-- The drain within takes two passes, that of the last cell first. -/
theorem nestedDrains_take_all_in_order :
    passesTaken nestedDrains defaultQueue 8 20 = [⟨0⟩, ⟨2⟩, ⟨1⟩] ∧
      passesTaken nestedDrains defaultQueue 8 20 =
        (moment nestedDrains 8).store.queue defaultQueue ++
          passesPlaced nestedDrains defaultQueue 8 20 ∧
      countsReported nestedDrains defaultQueue 8 20 = [2, 1] ∧
      (countsReported nestedDrains defaultQueue 8 20).sum =
        (passesTaken nestedDrains defaultQueue 8 20).length := by
  have hway : ∀ j, j < 20 → 8 ≤ j → 1 < height nestedDrains j := by
    decide +kernel
  have hended : height nestedDrains 20 ≤ 1 := by decide
  obtain ⟨-, horder, -, hcounts, -⟩ := drain_takes_all_in_order nestedDrains defaultQueue 8 20
    [.steps none []] rfl (by decide) (fun j hij hjn => hway j hjn hij) hended
  exact ⟨by decide, horder, by decide, hcounts⟩

end LiveMarkup
