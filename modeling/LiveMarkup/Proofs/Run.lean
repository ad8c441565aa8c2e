import LiveMarkup.Proofs.Move

/-!
# Runs

A run of the machine is looked at between its moves.  From one moment to the next a cell either
keeps its mark and gets further requests, or a pass of it starts, which takes the mark and nothing
else.

## Main definitions

* `Machine.starts` — whether a pass of a cell starts in a move.
* `Machine.Started` — what the start of a pass does.
* `moment` — the machine after so many moves, when a new session does the steps.
* `passStarts` — whether a pass of a cell starts in the move after a moment.

## Main results

* `Machine.Sound.move` — a sound machine stays sound.
* `Machine.Move.follows_or_started` — what a move does to a cell.
* `sound_moment` — the machine is sound at every moment.
-/

namespace LiveMarkup

open Store

namespace Machine

variable {m m' : Machine} {c : CellRef}

/-! ### One move -/

/-- What is known in a session stays known when activities that are known come on top. -/
theorem known_of_work {s : Session} {next rest : List Activity} (hnext : ∀ b ∈ next, b.IsWork s)
    (hrest : ∀ b ∈ rest, b.Known s) : ∀ b ∈ next ++ rest, b.Known s := by
  intro b hb
  rcases List.mem_append.1 hb with hb | hb
  · have hwork := hnext b hb
    cases b
    case pass => exact hwork.elim
    all_goals exact hwork
  · exact hrest b hb

/-- A session that becomes another keeps a machine sound. -/
theorem Sound.becomes (hm : m.Sound) (hsession : m.session.Becomes m'.session)
    (hknown : ∀ a ∈ m'.stack, a.Known m'.session) : m'.Sound where
  session := hsession.sound hm.session
  orderly := hsession.store.orderly hm.orderly
  enlisted := hsession.store.enlisted (hm.enlisted.mono hsession.callbacks_size_le)
  known := hknown

/-- Something is done to the passes in the store, and to nothing else. -/
theorem Sound.onStore (hm : m.Sound) {f : Store → Store}
    (hsession : m'.session = m.session.onStore f) (horderly : (f m.store).Orderly)
    (hqueues : (f m.store).queues.size = m.store.queues.size)
    (hsubscribers : ∀ d, ((f m.store).cellState d).subscribers = (m.store.cellState d).subscribers)
    (hknown : ∀ a ∈ m'.stack, a.Known m'.session) : m'.Sound := by
  have hstore : m'.store = f m.store := congrArg (·.store) hsession
  have hcallbacks : m'.session.callbacks = m.session.callbacks :=
    congrArg (·.callbacks) hsession
  constructor
  case session =>
    constructor
    case queues =>
      intro name q hq
      rw [hsession] at hq ⊢
      exact hqueues ▸ hm.session.queues name q hq
    case callbacks =>
      intro name k hk
      rw [hsession] at hk ⊢
      exact hm.session.callbacks name k hk
  case orderly => exact hstore ▸ horderly
  case enlisted =>
    rw [hstore, hcallbacks]
    exact hm.enlisted.of_same hsubscribers
  case known => exact hknown

/-- What is known stays known when something is done to the passes in the store. -/
theorem known_onStore {f : Store → Store} {a : Activity} (h : a.Known m.session)
    (hsession : m'.session = m.session.onStore f) (hhas : ∀ d, m.store.Has d → (f m.store).Has d)
    (hscheduler : ∀ d,
      ((f m.store).cellState d).scheduler = (m.store.cellState d).scheduler) :
    a.Known m'.session := by
  rw [hsession]
  exact h.of_same rfl hhas hscheduler

/-- A sound machine stays sound. -/
theorem Sound.move (hm : m.Sound) (h : Move m m') : m'.Sound := by
  have hrest : ∀ {a : Activity} {rest : List Activity}, m.stack = a :: rest →
      a.Known m.session ∧ ∀ b ∈ rest, b.Known m.session := fun hstack =>
    List.forall_mem_cons.1 (hstack ▸ hm.known)
  cases h with
  | work a next rest working before after plain session =>
    refine hm.becomes session ?_
    rw [after]
    exact known_of_work plain fun b hb => ((hrest before).2 b hb).becomes session
  | gather callback steps rest before after session =>
    refine hm.onStore session hm.orderly.gather rfl (fun _ => rfl) fun a ha => ?_
    rw [after, List.mem_cons, List.mem_cons] at ha
    refine known_onStore ?_ session (fun _ => id) fun _ => rfl
    rcases ha with rfl | rfl | ha
    · -- the passes come from the store, which knows where they belong
      exact fun d hd => hm.orderly.spawned d hd
    · trivial
    · exact (hrest before).2 a ha
  | turn c k waiting next rest before after plain store session log =>
    obtain ⟨hpass, hbelow⟩ := hrest before
    refine hm.becomes session ?_
    rw [after]
    refine known_of_work plain (List.forall_mem_cons.2 ⟨?_, ?_⟩)
    · exact Activity.Known.becomes (fun j hj => hpass j (List.mem_cons_of_mem k hj)) session
    · exact fun b hb => (hbelow b hb).becomes session
  | finish c rest before after session log =>
    refine hm.becomes session ?_
    rw [after]
    exact fun b hb => ((hrest before).2 b hb).becomes session
  | skip q started c others rest before queue gone after session =>
    refine hm.onStore session (hm.orderly.skip queue gone) (by simp [modifyQueue]) (fun _ => rfl)
      fun a ha => ?_
    rw [after, List.mem_cons] at ha
    refine known_onStore ?_ session (fun _ => id) fun _ => rfl
    rcases ha with rfl | ha
    · trivial
    · exact (hrest before).2 a ha
  | start q started c others rest before queue live after session =>
    have hsize : (m.store.modifyQueue q fun _ => others).queues.size = m.store.queues.size := by
      simp [modifyQueue]
    refine hm.onStore session (hm.orderly.start queue live) hsize
      (fun d => subscribers_modifyCell _ c d fun _ => rfl) fun a ha => ?_
    rw [after, List.mem_cons, List.mem_cons] at ha
    refine known_onStore ?_ session (fun _ => has_modifyCell.2) (scheduler_startPass _ c)
    rcases ha with rfl | rfl | ha
    · exact hm.enlisted.known c
    · trivial
    · exact (hrest before).2 a ha
  | startSpawned c others started rest before live after session =>
    obtain ⟨htasks, hbelow⟩ := hrest before
    refine hm.onStore session (hm.orderly.startSpawned (htasks c List.mem_cons_self).2) rfl
      (fun d => subscribers_modifyCell _ c d fun _ => rfl) fun a ha => ?_
    rw [after, List.mem_cons, List.mem_cons] at ha
    refine known_onStore ?_ session (fun _ => has_modifyCell.2) (scheduler_startPass _ c)
    rcases ha with rfl | rfl | ha
    · exact hm.enlisted.known c
    · exact fun d hd => htasks d (List.mem_cons_of_mem c hd)
    · exact hbelow a ha

/-! ### The start of a pass -/

/-- Whether a pass of a cell starts in a move: it comes on top of all that was under way. -/
def starts (m m' : Machine) (c : CellRef) : Bool :=
  match m'.stack with
  | .pass d _ :: below => d == c && below.length == m.stack.length
  | _ => false

/-- What the start of a pass does. -/
structure Started (m m' : Machine) (c : CellRef) : Prop where
  has : m.store.Has c
  live : m.store.isGone (.cell c) = false
  persists : m.store.Persists m'.store c
  stack : ∃ below, m'.stack = .pass c (m.store.cellState c).subscribers :: below ∧
    below.length = m.stack.length
  state : (m'.store.cellState c) = { m.store.cellState c with scheduled := false }
  /-- A pass that starts from a queue had its mark. -/
  scheduled : ∀ q, (m.store.cellState c).scheduler = .queue q →
    (m.store.cellState c).scheduled = true

theorem Started.starts (h : Started m m' c) : m.starts m' c = true := by
  obtain ⟨below, hstack, hlength⟩ := h.stack
  simp [Machine.starts, hstack, hlength]

/-- No pass starts where nothing but other activities has come on top. -/
theorem starts_eq_false {next rest : List Activity} (after : m'.stack = next ++ rest)
    (hlength : rest.length ≤ m.stack.length) (plain : ∀ b ∈ next, b.IsWork m'.session)
    (c : CellRef) : m.starts m' c = false := by
  cases next with
  | nil =>
    -- nothing has come on top, so no more is under way than before
    simp only [starts, after, List.nil_append]
    split
    · next below =>
      rw [List.length_cons] at hlength
      have hne : below.length ≠ m.stack.length := by omega
      rw [beq_false_of_ne hne, Bool.and_false]
    · rfl
  | cons b next =>
    have hb := plain b List.mem_cons_self
    simp only [starts, after, List.cons_append]
    cases b
    case pass => exact hb.elim
    all_goals rfl

theorem starts_of_ne {d : CellRef} {waiting : List CallbackRef} {below : List Activity}
    (after : m'.stack = .pass d waiting :: below) (hcd : c ≠ d) : m.starts m' c = false := by
  simp [starts, after, Ne.symm hcd]

/-- The start of a pass, wherever the pass has been taken from, keeps what there is of all other
cells. -/
theorem follows_or_started_of_startPass {u : Store} {d : CellRef} {below : List Activity}
    (hcells : u.cells = m.store.cells) (hgone : u.gone = m.store.gone)
    (hstore : m'.store = u.startPass d) (hd : m.store.Has d)
    (hlive : m.store.isGone (.cell d) = false)
    (hmark : ∀ q, (m.store.cellState d).scheduler = .queue q →
      (m.store.cellState d).scheduled = true)
    (after : m'.stack = .pass d (m.store.cellState d).subscribers :: below)
    (hlength : below.length = m.stack.length) (c : CellRef) :
    m.store.Follows m'.store c ∧ m.starts m' c = false ∨ Started m m' c := by
  have hbefore : u.cellState c = m.store.cellState c := by rw [cellState, cellState, hcells]
  have hhas : u.Has c ↔ m.store.Has c := by rw [Has, Has, hcells]
  have hkept : m.store.Has c → (u.startPass d).Has c := fun hc => has_modifyCell.2 (hhas.2 hc)
  have hgoing : m.store.isGone (.cell c) → (u.startPass d).isGone (.cell c) := fun hc => by
    rw [isGone, Store.startPass, modifyCell, hgone]
    exact hc
  have hstate := u.cellState_startPass d c
  rw [hbefore] at hstate
  by_cases hcd : c = d
  · subst hcd
    rw [if_pos ⟨rfl, hhas.2 hd⟩] at hstate
    refine .inr ⟨hd, hlive, ?_, ⟨below, after, hlength⟩, hstore ▸ hstate, hmark⟩
    rw [hstore]
    exact .of_start hkept hgoing hstate
  · rw [if_neg fun h => hcd h.1] at hstate
    refine .inl ⟨?_, starts_of_ne after hcd⟩
    rw [hstore]
    exact .of_eq hkept hgoing hstate

/-- A move keeps what there is of a cell, or starts a pass of it. -/
theorem Move.follows_or_started (hm : m.Sound) (h : Move m m') (c : CellRef) :
    m.store.Follows m'.store c ∧ m.starts m' c = false ∨ Started m m' c := by
  have hnone : ∀ b ∈ ([] : List Activity), b.IsWork m'.session := fun b hb =>
    absurd hb List.not_mem_nil
  have hrest : ∀ {a : Activity} {rest : List Activity}, m.stack = a :: rest →
      rest.length ≤ m.stack.length := fun hstack => by rw [hstack, List.length_cons]; omega
  cases h with
  | work a next rest working before after plain session =>
    exact .inl ⟨session.store.follows c, starts_eq_false after (hrest before) plain c⟩
  | gather callback steps rest before after session =>
    have hstore : m'.store = { m.store with spawned := [] } := congrArg (·.store) session
    refine .inl ⟨?_, by rw [starts, after]⟩
    rw [hstore]
    exact .of_eq id id rfl
  | turn d k waiting next rest before after plain store session log =>
    refine .inl ⟨store ▸ .refl _ c, starts_eq_false after ?_ plain c⟩
    rw [before]
    exact Nat.le_refl _
  | finish d rest before after session log =>
    have hafter : m'.stack = [] ++ rest := after
    exact .inl ⟨session.store.follows c, starts_eq_false hafter (hrest before) hnone c⟩
  | skip q started d others rest before queue gone after session =>
    have hstore : m'.store = m.store.modifyQueue q fun _ => others := congrArg (·.store) session
    refine .inl ⟨?_, by rw [starts, after]⟩
    rw [hstore]
    exact .of_eq id id rfl
  | start q started d others rest before queue live after session =>
    have hd := (hm.orderly.queued q d (by rw [queue]; exact List.mem_cons_self)).1
    exact follows_or_started_of_startPass (u := m.store.modifyQueue q fun _ => others) rfl rfl
      (congrArg (·.store) session) hd live (fun _ _ => (hm.orderly.count_rest queue live).1) after
      (by rw [before]; rfl) c
  | startSpawned d others started rest before live after session =>
    obtain ⟨hd, hspawner⟩ : m.store.Has d ∧ (m.store.cellState d).scheduler = .spawner :=
      hm.known (.tick (d :: others) started) (by rw [before]; exact List.mem_cons_self) d
        List.mem_cons_self
    have hmark : ∀ q, (m.store.cellState d).scheduler = .queue q →
        (m.store.cellState d).scheduled = true := by
      intro q hq
      rw [hspawner] at hq
      cases hq
    exact follows_or_started_of_startPass rfl rfl (congrArg (·.store) session) hd live hmark after
      (by rw [before]; rfl) c

/-! ### Many moves -/

/-- One move more. -/
theorem settle_succ (m : Machine) (i : Nat) :
    m.settle (i + 1) = (m.settle i).move.getD (m.settle i) := by
  -- `settle` makes the first move first, so the induction is for every machine to begin with
  induction i generalizing m with
  | zero =>
    simp only [settle]
    cases m.move <;> rfl
  | succ i ih =>
    rw [settle]
    cases hmove : m.move with
    | none => simp [settle, hmove]
    | some m' => simp [settle, hmove, ← ih m']

/-- Where there is no move nothing is under way. -/
theorem stack_of_move_none (h : m.move = none) : m.stack = [] := by
  unfold move at h
  split at h
  · assumption
  · cases h

theorem sound_ofSteps (steps : List Step) : (ofSteps {} steps).Sound where
  session :=
    { queues := fun _ _ h => by cases h
      callbacks := fun _ _ h => by cases h }
  orderly :=
    { standard := Nat.zero_lt_one
      queued := fun q c hc => by
        have hempty : Store.initial.queue q = [] := by
          rcases q with ⟨_ | _⟩ <;> rfl
        rw [show (ofSteps {} steps).store.queue q = [] from hempty] at hc
        cases hc
      spawned := fun _ hc => by cases hc
      queue_lt := fun _ _ hc => absurd hc (Nat.not_lt_zero _)
      counted := fun _ _ hc => absurd hc (Nat.not_lt_zero _) }
  enlisted :=
    { distinct := fun _ => List.nodup_nil
      known := fun _ _ hk => by cases hk }
  known := fun a ha => by
    rw [List.mem_singleton.1 ha]
    trivial

end Machine

/-! ### Moments of a run -/

/-- The machine after so many moves, when a new session does the steps. -/
def moment (steps : List Step) (i : Nat) : Machine := (Machine.ofSteps {} steps).settle i

/-- How much is under way at a moment. -/
def height (steps : List Step) (i : Nat) : Nat := (moment steps i).stack.length

/-- What is known of a cell at a moment. -/
def stateAt (steps : List Step) (i : Nat) (c : CellRef) : CellState :=
  (moment steps i).store.cellState c

/-- Whether a pass of a cell starts in the move after a moment. -/
def passStarts (steps : List Step) (c : CellRef) (i : Nat) : Bool :=
  (moment steps i).starts (moment steps (i + 1)) c

variable (steps : List Step)

theorem moment_succ (i : Nat) :
    (moment steps i).move = none ∧ moment steps (i + 1) = moment steps i ∨
      (moment steps i).move = some (moment steps (i + 1)) := by
  have hsucc : moment steps (i + 1) = (moment steps i).move.getD (moment steps i) :=
    Machine.settle_succ _ i
  cases hmove : (moment steps i).move with
  | none => exact .inl ⟨rfl, by rw [hsucc, hmove]; rfl⟩
  | some m => exact .inr (by rw [hsucc, hmove]; rfl)

/-- The machine is sound at every moment. -/
theorem sound_moment (i : Nat) : (moment steps i).Sound := by
  induction i with
  | zero => exact Machine.sound_ofSteps steps
  | succ i ih =>
    rcases moment_succ steps i with ⟨-, hsame⟩ | hmove
    · rw [hsame]
      exact ih
    · exact ih.move (ih.moves hmove)

/-- From one moment to the next a cell keeps what there is of it, or a pass of it starts. -/
theorem follows_or_started (i : Nat) (c : CellRef) :
    (moment steps i).store.Follows (moment steps (i + 1)).store c ∧ passStarts steps c i = false ∨
      (moment steps i).Started (moment steps (i + 1)) c := by
  rcases moment_succ steps i with ⟨hnone, hsame⟩ | hmove
  · refine .inl ⟨hsame ▸ .refl _ c, ?_⟩
    rw [passStarts, hsame, Machine.starts, Machine.stack_of_move_none hnone]
  · exact ((sound_moment steps i).moves hmove).follows_or_started (sound_moment steps i) c

theorem started_of_passStarts {i : Nat} {c : CellRef} (h : passStarts steps c i = true) :
    (moment steps i).Started (moment steps (i + 1)) c := by
  rcases follows_or_started steps i c with ⟨-, hnot⟩ | hstarted
  · rw [h] at hnot
    cases hnot
  · exact hstarted

/-- What stays of a cell from one moment to a later one. -/
theorem persists {i n : Nat} (hin : i ≤ n) (c : CellRef) :
    (moment steps i).store.Persists (moment steps n).store c := by
  induction hin with
  | refl => exact .refl _ c
  | @step n _ ih =>
    rcases follows_or_started steps n c with ⟨hfollows, -⟩ | hstarted
    · exact ih.trans hfollows.toPersists
    · exact ih.trans hstarted.persists

end LiveMarkup
