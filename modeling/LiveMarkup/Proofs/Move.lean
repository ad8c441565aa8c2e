import LiveMarkup.Proofs.Orderly
import LiveMarkup.Session.Machine

/-!
# Moves of the machine

All that a move can do to what is under way is one of a few things.  Passes start and end, and their
subscribers are called, in moves of their own; every other move puts other activities in the place
of the innermost one.  Below the innermost activity nothing changes.

## Main definitions

* `Machine.Sound` — what holds of every machine at work.
* `Machine.Move` — what a move can do.

## Main results

* `Machine.Sound.moves` — every move does one of these things.
* `Machine.Move.of_turn`, `Machine.Move.of_finish` — what becomes of the innermost pass.
-/

namespace LiveMarkup

open Store

/-! ### What is under way -/

/-- The name of a callback. -/
def Session.callbackName (s : Session) (k : CallbackRef) : String :=
  match s.callbacks[k.id]? with
  | some callback => callback.name
  | none => ""

namespace Activity

/-- An activity that works with callbacks that there are, and with passes of cells that are where
the activity takes them from. -/
def Known (s : Session) : Activity → Prop
  | .effect _ k _ => k.id < s.callbacks.size
  | .pass _ waiting => ∀ k ∈ waiting, k.id < s.callbacks.size
  | .tick tasks _ => ∀ c ∈ tasks, s.store.Has c ∧ (s.store.cellState c).scheduler = .spawner
  | _ => True

/-- A session that becomes another takes what is known along. -/
theorem Known.becomes {s t : Session} {a : Activity} (h : a.Known s) (hst : s.Becomes t) :
    a.Known t := by
  cases a with
  | effect name k cells => exact Nat.lt_of_lt_of_le h hst.callbacks_size_le
  | pass c waiting => exact fun k hk => Nat.lt_of_lt_of_le (h k hk) hst.callbacks_size_le
  | tick tasks started =>
    intro c hc
    obtain ⟨hhas, hscheduler⟩ := h c hc
    have hfollows := hst.store.follows c
    exact ⟨hfollows.has hhas, (hfollows.scheduler hhas).trans hscheduler⟩
  | _ => trivial

/-- What is known stays known as long as cells and their schedulers and all callbacks stay. -/
theorem Known.of_same {s t : Session} {a : Activity} (h : a.Known s)
    (hcallbacks : t.callbacks = s.callbacks) (hhas : ∀ c, s.store.Has c → t.store.Has c)
    (hscheduler : ∀ c, (t.store.cellState c).scheduler = (s.store.cellState c).scheduler) :
    a.Known t := by
  cases a with
  | effect name k cells =>
    rw [Known, hcallbacks]
    exact h
  | pass c waiting =>
    rw [Known, hcallbacks]
    exact h
  | tick tasks started => exact fun c hc => ⟨hhas c (h c hc).1, (hscheduler c).trans (h c hc).2⟩
  | _ => trivial

/-- An activity that is not a pass, and is known. -/
def IsWork (s : Session) : Activity → Prop
  | .pass _ _ => False
  | a => a.Known s

end Activity

namespace Machine

variable {m m' : Machine}

/-- What holds of every machine at work. -/
structure Sound (m : Machine) : Prop where
  session : m.session.Sound
  orderly : m.store.Orderly
  enlisted : m.store.Enlisted m.session.callbacks.size
  known : ∀ a ∈ m.stack, a.Known m.session

/-- What a move can do. -/
inductive Move (m m' : Machine) : Prop
  /-- The innermost activity, which is no pass, goes on to others that are none. -/
  | work (a : Activity) (next rest : List Activity) (working : a.IsWork m.session)
      (before : m.stack = a :: rest) (after : m'.stack = next ++ rest)
      (plain : ∀ b ∈ next, b.IsWork m'.session) (session : m.session.Becomes m'.session)
  /-- The passes that the host's executor has are taken from it. -/
  | gather (callback : Option String) (steps : List Step) (rest : List Activity)
      (before : m.stack = .steps callback (.tick :: steps) :: rest)
      (after : m'.stack = .tick m.store.spawned 0 :: .steps callback steps :: rest)
      (session : m'.session = m.session.onStore fun store => { store with spawned := [] })
  /-- A waiting subscriber has its turn. -/
  | turn (c : CellRef) (k : CallbackRef) (waiting : List CallbackRef) (next rest : List Activity)
      (before : m.stack = .pass c (k :: waiting) :: rest)
      (after : m'.stack = next ++ .pass c waiting :: rest)
      (plain : ∀ b ∈ next, b.IsWork m'.session) (store : m'.store = m.store)
      (session : m.session.Becomes m'.session)
      (log : m'.log = m.log ++
        if m.store.isSubscribed c k then [.call (m.session.callbackName k)] else [])
  /-- A pass ends. -/
  | finish (c : CellRef) (rest : List Activity) (before : m.stack = .pass c [] :: rest)
      (after : m'.stack = rest) (session : m.session.Becomes m'.session)
      (log : ∃ notices : List Notice, m'.log = m.log ++ notices.map .notice)
  /-- A pass of a cell that is gone is taken from its queue. -/
  | skip (q : QueueRef) (started : Nat) (c : CellRef) (others : List CellRef)
      (rest : List Activity) (before : m.stack = .drain q started :: rest)
      (queue : m.store.queue q = c :: others) (gone : m.store.isGone (.cell c) = true)
      (after : m'.stack = .drain q (started + 1) :: rest)
      (session : m'.session = m.session.onStore fun store => store.modifyQueue q fun _ => others)
  /-- A pass is taken from its queue and starts. -/
  | start (q : QueueRef) (started : Nat) (c : CellRef) (others : List CellRef)
      (rest : List Activity) (before : m.stack = .drain q started :: rest)
      (queue : m.store.queue q = c :: others) (live : m.store.isGone (.cell c) = false)
      (after : m'.stack =
        .pass c (m.store.cellState c).subscribers :: .drain q (started + 1) :: rest)
      (session : m'.session = m.session.onStore fun store =>
        (store.modifyQueue q fun _ => others).startPass c)
  /-- A pass that the host's executor runs starts. -/
  | startSpawned (c : CellRef) (others : List CellRef) (started : Nat) (rest : List Activity)
      (before : m.stack = .tick (c :: others) started :: rest)
      (live : m.store.isGone (.cell c) = false)
      (after : m'.stack =
        .pass c (m.store.cellState c).subscribers :: .tick others (started + 1) :: rest)
      (session : m'.session = m.session.onStore fun store => store.startPass c)

/-! ### Answers -/

theorem becomes_onStore (m : Machine) {f : Store → Store}
    (h : m.store.Hosts m.session.callbacks.size (f m.store)) :
    m.session.Becomes (m.onStore f).session :=
  .of_store h rfl rfl rfl

theorem becomes_collectNotices (m : Machine) : m.session.Becomes m.collectNotices.session :=
  m.becomes_onStore (Hosts.by .collect trivial)

theorem becomes_letGo (m : Machine) (lost : List Entity) :
    m.session.Becomes (m.letGo lost).session :=
  (m.becomes_onStore (Hosts.by (.pin m.roots) trivial)).trans
    (becomes_onStore _ (Store.evaluates_letGo _ _ _).hosts)

theorem stack_answer (m : Machine) (r : Report) : (m.answer r).stack = m.stack := by
  simp only [answer]
  split <;> rfl

theorem becomes_answer (m : Machine) (r : Report) : m.session.Becomes (m.answer r).session := by
  simp only [answer]
  split <;> exact m.becomes_collectNotices

/-! ### Calls -/

theorem becomes_countCall (m : Machine) (k : CallbackRef) (callback called : Callback)
    (hk : m.session.callbacks[k.id]? = some callback) (hname : called.name = callback.name) :
    m.session.Becomes (m.countCall k called).session := by
  have hsize : (m.countCall k called).session.callbacks.size = m.session.callbacks.size := by
    simp [countCall]
  constructor
  case store => exact .refl _
  case callbacks =>
    intro i other hi
    by_cases hki : k.id = i
    · subst hki
      rw [hk] at hi
      cases hi
      obtain ⟨hlt, -⟩ := Array.getElem?_eq_some_iff.1 hk
      exact ⟨called, by simp [countCall, hlt], hname⟩
    · exact ⟨other, by simpa [countCall, Array.getElem?_setIfInBounds, hki] using hi, rfl⟩
  case sound =>
    intro hs
    refine ⟨hs.queues, ?_⟩
    intro name j hj
    rw [hsize]
    exact hs.callbacks name j hj

/-- What calling a callback puts on the stack, and what it leaves alone. -/
theorem call_spec (m : Machine) (k : CallbackRef) :
    ∃ next, (m.call k).stack = next ++ m.stack ∧ (∀ b ∈ next, ∀ s, b.IsWork s) ∧
      (m.call k).store = m.store ∧ m.session.Becomes (m.call k).session := by
  unfold call
  split
  · exact ⟨[], rfl, fun b hb => absurd hb List.not_mem_nil, rfl, .refl _⟩
  · next callback hk =>
    simp only
    split
    · exact ⟨[], rfl, fun b hb => absurd hb List.not_mem_nil, rfl, .refl _⟩
    · next n _ =>
      refine ⟨[.steps (some callback.name) callback.steps], rfl, fun b hb s => ?_, rfl,
        m.becomes_countCall k callback { callback with remaining := n } hk rfl⟩
      rw [List.mem_singleton.1 hb]
      trivial

theorem log_call (m : Machine) {k : CallbackRef} (hk : k.id < m.session.callbacks.size) :
    (m.call k).log = m.log ++ [.call (m.session.callbackName k)] := by
  have hget := Array.getElem?_eq_getElem hk
  simp only [call, Session.callbackName, hget]
  split <;> rfl

/-! ### Steps -/

theorem becomes_act (m : Machine) (hm : m.session.Sound) (action : Action) :
    m.session.Becomes (m.act action).session := by
  have hpin : m.session.Becomes m.pin.session :=
    m.becomes_onStore (Hosts.by (.pin m.roots) trivial)
  exact hpin.trans ((Session.becomes_perform (hpin.sound hm) action).trans
    ((becomes_letGo { m with session := (m.pin.session.perform action).1 } _).trans
      (becomes_answer _ _)))

theorem becomes_bindCallback (s : Session) (callback : Callback) :
    s.Becomes (s.bindCallback callback) := by
  have hsize : (s.bindCallback callback).callbacks.size = s.callbacks.size + 1 :=
    Array.size_push _
  constructor
  case store => exact .refl _
  case callbacks =>
    intro i other hi
    obtain ⟨hlt, -⟩ := Array.getElem?_eq_some_iff.1 hi
    refine ⟨other, ?_, rfl⟩
    rw [← hi]
    exact Array.getElem?_push_lt hlt ▸ (Array.getElem?_eq_getElem hlt).symm
  case sound =>
    intro hs
    refine ⟨hs.queues, ?_⟩
    intro name k hk
    rw [hsize]
    have hfind := Bindings.find?_insert s.callbackNames callback.name name ⟨s.callbacks.size⟩
    rw [show (s.bindCallback callback).callbackNames.find? name = _ from hfind] at hk
    split at hk
    · cases hk
      exact Nat.lt_succ_self _
    · exact Nat.lt_succ_of_lt (hs.callbacks name k hk)

/-- What beginning a step puts on the stack, unless it takes the passes of the host's executor. -/
theorem begin_spec (m : Machine) (hm : m.session.Sound) (step : Step) (hstep : step ≠ .tick) :
    ∃ next, (m.begin step).stack = next ++ m.stack ∧
      (∀ b ∈ next, b.IsWork (m.begin step).session) ∧
        m.session.Becomes (m.begin step).session := by
  have hanswer : ∀ r, ∃ next, (m.answer r).stack = next ++ m.stack ∧
      (∀ b ∈ next, b.IsWork (m.answer r).session) ∧ m.session.Becomes (m.answer r).session :=
    fun r => ⟨[], m.stack_answer r, fun b hb => absurd hb List.not_mem_nil, m.becomes_answer r⟩
  cases step with
  | act action =>
    exact ⟨[], stack_answer _ _, fun b hb => absurd hb List.not_mem_nil, m.becomes_act hm action⟩
  | callback name steps times =>
    have hbind := becomes_bindCallback m.session { name, steps, remaining := times }
    have hdone := becomes_answer
      { m with session := m.session.bindCallback { name, steps, remaining := times } } .done
    exact ⟨[], stack_answer _ _, fun b hb => absurd hb List.not_mem_nil, hbind.trans hdone⟩
  | call callback =>
    simp only [begin]
    split
    · next k _ =>
      -- the report waits under what the callback does
      obtain ⟨next, hstack, hplain, -, hsession⟩ := (m.push (.report .done)).call_spec k
      refine ⟨next ++ [.report .done], by rw [hstack, List.append_assoc]; rfl, fun b hb => ?_,
        hsession⟩
      rcases List.mem_append.1 hb with hb | hb
      · exact hplain b hb _
      · rw [List.mem_singleton.1 hb]
        trivial
    · exact hanswer _
  | effect name callback cells =>
    simp only [begin]
    split
    · next k hk =>
      obtain ⟨next, hstack, hplain, -, hsession⟩ :=
        (m.push (.effect name k (m.session.cellsNamed cells))).call_spec k
      refine ⟨next ++ [.effect name k (m.session.cellsNamed cells)],
        by rw [hstack, List.append_assoc]; rfl, fun b hb => ?_, hsession⟩
      rcases List.mem_append.1 hb with hb | hb
      · exact hplain b hb _
      · rw [List.mem_singleton.1 hb]
        exact Nat.lt_of_lt_of_le (hm.callbacks callback k hk) hsession.callbacks_size_le
    · exact hanswer _
  | drain queue =>
    refine ⟨[.drain (m.session.queue queue) 0], rfl, fun b hb => ?_, .refl _⟩
    rw [List.mem_singleton.1 hb]
    trivial
  | tick => exact absurd rfl hstep

/-! ### Every move -/

/-- A turn calls the subscriber if it is still subscribed. -/
theorem move_turn {rest : List Activity} {c : CellRef} {k : CallbackRef}
    {waiting : List CallbackRef} (hk : k.id < m.session.callbacks.size)
    (hstack : m.stack = .pass c (k :: waiting) :: rest) :
    Move m ({ m with stack := .pass c waiting :: rest }.callIfSubscribed c k) := by
  by_cases hsubscribed : m.store.isSubscribed c k
  · obtain ⟨next, hnext, hplain, hstore, hsession⟩ :=
      call_spec { m with stack := .pass c waiting :: rest } k
    have hcall : { m with stack := .pass c waiting :: rest }.callIfSubscribed c k =
        { m with stack := .pass c waiting :: rest }.call k := if_pos hsubscribed
    rw [hcall]
    refine .turn c k waiting next rest hstack hnext (fun b hb => hplain b hb _) hstore hsession ?_
    rw [if_pos hsubscribed]
    exact log_call _ hk
  · have hskip : { m with stack := .pass c waiting :: rest }.callIfSubscribed c k =
        { m with stack := .pass c waiting :: rest } := if_neg hsubscribed
    rw [hskip]
    refine .turn c k waiting [] rest hstack rfl (fun b hb => absurd hb List.not_mem_nil) rfl
      (.refl _) ?_
    rw [if_neg hsubscribed, List.append_nil]

theorem startPass_gone {c : CellRef} (hgone : m.store.isGone (.cell c) = true) :
    m.startPass c = m :=
  if_pos hgone

theorem startPass_live {c : CellRef} (hlive : m.store.isGone (.cell c) = false) :
    m.startPass c = (m.onStore fun store => store.startPass c).push
      (.pass c (m.store.cellState c).subscribers) :=
  if_neg (by rw [hlive]; exact Bool.false_ne_true)

theorem move_drain {rest : List Activity} {q : QueueRef} {started : Nat}
    (hstack : m.stack = .drain q started :: rest) :
    Move m ({ m with stack := rest }.advance (.drain q started)) := by
  have hqueue : { m with stack := rest }.store.queue q = m.store.queue q := rfl
  cases hq : m.store.queue q with
  | nil =>
    rw [hq] at hqueue
    simp only [advance, hqueue]
    exact .work (.drain q started) [] rest trivial hstack (stack_answer _ _)
      (fun b hb => absurd hb List.not_mem_nil) (becomes_answer { m with stack := rest } _)
  | cons c others =>
    rw [hq] at hqueue
    simp only [advance, hqueue]
    cases hlive : m.store.isGone (.cell c) with
    | true =>
      rw [startPass_gone]
      · exact .skip q started c others rest hstack hq hlive rfl rfl
      · exact hlive
    | false =>
      rw [startPass_live]
      · exact .start q started c others rest hstack hq hlive rfl rfl
      · exact hlive

theorem move_tick {rest : List Activity} {tasks : List CellRef} {started : Nat}
    (hstack : m.stack = .tick tasks started :: rest)
    (hknown : Activity.Known m.session (.tick tasks started)) :
    Move m ({ m with stack := rest }.advance (.tick tasks started)) := by
  cases tasks with
  | nil =>
    exact .work (.tick [] started) [] rest hknown hstack (stack_answer _ _)
      (fun b hb => absurd hb List.not_mem_nil) (becomes_answer { m with stack := rest } _)
  | cons c others =>
    simp only [advance]
    cases hlive : m.store.isGone (.cell c) with
    | true =>
      rw [startPass_gone]
      · refine .work (.tick (c :: others) started) [.tick others (started + 1)] rest hknown hstack
          rfl (fun b hb => ?_) (.refl _)
        rw [List.mem_singleton.1 hb]
        exact fun d hd => hknown d (List.mem_cons_of_mem c hd)
      · exact hlive
    | false =>
      rw [startPass_live]
      · exact .startSpawned c others started rest hstack hlive rfl rfl
      · exact hlive

theorem move_steps {rest : List Activity} {callback : Option String} {steps : List Step}
    (hm : m.session.Sound) (hstack : m.stack = .steps callback steps :: rest) :
    Move m ({ m with stack := rest }.advance (.steps callback steps)) := by
  cases steps with
  | nil =>
    exact .work (.steps callback []) [] rest trivial hstack rfl
      (fun b hb => absurd hb List.not_mem_nil) (.refl _)
  | cons step steps =>
    by_cases hstep : step = .tick
    · -- only this step reaches for the passes of the executor
      subst hstep
      exact .gather callback steps rest hstack rfl rfl
    · obtain ⟨next, hnext, hplain, hsession⟩ :=
        begin_spec { m with stack := .steps callback steps :: rest } hm step hstep
      refine .work (.steps callback (step :: steps)) (next ++ [.steps callback steps]) rest trivial
        hstack (by rw [List.append_assoc]; exact hnext) (fun b hb => ?_) hsession
      rcases List.mem_append.1 hb with hb | hb
      · exact hplain b hb
      · rw [List.mem_singleton.1 hb]
        trivial

theorem move_effect {rest : List Activity} {name : String} {k : CallbackRef}
    {cells : List CellRef} (hk : k.id < m.session.callbacks.size)
    (hstack : m.stack = .effect name k cells :: rest) :
    Move m ({ m with stack := rest }.advance (.effect name k cells)) := by
  have henlist : m.session.Becomes ({ m with stack := rest }.enlist name k cells).session :=
    .of_store (Session.hosts_subscribeEach _ _ hk) rfl rfl rfl
  exact .work (.effect name k cells) [] rest hk hstack (stack_answer _ _)
    (fun b hb => absurd hb List.not_mem_nil)
    (henlist.trans ((becomes_letGo _ _).trans (becomes_answer _ _)))

theorem becomes_finishPass (m : Machine) (c : CellRef) :
    m.session.Becomes (m.finishPass c).session := by
  have hpass : m.session.Becomes (m.onStore fun store => store.finishPass c).session :=
    m.becomes_onStore (Hosts.by (.finishPass c) trivial)
  have hgone := (m.onStore fun store => store.finishPass c).becomes_letGo [.cell c]
  exact hpass.trans (hgone.trans (becomes_collectNotices _))

theorem log_collectNotices (m : Machine) :
    m.collectNotices.log = m.log ++ m.store.notices.map .notice := rfl

theorem log_letGo (m : Machine) (lost : List Entity) : (m.letGo lost).log = m.log := by
  simp only [letGo, onStore, pin]

theorem stack_finishPass (m : Machine) (c : CellRef) : (m.finishPass c).stack = m.stack := by
  simp only [finishPass, collectNotices, logAll, letGo, onStore, pin]

/-- The end of a pass calls nothing. -/
theorem log_finishPass (m : Machine) (c : CellRef) :
    ∃ notices : List Notice, (m.finishPass c).log = m.log ++ notices.map .notice := by
  refine ⟨((m.onStore fun store => store.finishPass c).letGo [.cell c]).store.notices, ?_⟩
  rw [finishPass, log_collectNotices, log_letGo]
  simp only [onStore]

theorem move_finish {rest : List Activity} {c : CellRef} (hstack : m.stack = .pass c [] :: rest) :
    Move m ({ m with stack := rest }.advance (.pass c [])) :=
  .finish c rest hstack (stack_finishPass _ c) (becomes_finishPass { m with stack := rest } c)
    (log_finishPass { m with stack := rest } c)

/-- Every move does one of these things. -/
theorem Sound.moves (hm : m.Sound) (h : m.move = some m') : Move m m' := by
  unfold move at h
  split at h
  · cases h
  · next a rest hstack =>
    have hknown : a.Known m.session := hm.known a (by rw [hstack]; exact List.mem_cons_self)
    cases h
    -- one case for each kind of activity that can be innermost
    cases a with
    | steps callback steps => exact move_steps hm.session hstack
    | report r =>
      exact .work (.report r) [] rest trivial hstack (stack_answer _ _)
        (fun b hb => absurd hb List.not_mem_nil) (becomes_answer { m with stack := rest } r)
    | effect name k cells => exact move_effect hknown hstack
    | pass c waiting =>
      cases waiting with
      | nil => exact move_finish hstack
      | cons k waiting => exact move_turn (hknown k List.mem_cons_self) hstack
    | drain q started => exact move_drain hstack
    | tick tasks started => exact move_tick hstack hknown

/-! ### What a move leaves of what was under way -/

namespace Move

variable {c : CellRef} {k : CallbackRef} {waiting : List CallbackRef} {rest : List Activity}

/-- What is under way below the innermost activity stays. -/
theorem keeps_below (h : Move m m') {a : Activity} (hstack : m.stack = a :: rest) :
    ∃ next, m'.stack = next ++ rest := by
  have hrest : ∀ {b : Activity} {below : List Activity}, m.stack = b :: below → below = rest :=
    fun hbelow => (List.cons.inj (hbelow.symm.trans hstack)).2
  cases h with
  | work b next below working before after => exact ⟨next, hrest before ▸ after⟩
  | gather callback steps below before after => exact ⟨[_, _], hrest before ▸ after⟩
  | turn d j others next below before after =>
    exact ⟨next ++ [_], by rw [after, hrest before, List.append_assoc]; rfl⟩
  | finish d below before after => exact ⟨[], hrest before ▸ after⟩
  | skip q started d others below before _ _ after => exact ⟨[_], hrest before ▸ after⟩
  | start q started d others below before _ _ after => exact ⟨[_, _], hrest before ▸ after⟩
  | startSpawned d others started below before _ after => exact ⟨[_, _], hrest before ▸ after⟩

/-- The innermost pass calls the first waiting subscriber, if it is still subscribed. -/
theorem of_turn (h : Move m m') (hstack : m.stack = .pass c (k :: waiting) :: rest) :
    (∃ next, m'.stack = next ++ .pass c waiting :: rest) ∧
      m'.log = m.log ++
        if m.store.isSubscribed c k then [.call (m.session.callbackName k)] else [] := by
  cases h with
  | turn d j others next below before after plain store session log =>
    rw [hstack] at before
    cases before
    exact ⟨⟨next, after⟩, log⟩
  | work a next below working before =>
    rw [hstack] at before
    cases before
    exact working.elim
  | gather _ _ _ before => rw [hstack] at before; cases before
  | finish _ _ before => rw [hstack] at before; cases before
  | skip _ _ _ _ _ before => rw [hstack] at before; cases before
  | start _ _ _ _ _ before => rw [hstack] at before; cases before
  | startSpawned _ _ _ _ before => rw [hstack] at before; cases before

/-- The innermost pass ends when nobody is waiting, and calls nobody. -/
theorem of_finish (h : Move m m') (hstack : m.stack = .pass c [] :: rest) :
    m'.stack = rest ∧ ∃ notices : List Notice, m'.log = m.log ++ notices.map .notice := by
  cases h with
  | finish d below before after session log =>
    rw [hstack] at before
    cases before
    exact ⟨after, log⟩
  | work a next below working before =>
    rw [hstack] at before
    cases before
    exact working.elim
  | gather _ _ _ before => rw [hstack] at before; cases before
  | turn _ _ _ _ _ before => rw [hstack] at before; cases before
  | skip _ _ _ _ _ before => rw [hstack] at before; cases before
  | start _ _ _ _ _ before => rw [hstack] at before; cases before
  | startSpawned _ _ _ _ before => rw [hstack] at before; cases before

end Move

end Machine

end LiveMarkup
