import LiveMarkup.Proofs.BindingLaws
import LiveMarkup.Proofs.Run
import Mathlib

/-!
# The subscribers of cells

Subscribing puts a callback at the end of a list, unless it is there already; a handle takes its
callback out of the lists of its cells, once; a clear empties lists.  A move of the machine does at
most one of these things, which can be read off what is under way, and leaves the subscribers of
all cells and the subscriptions behind all handles alone apart from it.

## Main definitions

* `Machine.enlistment` — what the next move does to subscribers.
* `Session.Undisturbed` — subscribers and handles are left alone.
* `GrowsOrShrinks` — what becomes of a list of subscribers in a move.

## Main results

* `Store.subscribers_subscribeEach`, `Store.subscribers_unsubscribeEach_fresh`,
  `Store.unsubscribeEach_spent` — what subscriptions do to the list of a cell, and what they do the
  second time.
* `Session.rights_of_made`, `Session.rights_use`, `Session.rights_of_others` — what becomes of
  handles.
* `Machine.move_enlists` — what a move does to subscribers and handles.
-/

namespace LiveMarkup

/-! ### Lists of subscribers -/

namespace Store

variable {s t : Store} {c d : CellRef} {k : CallbackRef} {cells : List CellRef}

theorem Serves.subscribers (h : s.Serves t) (c : CellRef) :
    (t.cellState c).subscribers = (s.cellState c).subscribers := by
  refine h.relates (R := fun s t => (t.cellState c).subscribers = (s.cellState c).subscribers)
    (fun _ => rfl) (fun _ _ _ hst htu => htu.trans hst) fun s x hx => s.subscribers_apply ?_ c
  intro henlists
  cases x
  -- three changes touch subscribers, and those are the ones that are not permitted
  case subscribe => exact hx
  case unsubscribe => exact hx
  case unsubscribeAll => exact hx
  all_goals exact henlists

theorem subscribers_subscribe (s : Store) (d c : CellRef) (k : CallbackRef) :
    ((s.subscribe d k).cellState c).subscribers =
      if c = d ∧ s.Has c ∧ k ∉ (s.cellState c).subscribers then (s.cellState c).subscribers ++ [k]
      else (s.cellState c).subscribers := by
  rw [subscribe, cellState_modifyCell]
  by_cases hd : c = d ∧ s.Has c
  · rw [if_pos hd]
    by_cases hk : k ∈ (s.cellState c).subscribers
    · rw [if_pos (List.contains_iff_mem.2 hk), if_neg fun h => h.2.2 hk]
    · rw [if_neg fun h => hk (List.contains_iff_mem.1 h), if_pos ⟨hd.1, hd.2, hk⟩]
  · rw [if_neg hd, if_neg fun h => hd ⟨h.1, h.2.1⟩]

/-- Subscribing to several cells shows once in each of them, however often it is named. -/
theorem subscribers_subscribeEach (s : Store) (cells : List CellRef) (k : CallbackRef)
    (c : CellRef) :
    ((s.subscribeEach cells k).1.cellState c).subscribers =
      if c ∈ cells ∧ s.Has c ∧ k ∉ (s.cellState c).subscribers then
        (s.cellState c).subscribers ++ [k]
      else (s.cellState c).subscribers := by
  induction cells generalizing s with
  | nil => simp [subscribeEach]
  | cons d cells ih =>
    have hhas : (s.subscribe d k).Has c ↔ s.Has c := has_modifyCell
    refine (ih (s.subscribe d k)).trans ?_
    simp only [hhas, s.subscribers_subscribe d c k, List.mem_cons]
    by_cases hk : k ∈ (s.cellState c).subscribers
    · simp [hk]
    · by_cases hd : c = d
      · -- the first cell has it now, so the others of the same name add nothing
        subst hd
        by_cases hc : s.Has c <;> simp [hk, hc]
      · simp [hd]

theorem subscribers_unsubscribe (s : Store) (d c : CellRef) (k : CallbackRef) :
    ((s.unsubscribe d k).cellState c).subscribers =
      if c = d then (s.cellState c).subscribers.erase k else (s.cellState c).subscribers := by
  rw [unsubscribe, cellState_modifyCell]
  by_cases hd : c = d
  · by_cases hc : s.Has c
    · rw [if_pos ⟨hd, hc⟩, if_pos hd]
    · -- a cell that has not been made has no subscribers to take out
      rw [if_neg fun h => hc h.2, if_pos hd, cellState_of_not_has hc]
      rfl
  · rw [if_neg fun h => hd h.1, if_neg hd]

theorem subscribers_unsubscribeAll (s : Store) (d c : CellRef) :
    ((s.unsubscribeAll d).cellState c).subscribers =
      if c = d then [] else (s.cellState c).subscribers := by
  rw [unsubscribeAll, cellState_modifyCell]
  by_cases hd : c = d
  · by_cases hc : s.Has c
    · rw [if_pos ⟨hd, hc⟩, if_pos hd]
    · rw [if_neg fun h => hc h.2, if_pos hd, cellState_of_not_has hc]
  · rw [if_neg fun h => hd h.1, if_neg hd]

theorem subscribers_clear (s : Store) (cells : List CellRef) (c : CellRef) :
    ((cells.foldl (fun store c => store.unsubscribeAll c) s).cellState c).subscribers =
      if c ∈ cells then [] else (s.cellState c).subscribers := by
  induction cells generalizing s with
  | nil => simp
  | cons d cells ih =>
    rw [List.foldl_cons, ih, subscribers_unsubscribeAll]
    by_cases hd : c = d <;> simp [hd]

end Store

/-! ### Handles -/

/-- A subscription that has been used. -/
def Subscription.spent (sub : Subscription) : Subscription := { sub with used := true }

/-- The subscriptions of a callback to cells, used or not. -/
def subscriptionsOf (k : CallbackRef) (used : Bool) (cells : List CellRef) : List Subscription :=
  cells.map fun c => { cell := c, callback := k, used }

theorem map_spent_subscriptionsOf (k : CallbackRef) (used : Bool) (cells : List CellRef) :
    (subscriptionsOf k used cells).map Subscription.spent = subscriptionsOf k true cells := by
  simp [subscriptionsOf, Subscription.spent]

namespace Store

open Session

variable {c : CellRef} {k : CallbackRef}

theorem unsubscribe_fst (s : Store) (sub : Subscription) : (sub.unsubscribe s).1 = sub.spent := by
  obtain ⟨cell, callback, used⟩ := sub
  cases used <;> rfl

/-- Whether it does anything or not, a use leaves a subscription used. -/
theorem unsubscribeEach_fst (s : Store) (subscriptions : List Subscription) :
    (unsubscribeEach s subscriptions).1 = subscriptions.map Subscription.spent := by
  induction subscriptions generalizing s with
  | nil => rfl
  | cons sub rest ih =>
    rw [List.map_cons, ← s.unsubscribe_fst sub, ← ih (sub.unsubscribe s).2]
    rfl

/-- Subscriptions take callbacks out and leave the order of the others alone. -/
theorem sublist_unsubscribeEach (s : Store) (subscriptions : List Subscription) (c : CellRef) :
    ((unsubscribeEach s subscriptions).2.cellState c).subscribers.Sublist
      (s.cellState c).subscribers := by
  induction subscriptions generalizing s with
  | nil => exact List.Sublist.refl _
  | cons sub rest ih =>
    refine (ih (sub.unsubscribe s).2).trans ?_
    unfold Subscription.unsubscribe
    split
    · exact List.Sublist.refl _
    · rw [subscribers_unsubscribe]
      split
      · exact List.erase_sublist
      · exact List.Sublist.refl _

/-- Subscriptions that have been used do nothing. -/
theorem unsubscribeEach_spent (s : Store) (k : CallbackRef) (cells : List CellRef) :
    (unsubscribeEach s (subscriptionsOf k true cells)).2 = s := by
  induction cells with
  | nil => rfl
  | cons c cells ih => exact ih

/-- Subscriptions that have not been used take the callback out of each of their cells, also if a
cell is named more than once. -/
theorem subscribers_unsubscribeEach_fresh (s : Store) (k : CallbackRef) (cells : List CellRef)
    (hdistinct : (s.cellState c).subscribers.Nodup) :
    ((unsubscribeEach s (subscriptionsOf k false cells)).2.cellState c).subscribers =
      if c ∈ cells then (s.cellState c).subscribers.erase k else (s.cellState c).subscribers := by
  induction cells generalizing s with
  | nil => rfl
  | cons d cells ih =>
    have hfirst := s.subscribers_unsubscribe d c k
    have hrest := ih (s.unsubscribe d k) (by
      rw [hfirst]
      split
      · exact hdistinct.erase k
      · exact hdistinct)
    refine hrest.trans ?_
    rw [hfirst]
    by_cases hd : c = d
    · -- what has been taken out is not there to be taken out again
      have hgone : k ∉ (s.cellState c).subscribers.erase k := hdistinct.not_mem_erase
      simp [← hd, List.erase_of_not_mem hgone]
    · simp [hd]

end Store

/-- What becomes of a list of subscribers: some are taken out, or one is added at the end. -/
def GrowsOrShrinks (before after : List CallbackRef) : Prop :=
  after.Sublist before ∨ ∃ k, k ∉ before ∧ after = before ++ [k]

theorem GrowsOrShrinks.refl (l : List CallbackRef) : GrowsOrShrinks l l :=
  .inl (List.Sublist.refl l)

/-- The names under which a callback is subscribed at once are different, so that there is a handle
for each cell. -/
def Enlistment.Distinct : Enlistment → Prop
  | .subscribe _ names => (names.map Prod.fst).Nodup
  | _ => True

namespace Session

open Store

variable {s : Session} {h : Handle} {e : Enlistment} {k : CallbackRef} {cells : List CellRef}

/-- Names with different numbers are different names. -/
theorem nodup_numbered (name : String) (cells : List CellRef) :
    ((numbered name cells).map Prod.fst).Nodup := by
  have hnames : (numbered name cells).map Prod.fst =
      (cells.zipIdx.map Prod.snd).map fun i => name ++ toString i := by
    simp only [numbered, List.map_map, Function.comp_def]
  rw [hnames, List.zipIdx_map_snd]
  refine List.Nodup.map (fun i j hij => ?_) List.nodup_range'
  exact Nat.repr_injective ((String.append_right_inj name).1 hij)

theorem distinct_subscribing (s : Session) (callback : String)
    {names : List (String × CellRef)} (hnames : (names.map Prod.fst).Nodup) :
    (s.subscribing callback names).Distinct := by
  unfold subscribing
  cases s.callbackNames.find? callback with
  | some k => exact hnames
  | none => trivial

theorem Allows.distinct (h : s.Allows e) : e.Distinct := by
  cases h with
  | one callback name c => exact s.distinct_subscribing callback (List.nodup_singleton _)
  | several callback name cells => exact s.distinct_subscribing callback (nodup_numbered _ _)
  | _ => trivial

/-- The subscriptions that are made come first, and those made before under other names stay. -/
theorem find?_subscribe {names : List (String × CellRef)} (hdistinct : (names.map Prod.fst).Nodup)
    (name : String) :
    (s.enlist (.subscribe k names)).subscriptions.find? name =
      ((names.lookup name).map fun c => { cell := c, callback := k }).or
        (s.subscriptions.find? name) := by
  have hmerged : (s.subscriptions.merge (Bindings.map (fun c => { cell := c, callback := k })
      ⟨names, hdistinct⟩)).find? name = _ := Bindings.find?_merge
  rw [Bindings.find?_map] at hmerged
  exact hmerged

/-- A handle that is made has unused subscriptions of its callback to its cells. -/
theorem rights_of_made (hdistinct : e.Distinct) (hmade : (h, k, cells) ∈ e.made) :
    (s.enlist e).rights h = some (subscriptionsOf k false cells) := by
  cases e with
  | subscribe l names =>
    obtain ⟨⟨name, c⟩, hname, heq⟩ := List.mem_map.1 hmade
    cases heq
    rw [rights, find?_subscribe hdistinct, Bindings.lookup_of_mem hdistinct hname]
    rfl
  | effect name l ds =>
    rw [Enlistment.made, List.mem_singleton] at hmade
    cases hmade
    simp only [rights, enlist]
    rw [Bindings.find?_insert, if_pos rfl]
    rfl
  | _ =>
    -- nothing else makes handles
    cases hmade

/-- A use leaves the subscriptions behind a handle used. -/
theorem rights_use (s : Session) (h : Handle) :
    (s.enlist (.use h)).rights h = (s.rights h).map fun rights => rights.map .spent := by
  cases h with
  | subscription name =>
    simp only [enlist, rights, performUnsubscribe]
    cases hsub : s.subscriptions.find? name with
    | none =>
      -- a handle that there is not stays one
      simp only [unknown, hsub]
      rfl
    | some sub =>
      rw [Bindings.find?_insert, if_pos rfl, s.store.unsubscribe_fst]
      rfl
  | effect name =>
    simp only [enlist, rights, performDispose]
    cases hsubs : s.effects.find? name with
    | none =>
      simp only [unknown, hsubs]
      rfl
    | some subscriptions =>
      rw [Bindings.find?_insert, if_pos rfl, s.store.unsubscribeEach_fst]
      rfl

/-- All other handles stay as they are. -/
theorem rights_of_others (hdistinct : e.Distinct) (hmade : h ∉ e.made.map Prod.fst)
    (huse : e ≠ .use h) : (s.enlist e).rights h = s.rights h := by
  cases e with
  | nothing => rfl
  | clear cells => cases h <;> rfl
  | subscribe k names =>
    cases h with
    | effect name => rfl
    | subscription name =>
      have hnone : names.lookup name = none := by
        rw [List.lookup_eq_none_iff]
        intro entry hentry
        refine bne_iff_ne.2 fun heq => hmade ?_
        rw [Enlistment.made, List.map_map, List.mem_map]
        exact ⟨entry, hentry, congrArg Handle.subscription heq.symm⟩
      rw [rights, find?_subscribe hdistinct, hnone]
      rfl
  | effect other k cells =>
    cases h with
    | subscription name => rfl
    | effect name =>
      have hne : name ≠ other := by
        rintro rfl
        exact hmade (List.mem_singleton_self _)
      simp only [rights, enlist]
      rw [Bindings.find?_insert, if_neg hne]
  | use other =>
    have hne : h ≠ other := fun heq => huse (heq ▸ rfl)
    cases other with
    | subscription name =>
      simp only [enlist, performUnsubscribe]
      cases s.subscriptions.find? name with
      | none => rfl
      | some sub =>
        cases h with
        | effect name => rfl
        | subscription other =>
          have hother : other ≠ name := fun heq => hne (congrArg _ heq)
          simp only [rights]
          rw [Bindings.find?_insert, if_neg hother]
    | effect name =>
      simp only [enlist, performDispose]
      cases s.effects.find? name with
      | none => rfl
      | some subscriptions =>
        cases h with
        | subscription name => rfl
        | effect other =>
          have hother : other ≠ name := fun heq => hne (congrArg _ heq)
          simp only [rights]
          rw [Bindings.find?_insert, if_neg hother]

/-- A handle does what the subscriptions behind it do. -/
theorem store_use (s : Session) (h : Handle) :
    (s.enlist (.use h)).store =
      (unsubscribeEach s.store ((s.rights h).getD [])).2 := by
  cases h with
  | subscription name =>
    simp only [enlist, rights, performUnsubscribe]
    cases s.subscriptions.find? name <;> rfl
  | effect name =>
    simp only [enlist, rights, performDispose]
    cases s.effects.find? name <;> rfl

/-- Whatever is done to subscribers, no list has its order changed. -/
theorem growsOrShrinks_enlist (s : Session) (e : Enlistment) (c : CellRef) :
    GrowsOrShrinks (s.store.cellState c).subscribers
      ((s.enlist e).store.cellState c).subscribers := by
  have hsubscribe : ∀ cells k, GrowsOrShrinks (s.store.cellState c).subscribers
      ((s.store.subscribeEach cells k).1.cellState c).subscribers := by
    intro cells k
    rw [subscribers_subscribeEach]
    split
    · next hnew => exact .inr ⟨k, hnew.2.2, rfl⟩
    · exact .refl _
  cases e with
  | nothing => exact .refl _
  | subscribe k names => exact hsubscribe _ k
  | effect name k cells => exact hsubscribe cells k
  | use h =>
    rw [s.store_use]
    exact .inl (s.store.sublist_unsubscribeEach _ c)
  | clear cells =>
    have hclear : ((s.enlist (.clear cells)).store.cellState c).subscribers = _ :=
      s.store.subscribers_clear cells c
    refine .inl ?_
    rw [hclear]
    split
    · exact List.nil_sublist _
    · exact List.Sublist.refl _

end Session

/-! ### Moves -/

/-- What a session keeps when subscribers and handles are left alone, whatever becomes of passes. -/
structure Session.Undisturbed (s t : Session) : Prop where
  subscribers : ∀ c, (t.store.cellState c).subscribers = (s.store.cellState c).subscribers
  subscriptions : t.subscriptions = s.subscriptions
  effects : t.effects = s.effects

namespace Session.Undisturbed

variable {s t u : Session}

theorem refl (s : Session) : Undisturbed s s := ⟨fun _ => rfl, rfl, rfl⟩

theorem trans (h : Undisturbed s t) (h' : Undisturbed t u) : Undisturbed s u where
  subscribers := fun c => (h'.subscribers c).trans (h.subscribers c)
  subscriptions := h'.subscriptions.trans h.subscriptions
  effects := h'.effects.trans h.effects

theorem rights (h : Undisturbed s t) (handle : Handle) : t.rights handle = s.rights handle := by
  cases handle with
  | subscription name => rw [Session.rights, Session.rights, h.subscriptions]
  | effect name => rw [Session.rights, Session.rights, h.effects]

theorem of_steady (h : s.Steady t) : Undisturbed s t :=
  ⟨h.serves.subscribers, h.subscriptions, h.effects⟩

end Session.Undisturbed

namespace Machine

open Session Store

variable {m m' : Machine}

/-- What the next move does to subscribers. -/
def enlistment (m : Machine) : Enlistment :=
  match m.stack with
  | .steps _ (.act action :: _) :: _ => m.pin.session.enlistment action
  | .effect name k cells :: _ => .effect name k cells
  | _ => .nothing

theorem distinct_enlistment (m : Machine) : m.enlistment.Distinct := by
  unfold enlistment
  split
  · exact (Session.allows_enlistment _ _).distinct
  · trivial
  · trivial

theorem undisturbed_onStore (m : Machine) {f : Store → Store}
    (hf : ∀ c, ((f m.store).cellState c).subscribers = (m.store.cellState c).subscribers) :
    m.session.Undisturbed (m.onStore f).session :=
  ⟨hf, rfl, rfl⟩

theorem undisturbed_pin (m : Machine) : m.session.Undisturbed m.pin.session :=
  ⟨fun _ => rfl, rfl, rfl⟩

theorem undisturbed_collectNotices (m : Machine) :
    m.session.Undisturbed m.collectNotices.session :=
  ⟨fun _ => rfl, rfl, rfl⟩

theorem undisturbed_letGo (m : Machine) (lost : List Entity) :
    m.session.Undisturbed (m.letGo lost).session :=
  m.undisturbed_pin.trans
    (m.pin.undisturbed_onStore (Store.evaluates_letGo _ _ _).serves.subscribers)

theorem undisturbed_answer (m : Machine) (r : Report) :
    m.session.Undisturbed (m.answer r).session := by
  simp only [answer]
  split <;> exact m.undisturbed_collectNotices

theorem undisturbed_call (m : Machine) (k : CallbackRef) :
    m.session.Undisturbed (m.call k).session := by
  unfold call
  split
  · exact .refl _
  · dsimp only
    split <;> exact ⟨fun _ => rfl, rfl, rfl⟩

theorem undisturbed_startPass (m : Machine) (c : CellRef) :
    m.session.Undisturbed (m.startPass c).session := by
  have hstart : m.session.Undisturbed (m.onStore fun store => store.startPass c).session :=
    m.undisturbed_onStore fun d => m.store.subscribers_modifyCell c d fun _ => rfl
  unfold startPass
  split
  · exact .refl _
  · exact hstart

theorem undisturbed_finishPass (m : Machine) (c : CellRef) :
    m.session.Undisturbed (m.finishPass c).session := by
  have hfinish : m.session.Undisturbed (m.onStore fun store => store.finishPass c).session :=
    m.undisturbed_onStore fun d => m.store.subscribers_finishPass c d
  exact hfinish.trans ((undisturbed_letGo _ [.cell c]).trans (undisturbed_collectNotices _))

/-- Of all steps only actions touch subscribers, when they begin. -/
theorem undisturbed_begin (m : Machine) {step : Step} (hstep : ∀ action, step ≠ .act action) :
    m.session.Undisturbed (m.begin step).session := by
  cases step with
  | act action => exact absurd rfl (hstep action)
  | callback name steps times =>
    have hbind : m.session.Undisturbed
        (m.session.bindCallback { name, steps, remaining := times }) :=
      ⟨fun _ => rfl, rfl, rfl⟩
    exact hbind.trans (undisturbed_answer
      { m with session := m.session.bindCallback { name, steps, remaining := times } } .done)
  | call callback =>
    simp only [begin]
    split
    · next k _ => exact (m.push (.report .done)).undisturbed_call k
    · exact m.undisturbed_answer _
  | effect name callback cells =>
    simp only [begin]
    split
    · next k _ =>
      exact (m.push (.effect name k (m.session.cellsNamed cells))).undisturbed_call k
    · exact m.undisturbed_answer _
  | drain queue => exact .refl _
  | tick => exact ⟨fun _ => rfl, rfl, rfl⟩

/-- A move does what it does to subscribers, and nothing else to them. -/
def Enlists (m m' : Machine) : Prop :=
  ∃ u, m.session.Undisturbed u ∧ (u.enlist m.enlistment).Undisturbed m'.session

theorem Enlists.of_undisturbed (hnothing : m.enlistment = .nothing)
    (h : m.session.Undisturbed m'.session) : m.Enlists m' :=
  ⟨m'.session, h, by rw [hnothing]; exact .refl _⟩

theorem enlists_act (m : Machine) (hm : m.session.Sound) (action : Action) :
    ∃ u, m.session.Undisturbed u ∧
      (u.enlist (m.pin.session.enlistment action)).Undisturbed (m.act action).session := by
  have hpin : m.session.Becomes m.pin.session :=
    m.becomes_onStore (Hosts.by (.pin m.roots) trivial)
  obtain ⟨u, hbefore, hafter⟩ := enlists_perform (hpin.sound hm) action
  refine ⟨u, m.undisturbed_pin.trans (.of_steady hbefore), ?_⟩
  exact (Undisturbed.of_steady hafter).trans
    ((undisturbed_letGo { m with session := (m.pin.session.perform action).1 } _).trans
      (undisturbed_answer _ _))

/-- The step that begins does what it does to subscribers; those after it wait. -/
theorem enlists_step (hm : m.session.Sound) {rest : List Activity} {callback : Option String}
    {step : Step} {steps : List Step} (hstack : m.stack = .steps callback (step :: steps) :: rest) :
    m.Enlists ({ m with stack := .steps callback steps :: rest }.begin step) := by
  cases step
  case act action =>
    -- the step that is taken from the stack keeps nothing from being let go
    have hroots : { m with stack := .steps callback steps :: rest }.roots = m.roots := by
      simp only [roots, hstack, List.flatMap_cons]
      rfl
    have hpin : { m with stack := .steps callback steps :: rest }.pin.session = m.pin.session := by
      simp only [pin, onStore, hroots]
    have hact := enlists_act { m with stack := .steps callback steps :: rest } hm action
    rw [hpin] at hact
    rw [Enlists, enlistment, hstack]
    exact hact
  all_goals
    refine .of_undisturbed (by rw [enlistment, hstack]) ?_
    refine undisturbed_begin { m with stack := .steps callback steps :: rest } ?_
    intro action h
    cases h

/-- Every move does to subscribers and handles what can be read off what is under way. -/
theorem move_enlists (hm : m.Sound) (h : m.move = some m') : m.Enlists m' := by
  unfold move at h
  split at h
  · cases h
  · next a rest hstack =>
    cases h
    -- one case for each kind of activity that can be innermost
    cases a with
    | steps callback steps =>
      cases steps with
      | nil => exact .of_undisturbed (by rw [enlistment, hstack]) (.refl _)
      | cons step steps => exact enlists_step hm.session hstack
    | report r =>
      exact .of_undisturbed (by rw [enlistment, hstack])
        (undisturbed_answer { m with stack := rest } r)
    | effect name k cells =>
      -- the cells are let go afterwards, which takes nobody out of their lists
      refine ⟨m.session, .refl _, ?_⟩
      rw [enlistment, hstack]
      exact (undisturbed_letGo ({ m with stack := rest }.enlist name k cells) _).trans
        (undisturbed_answer _ _)
    | pass c waiting =>
      refine .of_undisturbed (by rw [enlistment, hstack]) ?_
      cases waiting with
      | nil => exact undisturbed_finishPass { m with stack := rest } c
      | cons k waiting =>
        simp only [advance, callIfSubscribed]
        split
        · exact undisturbed_call { m with stack := .pass c waiting :: rest } k
        · exact .refl _
    | drain q started =>
      refine .of_undisturbed (by rw [enlistment, hstack]) ?_
      simp only [advance]
      split
      · exact undisturbed_answer { m with stack := rest } _
      · next c others _ =>
        have htaken : m.session.Undisturbed
            (m.onStore fun store => store.modifyQueue q fun _ => others).session :=
          ⟨fun _ => rfl, rfl, rfl⟩
        exact htaken.trans (undisturbed_startPass (({ m with stack := rest }.onStore fun store =>
          store.modifyQueue q fun _ => others).push (.drain q (started + 1))) c)
    | tick tasks started =>
      refine .of_undisturbed (by rw [enlistment, hstack]) ?_
      cases tasks with
      | nil => exact undisturbed_answer { m with stack := rest } _
      | cons c others =>
        exact undisturbed_startPass { m with stack := .tick others (started + 1) :: rest } c

end Machine

end LiveMarkup
