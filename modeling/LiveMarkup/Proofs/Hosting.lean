import LiveMarkup.Proofs.CellHistory
import LiveMarkup.Proofs.Enlistment
import LiveMarkup.Proofs.Evaluation

/-!
# What an action does to a session

A host makes more kinds of change than a text: it makes cells and queues, subscribes callbacks and
reads streams.  Every action is made of such changes, subscribes no callback but one that there is,
and gives a new cell no queue but one that there is.  It touches subscribers and handles at one
point at most, where it does what can be read off it before.

## Main definitions

* `hosting`, `Store.Hosts` — the changes that a host makes.
* `serving`, `Store.Serves` — those of them that leave all subscribers alone.
* `Session.Sound` — a session whose names stand for queues and callbacks that there are.
* `Session.Becomes` — what a session keeps when actions are done.
* `Session.Steady`, `Session.Enlists` — what it keeps apart from what is done to subscribers.

## Main results

* `Session.enlists_perform` — every action does what it does to subscribers, and nothing else to
  them.
* `Session.becomes_perform` — what every action keeps.
* `Session.Becomes.sound` — a sound session stays sound.
-/

namespace LiveMarkup

open Eval Syntax

/-- The permission to make the changes that a host makes when there are so many callbacks. -/
def hosting (callbacks : Nat) (s : Store) : Change → Prop
  | .newCell _ (.queue q) => q = defaultQueue ∨ q.id < s.queues.size
  | .subscribe _ k => k.id < callbacks
  | _ => True

/-- The permission to make those changes of a host that leave all subscribers alone. -/
def serving (s : Store) : Change → Prop
  | .newCell _ (.queue q) => q = defaultQueue ∨ q.id < s.queues.size
  | .subscribe _ _ | .unsubscribe _ _ | .unsubscribeAll _ => False
  | _ => True

namespace Store

/-- A store that comes from another by changes that a host makes. -/
abbrev Hosts (callbacks : Nat) : Store → Store → Prop := Leads (hosting callbacks)

/-- A store that comes from another by changes that leave all subscribers alone. -/
abbrev Serves : Store → Store → Prop := Leads serving

variable {n : Nat} {s t : Store}

theorem Hosts.by (x : Change) (h : hosting n s x) : s.Hosts n (s.apply x) :=
  Leads.single h

theorem Serves.by (x : Change) (h : serving s x) : s.Serves (s.apply x) :=
  Leads.single h

theorem Serves.hosts (h : s.Serves t) : s.Hosts n t := by
  refine h.mono fun s x hx => ?_
  cases x
  case newCell v scheduler =>
    cases scheduler
    all_goals exact hx
  case subscribe => exact hx.elim
  all_goals trivial

theorem Evaluates.serves (h : s.Evaluates t) : s.Serves t := by
  refine h.mono fun s x hx => ?_
  -- texts make no cells and subscribe nobody
  cases x <;> first | exact hx.elim | trivial

theorem Evaluates.hosts (h : s.Evaluates t) : s.Hosts n t := h.serves.hosts

end Store

open Store

variable {n : Nat}

/-! ### Values described -/

namespace Recipe

theorem serves_newStandardCell (s : Store) (v : Value) :
    s.Serves (s.newCell v (.queue defaultQueue)).1 :=
  Serves.by (.newCell v (.queue defaultQueue)) (.inl rfl)

mutual

/-- To make a value described is what a host does. -/
theorem serves_build (names : Bindings Value) (s : Store) (recipe : Recipe) :
    s.Serves (build names s recipe).1 := by
  cases recipe with
  | array items =>
    exact (serves_buildItems names s items).trans (evaluates_newArray _ _).serves
  | object entries =>
    exact (serves_buildEntries names s entries).trans (evaluates_newObject _ _).serves
  | cell held => exact (serves_build names s held).trans (serves_newStandardCell _ _)
  | function f => exact Serves.by (.newHostFunction f) trivial
  | _ => exact .refl s

theorem serves_buildItems (names : Bindings Value) (s : Store) (items : List Recipe) :
    s.Serves (buildItems names s items).1 := by
  cases items with
  | nil => exact .refl s
  | cons item rest => exact (serves_build names s item).trans (serves_buildItems names _ rest)

theorem serves_buildEntries (names : Bindings Value) (s : Store)
    (entries : List (String × Recipe)) : s.Serves (buildEntries names s entries).1 := by
  match entries with
  | [] => exact .refl s
  | (_, item) :: rest =>
    exact (serves_build names s item).trans (serves_buildEntries names _ rest)

end

theorem serves_buildContext (names : Bindings Value) (s : Store)
    (entries : List (String × Recipe)) : s.Serves (buildContext names s entries).1 := by
  have hbind : s.Serves (bindEach names s entries).1 := by
    induction entries generalizing names s with
    | nil => exact .refl s
    | cons entry rest ih => exact (serves_build names s entry.2).trans (ih _ _)
  exact hbind

end Recipe

/-! ### Scopes -/

namespace Scope

theorem serves_cellFor (s : Store) (v : Value) : s.Serves (cellFor s v).1 := by
  unfold cellFor
  split
  · exact .refl s
  · exact Recipe.serves_newStandardCell s _

theorem serves_extend (s : Store) (scope : Scope) (values : List (String × Value)) :
    s.Serves (extend s scope values).1 := by
  induction values generalizing s scope with
  | nil => exact .refl s
  | cons entry rest ih => exact (serves_cellFor s entry.2).trans (ih _ _)

theorem serves_build (s : Store) (values : List (String × Value)) :
    s.Serves (build s values).1 :=
  serves_extend s _ values

theorem serves_context (scope : Scope) (s : Store) : s.Serves (scope.context s).1 :=
  (s.evaluates_newObject _).serves

end Scope

/-! ### Interpreters -/

namespace Interpreter

variable (i : Interpreter) (s : Store)

theorem serves_runIn (source : String) (context : Context) (mode : Mode) (manner : Manner) :
    s.Serves (i.runIn s source context mode manner).2.1 :=
  (Store.evaluates_of_makes (i.makes_runIn s source context mode manner)).serves

theorem serves_run (source : String) (context : Context) (mode : Mode) :
    s.Serves (i.run s source context mode).2.1 :=
  i.serves_runIn s source context mode .raw

theorem serves_runRead (source : String) (context : Context) (mode : Mode) :
    s.Serves (i.runRead s source context mode).2.1 :=
  i.serves_runIn s source context mode .read

theorem serves_cellsBehind (context : Context) (found : CellSet) (names : List String) :
    s.Serves (i.cellsBehind s context found names).2.1 := by
  induction names generalizing i s found with
  | nil => exact .refl s
  | cons name rest ih =>
    have hrun := i.serves_run s name context .expression
    simp only [cellsBehind, evaluateRaw]
    split
    · next heq =>
      rw [heq] at hrun
      exact hrun.trans (ih _ _ _)
    · next heq =>
      rw [heq] at hrun
      exact hrun.trans (ih _ _ _)

theorem serves_dependencies (source : String) (scope : Scope) :
    s.Serves (i.dependencies s source scope).2.1 := by
  simp only [dependencies]
  split
  · exact .refl s
  · exact (scope.serves_context s).trans (serves_cellsBehind _ _ _ _ _)

theorem serves_scopeOfState (v : Value) : s.Serves (scopeOfState s v).1 := by
  unfold scopeOfState
  split
  · exact Scope.serves_build s _
  · exact .refl s

theorem serves_parseState (text : String) : s.Serves (i.parseState s text).2.1 := by
  unfold parseState
  split
  · exact .refl s
  · have hrun := i.serves_runRead s (Text.trimmed text) .empty .expression
    simp only [evaluate]
    split
    · next heq =>
      rw [heq] at hrun
      exact hrun.trans (serves_scopeOfState _ _)
    · next heq =>
      rw [heq] at hrun
      exact hrun

end Interpreter

/-! ### Sessions -/

namespace Session

variable {s t u : Session} {e : Enlistment}

/-- A session whose names stand for queues and callbacks that there are. -/
structure Sound (s : Session) : Prop where
  queues : ∀ name q, s.queues.find? name = some q → q.id < s.store.queues.size
  callbacks : ∀ name k, s.callbackNames.find? name = some k → k.id < s.callbacks.size

/-- What a session keeps when something is done to it. -/
structure Becomes (s t : Session) : Prop where
  store : s.store.Hosts t.callbacks.size t.store
  /-- Callbacks stay, and keep their names. -/
  callbacks : ∀ (i : Nat) (callback : Callback), s.callbacks[i]? = some callback →
    ∃ later : Callback, t.callbacks[i]? = some later ∧ later.name = callback.name
  sound : s.Sound → t.Sound

namespace Becomes

theorem callbacks_size_le (h : Becomes s t) : s.callbacks.size ≤ t.callbacks.size := by
  refine Nat.le_of_not_lt fun hlt => ?_
  obtain ⟨later, hlater, -⟩ := h.callbacks t.callbacks.size _ (Array.getElem?_eq_getElem hlt)
  rw [Array.getElem?_eq_none (Nat.le_refl _)] at hlater
  cases hlater

theorem trans (h : Becomes s t) (h' : Becomes t u) : Becomes s u where
  store := by
    refine (h.store.mono fun s x hx => ?_).trans h'.store
    -- whoever could be subscribed earlier can be later
    cases x
    case subscribe => exact Nat.lt_of_lt_of_le hx h'.callbacks_size_le
    case newCell v scheduler =>
      cases scheduler
      all_goals exact hx
    all_goals trivial
  callbacks := fun i callback hi => by
    obtain ⟨later, hlater, hname⟩ := h.callbacks i callback hi
    obtain ⟨last, hlast, hname'⟩ := h'.callbacks i later hlater
    exact ⟨last, hlast, hname'.trans hname⟩
  sound := fun hs => h'.sound (h.sound hs)

/-- Nothing but the store and what no pass needs has changed. -/
theorem of_store (hstore : s.store.Hosts s.callbacks.size t.store)
    (hcallbacks : t.callbacks = s.callbacks) (hnames : t.callbackNames = s.callbackNames)
    (hqueues : t.queues = s.queues) : Becomes s t where
  store := by rwa [hcallbacks]
  callbacks := fun i callback hi => ⟨callback, by rwa [hcallbacks], rfl⟩
  sound := fun hs => by
    refine ⟨fun name q hq => ?_, fun name k hk => ?_⟩
    · rw [hqueues] at hq
      exact Nat.lt_of_lt_of_le (hs.queues name q hq) hstore.queues_size_le
    · rw [hnames] at hk
      rw [hcallbacks]
      exact hs.callbacks name k hk

theorem refl (s : Session) : Becomes s s := of_store (.refl _) rfl rfl rfl

end Becomes

/-- What the names stand for that passes, subscriptions and effects need. -/
def register (s : Session) : Array Callback × Bindings CallbackRef × Bindings QueueRef ×
    Bindings Subscription × Bindings (List Subscription) :=
  (s.callbacks, s.callbackNames, s.queues, s.subscriptions, s.effects)

/-- What a session keeps when subscribers and handles are left alone. -/
structure Steady (s t : Session) : Prop extends Becomes s t where
  serves : s.store.Serves t.store
  subscriptions : t.subscriptions = s.subscriptions
  effects : t.effects = s.effects

namespace Steady

theorem trans (h : Steady s t) (h' : Steady t u) : Steady s u where
  toBecomes := h.toBecomes.trans h'.toBecomes
  serves := h.serves.trans h'.serves
  subscriptions := h'.subscriptions.trans h.subscriptions
  effects := h'.effects.trans h.effects

/-- Nothing but the store and names of other things has changed. -/
theorem of_store (hstore : s.store.Serves t.store) (hsame : t.register = s.register) :
    Steady s t where
  toBecomes := .of_store hstore.hosts (congrArg (·.1) hsame) (congrArg (·.2.1) hsame)
    (congrArg (·.2.2.1) hsame)
  serves := hstore
  subscriptions := congrArg (·.2.2.2.1) hsame
  effects := congrArg (·.2.2.2.2) hsame

theorem refl (s : Session) : Steady s s := of_store (.refl _) rfl

end Steady

/-- Something is done to subscribers and handles, and before and after it they are left alone. -/
def Enlists (s : Session) (e : Enlistment) (t : Session) : Prop :=
  ∃ u, s.Steady u ∧ (u.enlist e).Steady t

namespace Enlists

theorem trans (h : s.Enlists e t) (h' : t.Steady u) : s.Enlists e u := by
  obtain ⟨v, hbefore, hafter⟩ := h
  exact ⟨v, hbefore, hafter.trans h'⟩

/-- Nothing else is done. -/
theorem exact (s : Session) (e : Enlistment) : s.Enlists e (s.enlist e) :=
  ⟨s, .refl s, .refl _⟩

end Enlists

theorem Steady.enlists (h : s.Steady t) : s.Enlists .nothing t := ⟨t, h, .refl t⟩

/-! ### Making -/

theorem steady_make (s : Session) (recipe : Recipe) : s.Steady (s.make recipe).1 :=
  .of_store (Recipe.serves_build _ _ _) rfl

theorem steady_makeAll (s : Session) (recipes : List Recipe) : s.Steady (s.makeAll recipes).1 :=
  .of_store (Recipe.serves_buildItems _ _ _) rfl

theorem steady_makeEntries (s : Session) (entries : List (String × Recipe)) :
    s.Steady (s.makeEntries entries).1 :=
  .of_store (Recipe.serves_buildEntries _ _ _) rfl

theorem steady_makeContext (s : Session) (entries : List (String × Recipe)) :
    s.Steady (s.makeContext entries).1 :=
  .of_store (Recipe.serves_buildContext _ _ _) rfl

/-! ### Cells -/

theorem evaluates_written (s : Store) (target : Value) (key : String) (v : Value) :
    s.Evaluates (written s target key v) := by
  unfold written
  split
  · next h => exact Store.evaluates_setProperty h
  · exact .refl s

theorem evaluates_pushed (s : Store) (target v : Value) : s.Evaluates (pushed s target v) := by
  unfold pushed
  split
  · exact s.evaluates_setItems _ _
  · exact .refl s

theorem evaluates_afterEdit (s : Store) (c : CellRef) (current next : Value) (flag : Option Bool) :
    s.Evaluates (afterEdit s c current next flag) := by
  have hedit : ∀ edited, s.Evaluates (s.afterEdit c current next edited) := fun edited => by
    unfold Store.afterEdit
    split
    · split
      · exact s.evaluates_trigger c
      · exact .refl s
    · exact s.evaluates_setCell c next
  cases flag with
  | none => exact hedit _
  | some flag => exact hedit flag

theorem steady_applyEdit (s : Session) (current : Value) (edit : Edit) :
    s.Steady (s.applyEdit current edit).1 := by
  cases edit with
  | keep => exact .refl s
  | replace recipe => exact s.steady_make recipe
  | assign key recipe =>
    exact (s.steady_make recipe).trans (.of_store (evaluates_written _ _ _ _).serves rfl)
  | push recipe =>
    exact (s.steady_make recipe).trans (.of_store (evaluates_pushed _ _ _).serves rfl)
  | assignWithin outer key recipe =>
    exact (s.steady_make recipe).trans (.of_store (evaluates_written _ _ _ _).serves rfl)

theorem steady_performEdit (s : Session) (c : CellRef) (edit : Edit) (flag : Option Bool) :
    s.Steady (s.performEdit c edit flag).1 :=
  (s.steady_applyEdit _ edit).trans (.of_store (evaluates_afterEdit _ _ _ _ _).serves rfl)

theorem steady_performWrite (s : Session) (c : CellRef) (key : String) (recipe : Recipe)
    (report : Option PropertyError → Report) :
    s.Steady (s.performWrite c key recipe report).1 := by
  simp only [performWrite]
  split
  · next h =>
    exact (s.steady_make recipe).trans
      (.of_store (Store.evaluates_setCellProperty h).serves rfl)
  · exact s.steady_make recipe

theorem enlists_performSubscribe (s : Session) (c : CellRef) (callback subscription : String) :
    s.Enlists (s.subscribing callback [(subscription, c)])
      (s.performSubscribe c callback subscription).1 := by
  unfold performSubscribe subscribing
  cases s.callbackNames.find? callback with
  | some k => exact .exact s (.subscribe k [(subscription, c)])
  | none => exact (Steady.refl s).enlists

theorem steady_dropStream (s : Session) (name : String) : s.Steady (s.dropStream name) := by
  unfold dropStream
  split
  · next r _ => exact .of_store (Serves.by (.stopReading r) trivial) rfl
  · exact .refl s

theorem steady_performListen (s : Session) (c : CellRef) (stream : String) :
    s.Steady (s.performListen c stream).1 :=
  (s.steady_dropStream stream).trans (.of_store (Serves.by (.listen c) trivial) rfl)

theorem enlists_performCell (s : Session) (c : CellRef) (action : CellAction) :
    s.Enlists (s.cellEnlistment c action) (s.performCell c action).1 := by
  cases action with
  | set recipe =>
    exact Steady.enlists ((s.steady_make recipe).trans
      (.of_store (Store.evaluates_setCell _ _ _).serves rfl))
  | trigger => exact Steady.enlists (.of_store (s.store.evaluates_trigger c).serves rfl)
  | setProperty key recipe => exact (s.steady_performWrite c key recipe _).enlists
  | trySetProperty key recipe => exact (s.steady_performWrite c key recipe _).enlists
  | edit edit flag => exact (s.steady_performEdit c edit flag).enlists
  | subscribe callback subscription => exact s.enlists_performSubscribe c callback subscription
  | unsubscribeAll => exact .exact s (.clear [c])
  | changes stream => exact (s.steady_performListen c stream).enlists
  | _ => exact (Steady.refl s).enlists

/-! ### Scopes -/

theorem steady_performInsert (s : Session) (name variableName cell : String) :
    s.Steady (s.performInsert name variableName cell).1 := by
  unfold performInsert
  split
  · exact .refl s
  · exact .of_store (.refl _) rfl

theorem steady_performLookup (s : Session) (scope : Scope) (variableName : String)
    (bindAs : Option String) : s.Steady (s.performLookup scope variableName bindAs).1 := by
  unfold performLookup
  split
  · exact .refl s
  · cases bindAs with
    | none => exact .refl s
    | some name => exact .of_store (.refl _) rfl

theorem enlists_performScope (s : Session) (name : String) (action : ScopeAction) :
    s.Enlists (s.scopeEnlistment name action) (s.performScope name action).1 := by
  cases action with
  | create entries =>
    exact Steady.enlists
      ((s.steady_makeEntries entries).trans (.of_store (Scope.serves_build _ _) rfl))
  | ofObject recipe =>
    refine Steady.enlists ((s.steady_make recipe).trans (.of_store ?_ rfl))
    show Serves _ (scopeOf _ _).1
    unfold scopeOf
    split
    · exact Scope.serves_build _ _
    · exact .refl _
  | child parent => exact Steady.enlists (.of_store (.refl _) rfl)
  | describe => exact (Steady.refl s).enlists
  | insert variableName cell => exact (s.steady_performInsert name variableName cell).enlists
  | get variableName bindAs => exact (s.steady_performLookup _ variableName bindAs).enlists
  | context => exact Steady.enlists (.of_store (Scope.serves_context _ _) rfl)
  | dispose => exact .exact s (.clear (s.scope name).values)

/-! ### Interpreters -/

/-- Subscribing to several cells is one enlistment, under the names that are numbered. -/
theorem enlists_subscribeAll (s : Session) (cells : List CellRef) (callback name : String) :
    s.Enlists (s.subscribing callback (numbered name cells))
      (s.subscribeAll cells callback name).1 := by
  have hcells : (numbered name cells).map Prod.snd = cells := by
    simp [numbered, Function.comp_def]
  unfold subscribeAll subscribing
  cases s.callbackNames.find? callback with
  | some k =>
    refine ⟨s, .refl s, .of_store ?_ ?_⟩
    · rw [enlist, hcells]
      exact .refl _
    · simp only [enlist, register, bindSubscriptions, Store.subscribeEach, numbered, List.map_map,
        List.zipIdx_map]
      rfl
  | none => exact (Steady.refl s).enlists

theorem steady_runContext (s : Session) (scope : Option String)
    (context : List (String × Recipe)) : s.Steady (s.runContext scope context).1 := by
  cases scope with
  | none => exact s.steady_makeContext context
  | some name =>
    have hscope : s.Steady { s with store := ((s.scope name).context s.store).1 } :=
      .of_store (Scope.serves_context _ _) rfl
    exact hscope.trans (steady_makeContext _ context)

theorem steady_spend {α : Type} (s : Session) (store : Store) (hstore : s.store.Serves store)
    (given : List Value) (result : Except α Value) :
    s.Steady ({ s with store }.spend given result) := by
  have hstep : s.Steady { s with store } := .of_store hstore rfl
  refine hstep.trans (.of_store (Evaluates.serves ?_) rfl)
  exact (Store.evaluates_letGo _ _ _).trans (Store.evaluates_letGo _ _ _)

theorem steady_performCreate (s : Session) (old : Interpreter) (capacity : Option Nat)
    (denylist : Option (List String)) (base : Option (List (String × Recipe))) :
    s.Steady (s.performCreate old capacity denylist base).1 := by
  unfold performCreate
  split
  · exact .refl s
  · exact (s.steady_makeContext _).trans (.of_store (.refl _) rfl)

theorem steady_performRun (s : Session) (i : Interpreter) (source : String) (mode : Mode)
    (manner : Manner) (scope : Option String) (context : List (String × Recipe)) :
    s.Steady (s.performRun i source mode manner scope context).1 :=
  (s.steady_runContext scope context).trans
    (steady_spend _ _ (i.serves_runIn _ source _ mode manner) _ _)

theorem steady_performCompile (s : Session) (i : Interpreter) (function source : String)
    (params : List String) (mode : Mode) :
    s.Steady (s.performCompile i function source params mode).1 := by
  unfold performCompile
  split
  · exact .of_store (.refl _) rfl
  · exact .refl s

/-- The cells of a text are found first, which subscribes nobody. -/
theorem enlists_performResolve (s : Session) (i : Interpreter) (source scope : String)
    (subscribe : Option (String × String)) :
    s.Enlists (s.interpreterEnlistment i (.resolve source scope subscribe))
      (s.performResolve i source scope subscribe).1 := by
  have hfound : s.Steady { s with store := (i.dependencies s.store source (s.scope scope)).2.1 } :=
    .of_store (i.serves_dependencies _ _ _) rfl
  cases subscribe with
  | none => exact hfound.enlists
  | some names =>
    obtain ⟨u, hbefore, hafter⟩ := enlists_subscribeAll
      { s with store := (i.dependencies s.store source (s.scope scope)).2.1 }
      (i.dependencies s.store source (s.scope scope)).2.2.cells names.1 names.2
    exact ⟨u, hfound.trans hbefore, hafter⟩

theorem steady_performParseState (s : Session) (i : Interpreter) (scope text : String) :
    s.Steady (s.performParseState i scope text).1 := by
  have hparse := i.serves_parseState s.store text
  unfold performParseState
  split
  · next heq =>
    rw [heq] at hparse
    exact .of_store hparse rfl
  · next heq =>
    rw [heq] at hparse
    exact .of_store hparse rfl

theorem enlists_performInterpreter (s : Session) (i : Interpreter) (action : InterpreterAction) :
    s.Enlists (s.interpreterEnlistment i action) (s.performInterpreter i action).1 := by
  cases action with
  | create capacity denylist base =>
    exact (s.steady_performCreate i capacity denylist base).enlists
  | run source mode manner scope context =>
    exact (s.steady_performRun i source mode manner scope context).enlists
  | compile function source params mode =>
    exact (s.steady_performCompile i function source params mode).enlists
  | resolve source scope subscribe => exact s.enlists_performResolve i source scope subscribe
  | parseState scope text => exact (s.steady_performParseState i scope text).enlists
  | _ => exact (Steady.refl s).enlists

/-! ### Everything -/

theorem steady_performCall (s : Session) (name : String) (args : List Recipe) :
    s.Steady (s.performCall name args).1 := by
  unfold performCall
  split
  · exact .refl s
  · exact (s.steady_makeAll args).trans (steady_spend _ _ (evaluates_call _ _ _).serves _ _)

theorem steady_performCollect (s : Session) (reads : List (String × Bool))
    (collector : Option String) : s.Steady (s.performCollect reads collector).1 := by
  cases collector with
  | none => exact .refl s
  | some name => exact .of_store (.refl _) rfl

theorem serving_newCell (hs : s.Sound) (v : Value) (scheduler : SchedulerName) :
    serving s.store (.newCell v (s.schedulerNamed scheduler)) := by
  cases scheduler with
  | standard => exact .inl rfl
  | spawner => trivial
  | queue name =>
    show s.queue (some name) = defaultQueue ∨ (s.queue (some name)).id < s.store.queues.size
    -- a name that stands for no queue gives the default one
    cases hq : s.queues.find? name with
    | none => exact .inl (by simp [queue, hq])
    | some q => exact .inr (by simpa [queue, hq] using hs.queues name q hq)

theorem steady_performNewCell (hs : s.Sound) (name : String) (recipe : Recipe)
    (scheduler : SchedulerName) : s.Steady (s.performNewCell name recipe scheduler).1 := by
  have hmake := s.steady_make recipe
  exact hmake.trans
    (.of_store (Serves.by (.newCell _ _) (serving_newCell (hmake.sound hs) _ scheduler)) rfl)

theorem steady_performPoll (s : Session) (stream : String) :
    s.Steady (s.performPoll stream).1 := by
  unfold performPoll
  split
  · exact .refl s
  · next r _ => exact .of_store (Serves.by (.poll r stream) trivial) rfl

theorem steady_newQueue (s : Session) (name : String) :
    s.Steady { s with store := s.store.newQueue.1
                      queues := s.queues.insert name s.store.newQueue.2 } where
  store := Hosts.by .newQueue trivial
  callbacks := fun i callback hi => ⟨callback, hi, rfl⟩
  sound := fun hs => by
    refine ⟨fun other q hq => ?_, hs.callbacks⟩
    have hgrown := Store.queues_size_le_apply s.store .newQueue
    rw [Bindings.find?_insert] at hq
    split at hq
    · cases hq
      simp [Store.newQueue]
    · exact Nat.lt_of_lt_of_le (hs.queues other q hq) hgrown
  serves := Serves.by .newQueue trivial
  subscriptions := rfl
  effects := rfl

/-- Every action does what it does to subscribers, and nothing else to them. -/
theorem enlists_perform (hs : s.Sound) (action : Action) :
    s.Enlists (s.enlistment action) (s.perform action).1 := by
  cases action with
  | bind name recipe =>
    exact Steady.enlists ((s.steady_make recipe).trans (.of_store (.refl _) rfl))
  | newCell name recipe scheduler => exact (steady_performNewCell hs name recipe scheduler).enlists
  | drop name => exact Steady.enlists (.of_store (.refl _) rfl)
  | onCell name action =>
    simp only [perform, enlistment]
    cases s.cell? name with
    | some c => exact s.enlists_performCell c action
    | none => exact (Steady.refl s).enlists
  | unsubscribe subscription => exact .exact s (.use (.subscription subscription))
  | disposeEffect effect => exact .exact s (.use (.effect effect))
  | newQueue name => exact (s.steady_newQueue name).enlists
  | poll stream => exact (s.steady_performPoll stream).enlists
  | dropStream stream => exact (s.steady_dropStream stream).enlists
  | onScope name action => exact s.enlists_performScope name action
  | collect reads collector => exact (s.steady_performCollect reads collector).enlists
  | subscribeCollected collector callback subscriptions =>
    exact s.enlists_subscribeAll _ callback subscriptions
  | onInterpreter name action =>
    exact (s.enlists_performInterpreter _ action).trans (.of_store (.refl _) rfl)
  | onSharedInterpreter action =>
    exact (s.enlists_performInterpreter _ action).trans (.of_store (.refl _) rfl)
  | callFunction name args => exact (s.steady_performCall name args).enlists
  | newCache name capacity => exact Steady.enlists (.of_store (.refl _) rfl)
  | onCache name action => exact Steady.enlists (.of_store (.refl _) rfl)
  | _ => exact (Steady.refl s).enlists

/-! ### What enlistments keep -/

theorem hosts_subscribeEach (s : Store) (cells : List CellRef) {k : CallbackRef} (hk : k.id < n) :
    s.Hosts n (s.subscribeEach cells k).1 :=
  Leads.foldl _ (fun _ c => Hosts.by (.subscribe c k) hk) cells s

theorem hosts_unsubscribe (s : Store) (sub : Subscription) : s.Hosts n (sub.unsubscribe s).2 := by
  unfold Subscription.unsubscribe
  split
  · exact .refl s
  · exact Hosts.by (.unsubscribe sub.cell sub.callback) trivial

theorem hosts_unsubscribeEach (s : Store) (subscriptions : List Subscription) :
    s.Hosts n (unsubscribeEach s subscriptions).2 := by
  induction subscriptions generalizing s with
  | nil => exact .refl s
  | cons sub rest ih => exact (hosts_unsubscribe s sub).trans (ih _)

/-- An enlistment of a callback that there is. -/
def Knows (s : Session) : Enlistment → Prop
  | .subscribe k _ | .effect _ k _ => k.id < s.callbacks.size
  | _ => True

theorem becomes_enlist (h : s.Knows e) : s.Becomes (s.enlist e) := by
  cases e with
  | nothing => exact .refl s
  | subscribe k names => exact .of_store (hosts_subscribeEach _ _ h) rfl rfl rfl
  | effect name k cells => exact .of_store (hosts_subscribeEach _ _ h) rfl rfl rfl
  | use handle =>
    cases handle with
    | subscription name =>
      simp only [enlist, performUnsubscribe]
      split
      · exact .refl s
      · exact .of_store (hosts_unsubscribe _ _) rfl rfl rfl
    | effect name =>
      simp only [enlist, performDispose]
      split
      · exact .refl s
      · exact .of_store (hosts_unsubscribeEach _ _) rfl rfl rfl
  | clear cells =>
    exact .of_store (Leads.foldl _ (fun _ c => Hosts.by (.unsubscribeAll c) trivial) _ _)
      rfl rfl rfl

theorem knows_subscribing (hs : s.Sound) (callback : String) (names : List (String × CellRef)) :
    s.Knows (s.subscribing callback names) := by
  unfold subscribing
  split
  · next k hk => exact hs.callbacks _ _ hk
  · trivial

/-- Actions subscribe no callback but one that has a name. -/
theorem Allows.knows (h : s.Allows e) (hs : s.Sound) : s.Knows e := by
  cases h with
  | one callback name c => exact knows_subscribing hs callback _
  | several callback name cells => exact knows_subscribing hs callback _
  | _ => trivial

theorem Knows.becomes (h : s.Knows e) (hst : s.Becomes t) : t.Knows e := by
  cases e
  case subscribe => exact Nat.lt_of_lt_of_le h hst.callbacks_size_le
  case effect => exact Nat.lt_of_lt_of_le h hst.callbacks_size_le
  all_goals trivial

/-- What an action makes of a session. -/
theorem becomes_perform (hs : s.Sound) (action : Action) : s.Becomes (s.perform action).1 := by
  obtain ⟨u, hbefore, hafter⟩ := enlists_perform hs action
  have hknows := ((s.allows_enlistment action).knows hs).becomes hbefore.toBecomes
  exact hbefore.toBecomes.trans ((becomes_enlist hknows).trans hafter.toBecomes)

end Session

end LiveMarkup
