import LiveMarkup.Session.Perform

/-!
# Who is subscribed and by what right

A host subscribes callbacks to cells and gets handles to take them out again: a subscription for one
cell, an effect for several.  Only a few actions touch the subscribers of cells, and what such an
action does to them and to the handles can be read off the action before it is done.

## Main definitions

* `Handle`, `Session.rights` — a handle, and the subscriptions that are behind it.
* `Enlistment`, `Enlistment.made` — what can be done to subscribers, and the handles it makes.
* `Session.enlist` — how it is done.
* `Session.enlistment` — what an action does to subscribers.

## Main results

* `Session.allows_enlistment` — all that actions do to subscribers.
-/

namespace LiveMarkup

/-- What a host holds to take callbacks out of cells again, under its name. -/
inductive Handle
  | subscription (name : String)
  | effect (name : String)
  deriving DecidableEq, Repr

/-- What can be done to the subscribers of cells. -/
inductive Enlistment
  | nothing
  /-- A callback is subscribed to cells, each under the name of a subscription. -/
  | subscribe (k : CallbackRef) (names : List (String × CellRef))
  /-- A callback is subscribed to the cells of an effect. -/
  | effect (name : String) (k : CallbackRef) (cells : List CellRef)
  /-- A handle is used. -/
  | use (handle : Handle)
  /-- All callbacks are taken out of cells. -/
  | clear (cells : List CellRef)
  deriving DecidableEq, Repr

/-- The handles that are made, each with the callback and the cells it is for. -/
def Enlistment.made : Enlistment → List (Handle × CallbackRef × List CellRef)
  | .subscribe k names => names.map fun entry => (.subscription entry.1, k, [entry.2])
  | .effect name k cells => [(.effect name, k, cells)]
  | _ => []

namespace Session

/-- The subscriptions behind a handle. -/
def rights (s : Session) : Handle → Option (List Subscription)
  | .subscription name => (s.subscriptions.find? name).map fun sub => [sub]
  | .effect name => s.effects.find? name

/-- Does something to the subscribers of cells. -/
def enlist (s : Session) : Enlistment → Session
  | .nothing => s
  | .subscribe k names =>
    { s with
      store := (s.store.subscribeEach (names.map Prod.snd) k).1
      subscriptions := s.subscriptions.insertAll
        (names.map fun entry => (entry.1, { cell := entry.2, callback := k })) }
  | .effect name k cells =>
    { s with
      store := (s.store.subscribeEach cells k).1
      effects := s.effects.insert name (s.store.subscribeEach cells k).2 }
  | .use (.subscription name) => (s.performUnsubscribe name).1
  | .use (.effect name) => (s.performDispose name).1
  | .clear cells => s.onStore fun store => cells.foldl (fun store c => store.unsubscribeAll c) store

/-! ### What an action does to subscribers -/

/-- The names that subscriptions to several cells get: one name with `0`, `1`, … after it. -/
def numbered (name : String) (cells : List CellRef) : List (String × CellRef) :=
  cells.zipIdx.map fun entry => (name ++ toString entry.2, entry.1)

/-- Subscribes the callback of a name, if there is one. -/
def subscribing (s : Session) (callback : String) (names : List (String × CellRef)) : Enlistment :=
  match s.callbackNames.find? callback with
  | some k => .subscribe k names
  | none => .nothing

/-- What an action on a cell does to subscribers. -/
def cellEnlistment (s : Session) (c : CellRef) : CellAction → Enlistment
  | .subscribe callback subscription => s.subscribing callback [(subscription, c)]
  | .unsubscribeAll => .clear [c]
  | _ => .nothing

/-- What an action on a scope does to subscribers. -/
def scopeEnlistment (s : Session) (name : String) : ScopeAction → Enlistment
  | .dispose => .clear (s.scope name).values
  | _ => .nothing

/-- What an action on an interpreter does to subscribers. -/
def interpreterEnlistment (s : Session) (i : Interpreter) : InterpreterAction → Enlistment
  | .resolve source scope (some (callback, name)) =>
    s.subscribing callback
      (numbered name (i.dependencies s.store source (s.scope scope)).2.2.cells)
  | _ => .nothing

/-- What an action does to subscribers. -/
def enlistment (s : Session) : Action → Enlistment
  | .onCell name action =>
    match s.cell? name with
    | some c => s.cellEnlistment c action
    | none => .nothing
  | .unsubscribe subscription => .use (.subscription subscription)
  | .disposeEffect effect => .use (.effect effect)
  | .onScope name action => s.scopeEnlistment name action
  | .subscribeCollected collector callback subscriptions =>
    s.subscribing callback (numbered subscriptions (s.collector collector).cells)
  | .onInterpreter name action => s.interpreterEnlistment (s.interpreter name) action
  | .onSharedInterpreter action => s.interpreterEnlistment s.shared action
  | _ => .nothing

/-- All that actions do to subscribers. -/
inductive Allows (s : Session) : Enlistment → Prop
  | nothing : s.Allows .nothing
  | one (callback name : String) (c : CellRef) : s.Allows (s.subscribing callback [(name, c)])
  | several (callback name : String) (cells : List CellRef) :
    s.Allows (s.subscribing callback (numbered name cells))
  | use (handle : Handle) : s.Allows (.use handle)
  | clear (cells : List CellRef) : s.Allows (.clear cells)

theorem allows_interpreterEnlistment (s : Session) (i : Interpreter) (action : InterpreterAction) :
    s.Allows (s.interpreterEnlistment i action) := by
  unfold interpreterEnlistment
  split
  · exact .several _ _ _
  · exact .nothing

theorem allows_enlistment (s : Session) (action : Action) : s.Allows (s.enlistment action) := by
  cases action with
  | onCell name action =>
    simp only [enlistment]
    cases s.cell? name with
    | none => exact .nothing
    | some c =>
      cases action
      case subscribe callback subscription => exact .one callback subscription c
      case unsubscribeAll => exact .clear [c]
      all_goals exact .nothing
  | unsubscribe subscription => exact .use (.subscription subscription)
  | disposeEffect effect => exact .use (.effect effect)
  | onScope name action =>
    cases action
    case dispose => exact .clear (s.scope name).values
    all_goals exact .nothing
  | subscribeCollected collector callback subscriptions => exact .several callback subscriptions _
  | onInterpreter name action => exact s.allows_interpreterEnlistment _ action
  | onSharedInterpreter action => exact s.allows_interpreterEnlistment _ action
  | _ => exact .nothing

end Session

end LiveMarkup
