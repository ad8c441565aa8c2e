import LiveMarkup.Session.Perform

/-!
# Running steps

Steps of a host, steps of callbacks, passes of cells and the draining of queues interrupt each
other: a callback may drain a queue from inside a pass.  What is under way is a stack of activities,
the innermost first, and each move of the machine carries the innermost one a little further.

## Main definitions

* `Activity` — something under way.
* `Machine` — a session with what is under way and what has been answered.
* `Machine.move` — one move.
* `Machine.settle` — moves until nothing is under way.
-/

namespace LiveMarkup

/-- Something under way. -/
inductive Activity
  /-- Steps to be done, by a callback or, without a name, by the host. -/
  | steps (callback : Option String) (rest : List Step)
  /-- A step whose report is ready. -/
  | report (r : Report)
  /-- An effect whose callback has been called for the first time and is to be subscribed. -/
  | effect (name : String) (callback : CallbackRef) (cells : List CellRef)
  /-- A pass of a cell, with the subscribers whose turn is still to come. -/
  | pass (c : CellRef) (waiting : List CallbackRef)
  /-- The draining of a queue, with the number of passes started. -/
  | drain (queue : QueueRef) (started : Nat)
  /-- The run of passes taken from the host's executor, with the number of them started. -/
  | tick (tasks : List CellRef) (started : Nat)
  deriving Inhabited

/-- What an activity keeps from being let go. -/
def Activity.roots : Activity → List Entity
  | .effect _ _ cells => cells.map .cell
  | .pass c _ => [.cell c]
  | _ => []

/-- A session at work. -/
structure Machine where
  session : Session := {}
  /-- What is under way, the innermost first. -/
  stack : List Activity := []
  /-- What has happened since the last answer to the host. -/
  log : List Event := []
  /-- The answers to the steps of the host, each with what happened meanwhile. -/
  answers : List (Report × List Event) := []
  deriving Inhabited

namespace Machine

/-- The store. -/
def store (m : Machine) : Store := m.session.store

/-- Changes the store. -/
def onStore (m : Machine) (f : Store → Store) : Machine := { m with session := m.session.onStore f }

/-- Puts an activity on the stack. -/
def push (m : Machine) (a : Activity) : Machine := { m with stack := a :: m.stack }

/-- Takes events down. -/
def logAll (m : Machine) (events : List Event) : Machine := { m with log := m.log ++ events }

/-- What the names and what is under way refer to. -/
def roots (m : Machine) : List Entity := m.session.roots ++ m.stack.flatMap Activity.roots

/-- Pins what the names and what is under way refer to. -/
def pin (m : Machine) : Machine := m.onStore fun store => { store with pinned := m.roots }

/-- Takes down what has happened in the store. -/
def collectNotices (m : Machine) : Machine :=
  (m.logAll (m.store.notices.map .notice)).onStore fun store => { store with notices := [] }

/-- Gives up references, in order. -/
def letGo (m : Machine) (lost : List Entity) : Machine :=
  m.pin.onStore fun store => store.letGo [] lost

/-- Gives a report to whoever does the step, with what has happened before it. -/
def answer (m : Machine) (r : Report) : Machine :=
  let m := m.collectNotices
  match m.stack with
  | .steps (some callback) _ :: _ => m.logAll [.done callback r]
  | _ => { m with answers := m.answers ++ [(r, m.log)], log := [] }

/-! ### Callbacks and passes -/

/-- Puts a callback that has been called in the place of what it was before. -/
def countCall (m : Machine) (k : CallbackRef) (callback : Callback) : Machine :=
  { m with session.callbacks := m.session.callbacks.setIfInBounds k.id callback }

/-- Calls a callback. -/
def call (m : Machine) (k : CallbackRef) : Machine :=
  match m.session.callbacks[k.id]? with
  | none => m
  | some callback =>
    let m := m.logAll [.call callback.name]
    match callback.remaining with
    | 0 => m
    | n + 1 =>
      (m.countCall k { callback with remaining := n }).push
        (.steps (some callback.name) callback.steps)

/-- Starts a pass of a cell.  For a cell that is gone there is nothing to do. -/
def startPass (m : Machine) (c : CellRef) : Machine :=
  if m.store.isGone (.cell c) then m
  else (m.onStore fun store => store.startPass c).push (.pass c (m.store.cellState c).subscribers)

/-- Ends a pass of a cell: the streams are told, and the pass no longer holds the cell. -/
def finishPass (m : Machine) (c : CellRef) : Machine :=
  ((m.onStore fun store => store.finishPass c).letGo [.cell c]).collectNotices

/-- Calls a waiting subscriber if it is still subscribed. -/
def callIfSubscribed (m : Machine) (c : CellRef) (k : CallbackRef) : Machine :=
  if m.store.isSubscribed c k then m.call k else m

/-- Subscribes the callback of an effect to its cells. -/
def enlist (m : Machine) (name : String) (k : CallbackRef) (cells : List CellRef) : Machine :=
  let (store, subscriptions) := m.store.subscribeEach cells k
  { m with session.store := store
           session.effects := m.session.effects.insert name subscriptions }

/-! ### Steps -/

/-- Does an action.  What it has left without a reference goes before the report. -/
def act (m : Machine) (action : Action) : Machine :=
  let before := m.pin.session
  let (session, r) := before.perform action
  ({ m with session }.letGo (before.lost session)).answer r

/-- Begins a step. -/
def begin (m : Machine) : Step → Machine
  | .act action => m.act action
  | .callback name steps times =>
    { m with session := m.session.bindCallback { name, steps, remaining := times } }.answer .done
  | .call callback =>
    match m.session.callbackNames.find? callback with
    | some k => (m.push (.report .done)).call k
    | none => m.answer (.refused (.unknown callback))
  | .effect name callback cells =>
    match m.session.callbackNames.find? callback with
    | some k => (m.push (.effect name k (m.session.cellsNamed cells))).call k
    | none => m.answer (.refused (.unknown callback))
  | .drain queue => m.push (.drain (m.session.queue queue) 0)
  | .tick => (m.onStore fun store => { store with spawned := [] }).push (.tick m.store.spawned 0)

/-- Carries an activity, which has been taken from the stack, a little further. -/
def advance (m : Machine) : Activity → Machine
  | .steps _ [] => m
  | .steps callback (step :: rest) => (m.push (.steps callback rest)).begin step
  | .report r => m.answer r
  | .effect name k cells => ((m.enlist name k cells).letGo (cells.map .cell)).answer .done
  | .pass c [] => m.finishPass c
  | .pass c (k :: waiting) => (m.push (.pass c waiting)).callIfSubscribed c k
  | .drain queue started =>
    match m.store.queue queue with
    | [] => m.answer (.count started)
    | c :: rest =>
      ((m.onStore fun store => store.modifyQueue queue fun _ => rest).push
        (.drain queue (started + 1))).startPass c
  | .tick [] started => m.answer (.count started)
  | .tick (c :: rest) started => (m.push (.tick rest (started + 1))).startPass c

/-- One move: the innermost activity is carried a little further.  There is none once nothing is
under way. -/
def move (m : Machine) : Option Machine :=
  match m.stack with
  | [] => none
  | a :: stack => some ({ m with stack }.advance a)

/-- Moves until nothing is under way, for at most so many moves. -/
def settle : Nat → Machine → Machine
  | 0, m => m
  | moves + 1, m =>
    match m.move with
    | some m => settle moves m
    | none => m

/-- A machine about to do the steps of a host. -/
def ofSteps (session : Session) (steps : List Step) : Machine :=
  { session, stack := [.steps none steps] }

end Machine

end LiveMarkup
