import LiveMarkup.Builtin.Function
import LiveMarkup.CellSet
import LiveMarkup.Session.Report
import LiveMarkup.Session.Step
import LiveMarkup.Store.Lifetime

/-!
# Sessions

A session is a store with everything a host has given a name.

## Main definitions

* `Callback` — what a callback does when it is called.
* `Session` — the store and the names.
* `Session.roots`, `Session.lost` — what the names lead to, and what a change may have left alone.
* `Session.cellName`, `Session.scopeInfo` — how cells and scopes are shown.
-/

namespace LiveMarkup

/-- A callback. -/
structure Callback where
  name : String
  steps : List Step
  /-- In how many more calls it does its steps. -/
  remaining : Nat
  deriving Inhabited

/-- The interpreter that sessions begin with. -/
def mainInterpreter : String := "main"

/-- A store with everything that has a name. -/
structure Session where
  store : Store := .initial
  values : Bindings Value := .empty
  /-- The callbacks that the name table and the subscribers of cells refer to. -/
  callbacks : Array Callback := #[]
  callbackNames : Bindings CallbackRef := .empty
  subscriptions : Bindings Subscription := .empty
  effects : Bindings (List Subscription) := .empty
  scopes : Bindings Scope := .empty
  collectors : Bindings CellSet := .empty
  streams : Bindings StreamRef := .empty
  queues : Bindings QueueRef := .empty
  interpreters : Bindings Interpreter := .ofList [(mainInterpreter, {})]
  /-- The interpreter that the whole program shares. -/
  shared : Interpreter := { serial := 1 }
  functions : Bindings CompiledFunction := .empty
  caches : Bindings (Recency CompileKey Eval.Code) := .empty
  /-- How many interpreters there have been. -/
  serials : Nat := 2
  deriving Inhabited

namespace Session

/-! ### Names -/

/-- The value bound to a name. -/
def value (s : Session) (name : String) : Value := (s.values.find? name).getD .undefined

/-- The cell bound to a name, if its value is a cell. -/
def cell? (s : Session) (name : String) : Option CellRef :=
  match s.value name with
  | .cell c => some c
  | _ => none

/-- The cells bound to names. -/
def cellsNamed (s : Session) (names : List String) : List CellRef := names.filterMap s.cell?

/-- The scope of a name. -/
def scope (s : Session) (name : String) : Scope := (s.scopes.find? name).getD .empty

/-- The collector of a name, an empty one if there is none. -/
def collector (s : Session) (name : String) : CellSet := (s.collectors.find? name).getD {}

/-- The interpreter of a name. -/
def interpreter (s : Session) (name : String) : Interpreter :=
  (s.interpreters.find? name).getD {}

/-- The queue of a name, or the default queue. -/
def queue (s : Session) : Option String → QueueRef
  | some name => (s.queues.find? name).getD defaultQueue
  | none => defaultQueue

/-- Binds a value to a name. -/
def bindValue (s : Session) (name : String) (v : Value) : Session :=
  { s with values := s.values.insert name v }

/-- Binds a new callback to a name. -/
def bindCallback (s : Session) (callback : Callback) : Session :=
  { s with
    callbacks := s.callbacks.push callback
    callbackNames := s.callbackNames.insert callback.name ⟨s.callbacks.size⟩ }

/-- Binds subscriptions to a name with `0`, `1`, … after it. -/
def bindSubscriptions (s : Session) (name : String) (subscriptions : List Subscription) : Session :=
  { s with
    subscriptions := s.subscriptions.insertAll
      (subscriptions.zipIdx.map fun (sub, i) => (name ++ toString i, sub)) }

/-- Ends the stream of a name, if there is one. -/
def dropStream (s : Session) (name : String) : Session :=
  match s.streams.find? name with
  | some r => { s with store := s.store.stopReading r, streams := s.streams.erase name }
  | none => s

/-! ### Lifetime -/

/-- What the names lead to. -/
def roots (s : Session) : List Entity :=
  .object mathObject ::
    (references s.values.values ++
      (s.scopes.values.flatMap Bindings.values).map .cell ++
      (s.collectors.values.flatMap CellSet.cells).map .cell ++
      s.interpreters.values.flatMap fun i => references i.base.values)

/-- What may have lost its last reference when one session became another: what the names led to,
what changed things referred to, and what is new. -/
def lost (before after : Session) : List Entity :=
  before.roots ++ before.store.lost after.store ++ before.store.added after.store

/-! ### Showing -/

/-- The first of two names. -/
def firstName (best : Option String) (name : String) : Option String :=
  match best with
  | some other => if other < name then some other else some name
  | none => some name

/-- The first name of a value that is this very cell. -/
def cellName (s : Session) (c : CellRef) : CellName :=
  ((s.values.entries.filter fun e => e.2.strictEquals (.cell c)).map Prod.fst).foldl firstName none

/-- The names of cells. -/
def cellNames (s : Session) (cells : List CellRef) : List CellName := cells.map s.cellName

/-- A scope shown by its names and cells. -/
def scopeInfo (s : Session) (scope : Scope) : ScopeInfo where
  names := scope.names
  cells := s.cellNames scope.values

end Session

end LiveMarkup
