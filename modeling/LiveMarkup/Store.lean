import LiveMarkup.Value

/-!
# The store

Everything that values share and that can change: the contents of arrays and objects, the cells with
their subscribers, the streams that listen to cells, and the queues of notification passes.  A store
is a value; every operation gives a new one.  What is gone keeps its contents, since nothing is left
that could read them.

## Main definitions

* `CellState`, `StreamState` — what is known of one cell and of one stream.
* `Notice` — what a host gets to see beside results.
* `Store` — the whole state.
* `Store.items`, `Store.properties`, `Store.cellState` — what a reference refers to.
* `Store.newArray`, `Store.newObject`, `Store.newCell` — fresh references.
-/

namespace LiveMarkup

/-- Where a cell has its notification passes run. -/
inductive Scheduler
  /-- A queue that the host drains. -/
  | queue (ref : QueueRef)
  /-- The host's own executor. -/
  | spawner
  deriving DecidableEq, Repr, Inhabited

/-- The queue of cells that are given none. -/
def defaultQueue : QueueRef := ⟨0⟩

/-- An observable cell. -/
structure CellState where
  /-- The value held now. -/
  held : Value := .undefined
  /-- The value that the last committed write replaced. -/
  previous : Option Value := none
  /-- The callbacks to call in a pass, in the order they subscribed. -/
  subscribers : List CallbackRef := []
  /-- The streams told of each pass, in the order they were made. -/
  listeners : List StreamRef := []
  /-- Whether a pass is queued that has not started. -/
  scheduled : Bool := false
  /-- Where passes are queued. -/
  scheduler : Scheduler := .queue defaultQueue
  /-- How many passes have been requested so far.  Nothing reads it: it is there for what is said of
  requests. -/
  requests : Nat := 0
  deriving Inhabited

/-- A stream of the passes of a cell. -/
structure StreamState where
  /-- Whether a pass has finished since the last poll. -/
  dirty : Bool := false
  /-- The name of the waker to be woken, if one is registered. -/
  waker : Option String := none
  /-- Whether the reader still has its end. -/
  reading : Bool := true
  /-- Whether the cell still has its end. -/
  attached : Bool := true
  deriving Inhabited

/-- What a host gets to see beside results. -/
inductive Notice
  /-- A host function took down its arguments. -/
  | recorded (args : List Snapshot)
  /-- A waker was woken. -/
  | woken (waker : String)
  deriving Inhabited

/-- All shared state. -/
structure Store where
  arrays : Array (List Value) := #[]
  objects : Array (Bindings Value) := #[]
  cells : Array CellState := #[]
  streams : Array StreamState := #[]
  /-- The cells with a pass on each queue, in the order the passes will start. -/
  queues : Array (List CellRef) := #[[]]
  /-- The cells with a pass given to the host's executor, in order. -/
  spawned : List CellRef := []
  /-- How many host functions have been made. -/
  hostFunctions : Nat := 0
  /-- What has happened and nobody has collected yet. -/
  notices : List Notice := []
  /-- What nothing referred to any more, the last first. -/
  gone : List Entity := []
  /-- What stays whether or not something in the store refers to it. -/
  pinned : List Entity := []
  deriving Inhabited

namespace Store

/-! ### Reading -/

/-- The elements of an array. -/
def items (s : Store) (r : ArrayRef) : List Value := s.arrays.getD r.id []

/-- The properties of an object. -/
def properties (s : Store) (r : ObjectRef) : Bindings Value := s.objects.getD r.id .empty

/-- What is known of a cell. -/
def cellState (s : Store) (r : CellRef) : CellState := s.cells.getD r.id {}

/-- The value a cell holds. -/
def held (s : Store) (r : CellRef) : Value := (s.cellState r).held

/-- What is known of a stream. -/
def streamState (s : Store) (r : StreamRef) : StreamState :=
  s.streams.getD r.id { attached := false }

/-- Whether nothing refers to an array, object or cell any more. -/
def isGone (s : Store) (e : Entity) : Bool := s.gone.contains e

/-- The cells with a pass on a queue. -/
def queue (s : Store) (q : QueueRef) : List CellRef := s.queues.getD q.id []

/-- The value, or the value held if it is a cell. -/
def unwrap (s : Store) : Value → Value
  | .cell c => s.held c
  | v => v

/-- Follows a chain of cells that hold cells, for at most so many of them. -/
def followCells (s : Store) : Nat → Value → Value
  | 0, _ => .undefined
  | fuel + 1, .cell c => s.followCells fuel (s.held c)
  | _, v => v

/-- The value at the end of a chain of cells; a chain has no more links than there are cells. -/
def resolve (s : Store) (v : Value) : Value := s.followCells (s.cells.size + 1) v

/-! ### Writing -/

/-- Changes the elements of an array. -/
def setItems (s : Store) (r : ArrayRef) (items : List Value) : Store :=
  { s with arrays := s.arrays.setIfInBounds r.id items }

/-- Changes the properties of an object. -/
def setProperties (s : Store) (r : ObjectRef) (properties : Bindings Value) : Store :=
  { s with objects := s.objects.setIfInBounds r.id properties }

/-- Changes what is known of a cell. -/
def modifyCell (s : Store) (r : CellRef) (f : CellState → CellState) : Store :=
  { s with cells := s.cells.modify r.id f }

/-- Changes what is known of a stream. -/
def modifyStream (s : Store) (r : StreamRef) (f : StreamState → StreamState) : Store :=
  { s with streams := s.streams.modify r.id f }

/-- Takes down what has happened. -/
def notice (s : Store) (notices : List Notice) : Store :=
  { s with notices := s.notices ++ notices }

/-- Changes the passes on a queue. -/
def modifyQueue (s : Store) (q : QueueRef) (f : List CellRef → List CellRef) : Store :=
  { s with queues := s.queues.modify q.id f }

/-! ### Making -/

/-- A new array. -/
def newArray (s : Store) (items : List Value) : Store × ArrayRef :=
  ({ s with arrays := s.arrays.push items }, ⟨s.arrays.size⟩)

/-- A new object. -/
def newObject (s : Store) (properties : Bindings Value) : Store × ObjectRef :=
  ({ s with objects := s.objects.push properties }, ⟨s.objects.size⟩)

/-- A new cell. -/
def newCell (s : Store) (held : Value) (scheduler : Scheduler) : Store × CellRef :=
  ({ s with cells := s.cells.push { held, scheduler } }, ⟨s.cells.size⟩)

/-- A new queue. -/
def newQueue (s : Store) : Store × QueueRef :=
  ({ s with queues := s.queues.push [] }, ⟨s.queues.size⟩)

/-- A new host function. -/
def newHostFunction (s : Store) (f : HostFunction) : Store × Value :=
  ({ s with hostFunctions := s.hostFunctions + 1 }, .function (.host f s.hostFunctions))

/-- A new array as a value. -/
def newArrayValue (s : Store) (items : List Value) : Store × Value :=
  let (s, r) := s.newArray items
  (s, .array r)

end Store

end LiveMarkup
