import LiveMarkup.Store.Equality
import LiveMarkup.Store.Property

/-!
# Cells

A write to a cell counts only if the change policy says so.  A write that counts, and an edit in
place, request a notification pass; the request queues one pass and further requests queue nothing
until that pass has started.

## Main definitions

* `Store.trigger` — the request for a pass.
* `Store.setCell` — the gated write.
* `Store.update`, `Store.maybeUpdate` — what follows an edit of the held value.
* `Store.setCellProperty` — an edit in place.
* `Store.subscribe`, `Store.unsubscribe`, `Store.unsubscribeAll` — the list of subscribers.
-/

namespace LiveMarkup

/-- The state of a cell after a request for a pass. -/
def CellState.request (state : CellState) : CellState :=
  { state with scheduled := true, requests := state.requests + 1 }

namespace Store

/-- Puts a pass of the cell where its scheduler keeps them. -/
def enqueue (s : Store) (c : CellRef) : Scheduler → Store
  | .queue q => s.modifyQueue q (· ++ [c])
  | .spawner => { s with spawned := s.spawned ++ [c] }

/-- Requests a notification pass; while one is queued that has not started, no other is queued. -/
def trigger (s : Store) (c : CellRef) : Store :=
  match s.cells[c.id]? with
  | none => s
  | some state =>
    let s := s.modifyCell c CellState.request
    if state.scheduled then s else s.enqueue c state.scheduler

/-- Puts a value in place of the one held, which is remembered. -/
def commit (s : Store) (c : CellRef) (v : Value) : Store :=
  s.modifyCell c fun state => { state with held := v, previous := some state.held }

/-- Writes a value if it differs from the one held, and tells whether it did. -/
def setCell (s : Store) (c : CellRef) (v : Value) : Store × Bool :=
  if s.hasChanged (s.held c) v then ((s.commit c v).trigger c, true) else (s, false)

/-- What follows an edit that turned the held value `current` into `next`: the same reference counts
as edited in place if `edited`, anything else goes through the gate. -/
def afterEdit (s : Store) (c : CellRef) (current next : Value) (edited : Bool) : Store :=
  if current.strictEquals next then
    if edited then s.trigger c else s
  else (s.setCell c next).1

/-- What follows an edit: an array, object, cell or function that is still held counts as edited. -/
def update (s : Store) (c : CellRef) (current next : Value) : Store :=
  s.afterEdit c current next current.isReference

/-- What follows an edit that says itself whether it counts. -/
def maybeUpdate (s : Store) (c : CellRef) (current next : Value) (flag : Bool) : Store :=
  s.afterEdit c current next flag

/-- Writes a property of the held value in place and requests a pass. -/
def setCellProperty (s : Store) (c : CellRef) (key : String) (v : Value) :
    Except PropertyError Store := do
  let s ← s.setProperty (s.held c) key v
  return s.trigger c

/-- The elements of the held array, none if it is something else. -/
def heldItems (s : Store) (c : CellRef) : List Value :=
  match s.held c with
  | .array r => s.items r
  | _ => []

/-! ### Subscribers -/

/-- Whether a callback is subscribed. -/
def isSubscribed (s : Store) (c : CellRef) (callback : CallbackRef) : Bool :=
  (s.cellState c).subscribers.contains callback

/-- Adds a callback at the end, unless it is subscribed already. -/
def subscribe (s : Store) (c : CellRef) (callback : CallbackRef) : Store :=
  s.modifyCell c fun state =>
    if state.subscribers.contains callback then state
    else { state with subscribers := state.subscribers ++ [callback] }

/-- Takes a callback out; the others keep their order. -/
def unsubscribe (s : Store) (c : CellRef) (callback : CallbackRef) : Store :=
  s.modifyCell c fun state => { state with subscribers := state.subscribers.erase callback }

/-- Takes all callbacks out. -/
def unsubscribeAll (s : Store) (c : CellRef) : Store :=
  s.modifyCell c fun state => { state with subscribers := [] }

/-- The number of subscribers. -/
def subscriberCount (s : Store) (c : CellRef) : Nat := (s.cellState c).subscribers.length

end Store

/-- The right to take one callback out of one cell, once. -/
structure Subscription where
  cell : CellRef
  callback : CallbackRef
  /-- Whether it has been used. -/
  used : Bool := false
  deriving DecidableEq, Repr, Inhabited

/-- Uses a subscription; only the first use takes the callback out. -/
def Subscription.unsubscribe (sub : Subscription) (s : Store) : Subscription × Store :=
  if sub.used then (sub, s)
  else ({ sub with used := true }, s.unsubscribe sub.cell sub.callback)

/-- Subscribes a callback to several cells, one after another. -/
def Store.subscribeEach (s : Store) (cells : List CellRef) (callback : CallbackRef) :
    Store × List Subscription :=
  (cells.foldl (fun s c => s.subscribe c callback) s, cells.map ({ cell := ·, callback }))

end LiveMarkup
