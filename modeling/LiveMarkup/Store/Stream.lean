import LiveMarkup.Store.Cell

/-!
# Streams and passes

A stream tells a reader outside the subscribers that passes have finished.  Passes that finish
before the reader asks again count as one.  A reader that found nothing is woken by the next pass,
or when the cell is gone.

## Main definitions

* `PollResult`, `Store.poll` — what a reader learns.
* `Store.startPass` — the start of a notification pass.
* `Store.finishPass` — the end of one, which tells the streams.
-/

namespace LiveMarkup

/-- What a reader learns from a stream. -/
inductive PollResult
  /-- No pass has finished since the last poll. -/
  | pending
  /-- At least one pass has. -/
  | changed
  /-- The cell is gone. -/
  | ended
  deriving DecidableEq, Repr, Inhabited

namespace Store

/-- A new stream of the passes of a cell. -/
def listen (s : Store) (c : CellRef) : Store × StreamRef :=
  let ref : StreamRef := ⟨s.streams.size⟩
  (({ s with streams := s.streams.push {} }).modifyCell c fun state =>
    { state with listeners := state.listeners ++ [ref] }, ref)

/-- Asks a stream for news, leaving a waker unless the cell is gone. -/
def poll (s : Store) (r : StreamRef) (waker : String) : Store × PollResult :=
  let state := s.streamState r
  if state.attached then
    (s.modifyStream r fun state => { state with dirty := false, waker := some waker },
      if state.dirty then .changed else .pending)
  else (s, .ended)

/-- The reader lets its end of a stream go. -/
def stopReading (s : Store) (r : StreamRef) : Store :=
  s.modifyStream r fun state => { state with reading := false }

/-- Wakes the waker of a stream, if there is one. -/
def wake (s : Store) (r : StreamRef) : Store :=
  (s.modifyStream r fun state => { state with waker := none }).notice
    ((s.streamState r).waker.toList.map .woken)

/-- The cell lets its end of a stream go, which wakes the reader. -/
def detach (s : Store) (r : StreamRef) : Store :=
  (s.modifyStream r fun state => { state with attached := false }).wake r

/-- Tells a stream of a pass, which wakes the reader. -/
def notify (s : Store) (r : StreamRef) : Store :=
  (s.modifyStream r fun state => { state with dirty := true }).wake r

/-- Ends all streams of a cell, in the order they were made. -/
def endStreams (s : Store) (c : CellRef) : Store := (s.cellState c).listeners.foldl detach s

/-- The start of a pass: from here on a request queues a new one. -/
def startPass (s : Store) (c : CellRef) : Store :=
  s.modifyCell c fun state => { state with scheduled := false }

/-- The end of a pass: streams nobody reads are let go, the others are told. -/
def finishPass (s : Store) (c : CellRef) : Store :=
  let (kept, closed) := (s.cellState c).listeners.partition fun r => (s.streamState r).reading
  let s := s.modifyCell c fun state => { state with listeners := kept }
  kept.foldl notify (closed.foldl detach s)

end Store

end LiveMarkup
