import LiveMarkup.Store.Stream

/-!
# Lifetime

An array, object or cell is there for as long as something refers to it: a name of the host, a
computation that works with it, or something else that is there.  The moment the last reference is
given up it is gone, and gives up its own references one after another before anything else
happens.  When a cell goes its streams end and their readers are woken.  Things that refer to each
other in a circle keep each other, and what they refer to.

References are not counted anywhere: what refers to a thing is read off the store, and a computation
says what it holds.  Going changes no contents.  It shows only in which cells still have passes, and
in the streams that end.

## Main definitions

* `Store.referents` — what something refers to.
* `Store.isHeld` — whether something refers to it.
* `Store.letGo` — gives up references in order.
* `Store.lost`, `Store.added` — what may have lost its last reference in a change of the store, and
  what has never had one.

## Main statements

* `Store.sameContents_letGo` — giving up references changes no contents.
-/

namespace LiveMarkup

/-- Something that is being given up. -/
inductive Loss
  /-- A reference to something. -/
  | reference (e : Entity)
  /-- The streams of a cell that is gone. -/
  | streams (c : CellRef)
  deriving DecidableEq, Repr, Inhabited

namespace Store

/-! ### Who refers to whom -/

/-- What something refers to, in order. -/
def referents (s : Store) : Entity → List Entity
  | .array r => references (s.items r)
  | .object r => references (s.properties r).values
  | .cell r => references (s.held r :: (s.cellState r).previous.toList)

/-- Everything that is in the store or has been. -/
def entities (s : Store) : List Entity :=
  (List.range s.arrays.size).map (fun i => .array ⟨i⟩) ++
    (List.range s.objects.size).map (fun i => .object ⟨i⟩) ++
      (List.range s.cells.size).map fun i => .cell ⟨i⟩

/-- Whether something refers to `e`: what is `kept`, what is still to be given up, or something in
the store that is not gone. -/
def isHeld (s : Store) (kept : List Entity) (pending : List Loss) (e : Entity) : Bool :=
  kept.contains e || s.pinned.contains e || pending.contains (.reference e) ||
    s.entities.any fun holder => (s.referents holder).contains e && !s.isGone holder

/-! ### Going -/

/-- What something gives up when it goes, in order. -/
def losses (s : Store) (e : Entity) : List Loss :=
  (s.referents e).map .reference ++
    match e with
    | .cell c => [.streams c]
    | _ => []

/-- Gives up what is pending, in order.  What goes by that puts its own losses in front.  The fuel
bounds how many losses there are in all. -/
def letGoWithin (s : Store) (kept : List Entity) : Nat → List Loss → Store
  | 0, _ => s
  | _, [] => s
  | fuel + 1, .streams c :: pending => (s.endStreams c).letGoWithin kept fuel pending
  | fuel + 1, .reference e :: pending =>
    if s.isGone e || s.isHeld kept pending e then s.letGoWithin kept fuel pending
    else { s with gone := e :: s.gone }.letGoWithin kept fuel (s.losses e ++ pending)

/-- Gives up references one after another, while what is `kept` is held elsewhere.  Nothing goes
twice, so there are at most the losses of everything beside those given. -/
def letGo (s : Store) (kept lost : List Entity) : Store :=
  match lost with
  | [] => s
  | lost =>
    s.letGoWithin kept (lost.length + (s.entities.flatMap s.losses).length) (lost.map .reference)

/-! ### Contents -/

/-- Stores with the same contents: arrays, objects, cells and passes. -/
structure SameContents (s t : Store) : Prop where
  arrays : s.arrays = t.arrays
  objects : s.objects = t.objects
  cells : s.cells = t.cells
  queues : s.queues = t.queues
  spawned : s.spawned = t.spawned

namespace SameContents

theorem refl (s : Store) : SameContents s s := ⟨rfl, rfl, rfl, rfl, rfl⟩

theorem trans {s t u : Store} (h : SameContents s t) (h' : SameContents t u) :
    SameContents s u :=
  ⟨h.arrays.trans h'.arrays, h.objects.trans h'.objects, h.cells.trans h'.cells,
    h.queues.trans h'.queues, h.spawned.trans h'.spawned⟩

end SameContents

/-- The cell's letting go of a stream changes no contents. -/
theorem sameContents_detach (s : Store) (r : StreamRef) : SameContents (s.detach r) s :=
  ⟨rfl, rfl, rfl, rfl, rfl⟩

/-- The end of streams changes no contents. -/
theorem sameContents_foldl_detach (rs : List StreamRef) (s : Store) :
    SameContents (rs.foldl detach s) s := by
  induction rs generalizing s with
  | nil => exact .refl s
  | cons r rs ih => exact (ih (s.detach r)).trans (sameContents_detach s r)

/-- Going changes no contents, whatever goes. -/
theorem sameContents_letGoWithin (kept : List Entity) (fuel : Nat) (pending : List Loss)
    (s : Store) : SameContents (s.letGoWithin kept fuel pending) s := by
  induction fuel generalizing s pending with
  | zero => exact .refl s
  | succ fuel ih =>
    match pending with
    | [] => exact .refl s
    | .streams c :: rest =>
      exact (ih rest (s.endStreams c)).trans (sameContents_foldl_detach _ s)
    | .reference e :: rest =>
      unfold letGoWithin
      split
      · exact ih rest s
      · exact (ih _ { s with gone := e :: s.gone }).trans ⟨rfl, rfl, rfl, rfl, rfl⟩

/-- Giving up references changes no contents. -/
theorem sameContents_letGo (s : Store) (kept lost : List Entity) :
    SameContents (s.letGo kept lost) s := by
  unfold letGo
  split
  · exact .refl s
  · exact sameContents_letGoWithin kept _ _ s

/-- Without references to give up nothing happens. -/
theorem letGo_nil (s : Store) (kept : List Entity) : s.letGo kept [] = s := rfl

/-! ### Changes of the store -/

/-- What the things that a change of the store has changed referred to before. -/
def lost (before after : Store) : List Entity :=
  (before.entities.filter fun e => before.referents e != after.referents e).flatMap
    before.referents

/-- Whether something was there already in an earlier store. -/
def hasMade (s : Store) : Entity → Bool
  | .array r => r.id < s.arrays.size
  | .object r => r.id < s.objects.size
  | .cell r => r.id < s.cells.size

/-- What a change of the store has made. -/
def added (before after : Store) : List Entity := after.entities.filter fun e => !before.hasMade e

end Store

end LiveMarkup
