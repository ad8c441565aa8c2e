/-!
# Maps that forget what was used longest ago

A map of bounded size, kept in the order of last use.  Looking a key up or inserting it makes it the
one used last; an insertion into a full map first takes out the one used longest ago.

## Main definitions

* `Recency` — a capacity with keys and what they are bound to, oldest first.
* `Recency.get`, `Recency.insert` — lookup and insertion, both of which count as uses.
-/

namespace LiveMarkup

/-- A map of bounded size in the order of last use. -/
structure Recency (κ α : Type) where
  /-- The most entries kept; with none nothing is ever kept. -/
  capacity : Nat
  /-- The keys with what they are bound to, the one used longest ago first. -/
  entries : List (κ × α) := []
  deriving Inhabited

namespace Recency

variable {κ α : Type} [DecidableEq κ]

/-- The keys, the one used longest ago first. -/
def keys (m : Recency κ α) : List κ := m.entries.map Prod.fst

/-- The number of entries. -/
def size (m : Recency κ α) : Nat := m.entries.length

/-- Whether there are no entries. -/
def isEmpty (m : Recency κ α) : Bool := m.entries.isEmpty

/-- What a key is bound to; this is no use of the key. -/
def find? (m : Recency κ α) (key : κ) : Option α := m.entries.lookup key

/-- Whether a key is bound. -/
def contains (m : Recency κ α) (key : κ) : Bool := m.keys.contains key

/-- The entries other than that of `key`. -/
def without (m : Recency κ α) (key : κ) : List (κ × α) := m.entries.filter fun e => e.1 != key

/-- Puts an entry in the place of the one used last. -/
def refresh (m : Recency κ α) (key : κ) (x : α) : Recency κ α :=
  { m with entries := m.without key ++ [(key, x)] }

/-- Looks a key up, which makes it the one used last. -/
def get (m : Recency κ α) (key : κ) : Recency κ α × Option α :=
  match m.find? key with
  | some x => (m.refresh key x, some x)
  | none => (m, none)

/-- Binds a key, which makes it the one used last.  If the map is full and the key new, the one used
longest ago is taken out; its key is the second result. -/
def insert (m : Recency κ α) (key : κ) (x : α) : Recency κ α × Option κ :=
  if m.capacity = 0 then (m, none)
  else if m.contains key then (m.refresh key x, none)
  else if m.capacity ≤ m.size then
    ({ m with entries := m.entries.tail ++ [(key, x)] }, m.keys.head?)
  else ({ m with entries := m.entries ++ [(key, x)] }, none)

/-- Takes all entries out. -/
def clear (m : Recency κ α) : Recency κ α := { m with entries := [] }

end Recency

end LiveMarkup
