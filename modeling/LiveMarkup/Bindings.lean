/-!
# Ordered bindings

A finite map from names to things that remembers the order in which the names first came in.  Object
properties, evaluation contexts and scopes are such maps, and answers show their order.

## Main definitions

* `Bindings` — distinct names with what they are bound to.
* `Bindings.find?`, `Bindings.insert`, `Bindings.erase`, `Bindings.merge` — the map operations.
* `Bindings.ofList` — the bindings made by inserting one pair after another.
-/

namespace LiveMarkup

/-- Names bound to things, in order, each name once. -/
structure Bindings (α : Type) where
  entries : List (String × α)
  nodup : (entries.map Prod.fst).Nodup
  deriving DecidableEq

namespace Bindings

variable {α β : Type}

/-- No bindings. -/
def empty : Bindings α := ⟨[], by simp⟩

instance : Inhabited (Bindings α) := ⟨empty⟩

/-- The names, in order. -/
def names (b : Bindings α) : List String := b.entries.map Prod.fst

/-- The things the names are bound to, in order. -/
def values (b : Bindings α) : List α := b.entries.map Prod.snd

/-- The number of bindings. -/
def size (b : Bindings α) : Nat := b.entries.length

/-- Whether nothing is bound. -/
def isEmpty (b : Bindings α) : Bool := b.entries.isEmpty

/-- What `name` is bound to. -/
def find? (b : Bindings α) (name : String) : Option α := b.entries.lookup name

/-- Whether `name` is bound. -/
def contains (b : Bindings α) (name : String) : Bool := b.names.contains name

/-- The entries with `name` bound to `x`, at its old place if it has one and at the end if not. -/
def insertEntry (name : String) (x : α) : List (String × α) → List (String × α)
  | [] => [(name, x)]
  | (n, y) :: rest => if n = name then (n, x) :: rest else (n, y) :: insertEntry name x rest

theorem map_fst_insertEntry (name : String) (x : α) (l : List (String × α)) :
    (insertEntry name x l).map Prod.fst =
      if name ∈ l.map Prod.fst then l.map Prod.fst else l.map Prod.fst ++ [name] := by
  induction l with
  | nil => simp [insertEntry]
  | cons e rest ih =>
    obtain ⟨n, y⟩ := e
    rw [insertEntry]
    split
    · next h => simp [h]
    · next h =>
      rw [List.map_cons, ih]
      have : name ≠ n := fun e => h e.symm
      simp only [List.map_cons, List.mem_cons, this, false_or]
      split <;> simp

/-- Binds `name` to `x`; a name that is already bound keeps its place. -/
def insert (b : Bindings α) (name : String) (x : α) : Bindings α where
  entries := insertEntry name x b.entries
  nodup := by
    rw [map_fst_insertEntry]
    split
    · exact b.nodup
    · next h =>
      rw [List.nodup_append]
      exact ⟨b.nodup, by simp, by rintro a ha b hb rfl; simp at hb; exact h (hb ▸ ha)⟩

/-- Takes `name` out; the others keep their order. -/
def erase (b : Bindings α) (name : String) : Bindings α where
  entries := b.entries.filter fun e => e.1 != name
  nodup := b.nodup.sublist (List.filter_sublist.map _)

/-- Turns the order around. -/
def reverse (b : Bindings α) : Bindings α where
  entries := b.entries.reverse
  nodup := by
    rw [List.map_reverse]
    exact List.pairwise_reverse.2 (b.nodup.imp Ne.symm)

/-- Changes what the names are bound to. -/
def map (f : α → β) (b : Bindings α) : Bindings β where
  entries := b.entries.map fun e => (e.1, f e.2)
  nodup := by
    rw [List.map_map]
    exact b.nodup

/-- Inserts pairs one after another. -/
def insertAll (b : Bindings α) (pairs : List (String × α)) : Bindings α :=
  pairs.foldl (fun b e => b.insert e.1 e.2) b

/-- The bindings made by inserting one pair after another. -/
def ofList (pairs : List (String × α)) : Bindings α := empty.insertAll pairs

/-- The bindings of `b` followed by those of `c`; names bound in both take what `c` says. -/
def merge (b c : Bindings α) : Bindings α := b.insertAll c.entries

/-! ### Laws of the map -/

@[simp] theorem find?_empty (name : String) : (empty : Bindings α).find? name = none := rfl

theorem lookup_insertEntry (name other : String) (x : α) (l : List (String × α)) :
    (insertEntry name x l).lookup other = if other = name then some x else l.lookup other := by
  induction l with
  | nil =>
    simp only [insertEntry, List.lookup_cons, List.lookup_nil]
    by_cases h : other = name
    · simp [h]
    · simp [h, beq_false_of_ne h]
  | cons e rest ih =>
    obtain ⟨n, y⟩ := e
    rw [insertEntry]
    split
    · next h =>
      subst h
      by_cases ho : other = n
      · simp [ho]
      · simp [List.lookup_cons, ho, beq_false_of_ne ho]
    · next h =>
      rw [List.lookup_cons, List.lookup_cons, ih]
      by_cases ho : other = n
      · subst ho; simp [h]
      · have : (other == n) = false := by simpa using ho
        simp [this]

/-- A name is bound to what was last inserted under it. -/
theorem find?_insert (b : Bindings α) (name other : String) (x : α) :
    (b.insert name x).find? other = if other = name then some x else b.find? other :=
  lookup_insertEntry name other x b.entries

/-- Inserting puts a new name at the end and leaves the order of the names otherwise alone. -/
theorem names_insert (b : Bindings α) (name : String) (x : α) :
    (b.insert name x).names = if name ∈ b.names then b.names else b.names ++ [name] :=
  map_fst_insertEntry name x b.entries

end Bindings

end LiveMarkup
