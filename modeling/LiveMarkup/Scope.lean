import LiveMarkup.Store.Cell

/-!
# Contexts and scopes

An expression is evaluated over a context, an ordered list of names with values.  A scope names the
cells visible to a unit of markup; its context binds each cell under its name, and all of them once
more as the properties of one object.

## Main definitions

* `Context`, `Scope` — the two kinds of names.
* `Scope.build` — a scope with a new cell for every value that is not a cell.
* `Scope.context` — the context of a scope, with the state bag.
-/

namespace LiveMarkup

/-- Names with values, in the order in which they are handed to a compiled function. -/
abbrev Context := Bindings Value

/-- Names with cells. -/
abbrev Scope := Bindings CellRef

/-- The name under which a context has all cells of its scope as one object. -/
def stateBagName : String := "$state"

namespace Scope

/-- The cell to bind for a value: the value itself if it is a cell, else a new cell on the default
queue. -/
def cellFor (s : Store) : Value → Store × CellRef
  | .cell c => (s, c)
  | v => s.newCell v (.queue defaultQueue)

/-- Adds a cell for each of the values. -/
def extend (s : Store) (scope : Scope) : List (String × Value) → Store × Scope
  | [] => (s, scope)
  | (name, v) :: rest =>
    let (s, c) := cellFor s v
    extend s (scope.insert name c) rest

/-- A scope with a cell for each of the values. -/
def build (s : Store) (values : List (String × Value)) : Store × Scope := extend s .empty values

/-- A scope with a cell for each property of an object. -/
def ofObject (s : Store) (r : ObjectRef) : Store × Scope := build s (s.properties r).entries

/-- The context of a scope: each cell under its name, then the state bag. -/
def context (scope : Scope) (s : Store) : Store × Context :=
  let cells := scope.map Value.cell
  let (s, bag) := s.newObject cells
  (s, cells.insert stateBagName (.object bag))

/-- Takes all subscribers out of every cell. -/
def dispose (scope : Scope) (s : Store) : Store :=
  scope.values.foldl (fun s c => s.unsubscribeAll c) s

end Scope

/-- Whether two contexts bind the same names, in any order, to values of equal structure. -/
def Context.sameBindings (s : Store) (a b : Context) : Bool :=
  a.size == b.size && a.entries.all fun (name, v) =>
    match b.find? name with
    | some w => s.structurallyEqual v w
    | none => false

end LiveMarkup
