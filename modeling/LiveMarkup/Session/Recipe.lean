import LiveMarkup.Scope

/-!
# Values described

A host describes the values it hands over.  Every description makes new arrays, objects, cells and
functions; only a name stands for a value that is there already.

## Main definitions

* `Recipe` — a description.
* `Recipe.build` — the value described.
* `Recipe.buildContext` — a context, where a description may name the bindings before it.
-/

namespace LiveMarkup

/-- A value described. -/
inductive Recipe
  | undefined
  | null
  | bool (b : Bool)
  | number (x : Float)
  | string (s : String)
  | array (items : List Recipe)
  | object (entries : List (String × Recipe))
  /-- A new cell on the default queue. -/
  | cell (held : Recipe)
  | function (f : HostFunction)
  /-- The value bound to a name. -/
  | named (name : String)
  deriving Inhabited

namespace Recipe

mutual

/-- Makes the value described, where `names` says what names stand for. -/
def build (names : Bindings Value) (s : Store) : Recipe → Store × Value
  | .undefined => (s, .undefined)
  | .null => (s, .null)
  | .bool b => (s, .bool b)
  | .number x => (s, .number x)
  | .string t => (s, .string t)
  | .array items =>
    let (s, items) := buildItems names s items
    s.newArrayValue items
  | .object entries =>
    let (s, entries) := buildEntries names s entries
    let (s, r) := s.newObject (Bindings.ofList entries)
    (s, .object r)
  | .cell held =>
    let (s, v) := build names s held
    let (s, c) := s.newCell v (.queue defaultQueue)
    (s, .cell c)
  | .function f => s.newHostFunction f
  | .named name => (s, (names.find? name).getD .undefined)

/-- Makes the values described, one after another. -/
def buildItems (names : Bindings Value) (s : Store) : List Recipe → Store × List Value
  | [] => (s, [])
  | item :: rest =>
    let (s, v) := build names s item
    let (s, vs) := buildItems names s rest
    (s, v :: vs)

/-- Makes the values described under names. -/
def buildEntries (names : Bindings Value) (s : Store) :
    List (String × Recipe) → Store × List (String × Value)
  | [] => (s, [])
  | (name, item) :: rest =>
    let (s, v) := build names s item
    let (s, vs) := buildEntries names s rest
    (s, (name, v) :: vs)

end

/-- Adds described values to names one after another; each may name those before it. -/
def bindEach (names : Bindings Value) (s : Store) :
    List (String × Recipe) → Store × List (String × Value)
  | [] => (s, [])
  | (name, item) :: rest =>
    let (s, v) := build names s item
    let (s, vs) := bindEach (names.insert name v) s rest
    (s, (name, v) :: vs)

/-- The context described. -/
def buildContext (names : Bindings Value) (s : Store) (entries : List (String × Recipe)) :
    Store × Context :=
  let (s, values) := bindEach names s entries
  (s, .ofList values)

end Recipe

end LiveMarkup
