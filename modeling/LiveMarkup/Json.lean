import LiveMarkup.Store.Snapshot
import LiveMarkup.Number.Exchange
import LiveMarkup.Number.Literal

/-!
# Documents

Values can be written out as documents and read back.  In a document there are no cells and no
functions: a cell is written as what it holds, and `undefined`, functions and numbers that are not
finite are written as `null`.  Reading a document sorts the entries of every object by their names.

## Main definitions

* `Json`, `Json.numeral` — documents, and the number a numeral stands for.
* `Json.sorted` — a document with the entries of every object in the order of their names.
* `Store.ofJson`, `Store.toJson` — documents to values and back.
* `Json.compact` — the text of a document.
-/

namespace LiveMarkup

open Number

/-- A document. -/
inductive Json
  | null
  | bool (b : Bool)
  /-- A number written as an integer of at most 64 bits. -/
  | integer (n : Int)
  /-- Any other number. -/
  | number (x : Float)
  | string (s : String)
  | array (items : List Json)
  | object (entries : List (String × Json))
  deriving Inhabited

namespace Json

/-- The number a numeral stands for: an integer if it is written as one and has at most 64 bits, the
nearest double if not.  The numeral `-0` is the double negative zero. -/
def numeral (text : String) : Json :=
  let digits := text.toList
  let asDouble : Json := .number (ofText text)
  if digits.all fun c => c.isDigit || c == '-' then
    match digits with
    | '-' :: cs =>
      match readWord 10 cs with
      | .ok n => if n = 0 ∨ Nat.pow 2 63 < n then asDouble else .integer (-n)
      | .error _ => asDouble
    | cs =>
      match readWord 10 cs with
      | .ok n => .integer n
      | .error _ => asDouble
  else asDouble

/-- Puts an entry at its place among sorted ones, over one of the same name. -/
def insertSorted {α : Type} (name : String) (x : α) : List (String × α) → List (String × α)
  | [] => [(name, x)]
  | (other, y) :: rest =>
    if name = other then (name, x) :: rest
    else if name < other then (name, x) :: (other, y) :: rest
    else (other, y) :: insertSorted name x rest

/-- Entries in the order of their names; of two with one name the later stays. -/
def sortEntries {α : Type} (entries : List (String × α)) : List (String × α) :=
  entries.foldl (fun sorted e => insertSorted e.1 e.2 sorted) []

mutual

/-- The document with the entries of every object in the order of their names. -/
def sorted : Json → Json
  | .array items => .array (sortedItems items)
  | .object entries => .object (sortEntries (sortedEntries entries))
  | other => other

/-- Each document of a list sorted. -/
def sortedItems : List Json → List Json
  | [] => []
  | item :: rest => sorted item :: sortedItems rest

/-- The document of each entry sorted. -/
def sortedEntries : List (String × Json) → List (String × Json)
  | [] => []
  | (name, item) :: rest => (name, sorted item) :: sortedEntries rest

end

/-! ### Text -/

/-- The escape of a control character. -/
def controlEscape (c : Char) : List Char :=
  ['\\', 'u', '0', '0', Nat.digitChar (c.toNat / 16), Nat.digitChar (c.toNat % 16)]

/-- One character of a text in a document. -/
def escaped (c : Char) : List Char :=
  if c = '"' then ['\\', '"']
  else if c = '\\' then ['\\', '\\']
  else if c = '\n' then ['\\', 'n']
  else if c = '\r' then ['\\', 'r']
  else if c = '\t' then ['\\', 't']
  else if c.toNat = 8 then ['\\', 'b']
  else if c.toNat = 12 then ['\\', 'f']
  else if c.toNat < 32 then controlEscape c
  else [c]

/-- A text in a document. -/
def quoted (s : String) : List Char := '"' :: (s.toList.flatMap escaped ++ ['"'])

/-- A number in a document. -/
def numberText (x : Float) : List Char :=
  match plainInteger? x with
  | some n => (toString n).toList
  | none => (exactText x).toList

mutual

/-- The characters of a document, without blanks. -/
def chars : Json → List Char
  | .null => "null".toList
  | .bool b => (if b then "true" else "false").toList
  | .integer n => (toString n).toList
  | .number x => numberText x
  | .string s => quoted s
  | .array items => '[' :: charsOfItems true items
  | .object entries => '{' :: charsOfEntries true entries

/-- The elements of an array with commas between them, and the closing bracket. -/
def charsOfItems (first : Bool) : List Json → List Char
  | [] => [']']
  | item :: rest => (if first then [] else [',']) ++ chars item ++ charsOfItems false rest

/-- The entries of an object with commas between them, and the closing brace. -/
def charsOfEntries (first : Bool) : List (String × Json) → List Char
  | [] => ['}']
  | (name, item) :: rest =>
    (if first then [] else [',']) ++ quoted name ++ ':' :: (chars item ++ charsOfEntries false rest)

end

/-- The text of a document, without blanks. -/
def compact (j : Json) : String := String.ofList j.chars

end Json

/-! ### Values and documents -/

mutual

/-- The document that shows a value. -/
def Snapshot.toJson : Snapshot → Json
  | .undefined | .null | .function _ | .cycle _ => .null
  | .bool b => .bool b
  | .number x => if x.isFinite then .number x else .null
  | .string s => .string s
  | .array items => .array (Snapshot.itemsToJson items)
  | .object entries => .object (Snapshot.entriesToJson entries)
  | .cell held => held.toJson

/-- The documents that show several values. -/
def Snapshot.itemsToJson : List Snapshot → List Json
  | [] => []
  | item :: rest => item.toJson :: Snapshot.itemsToJson rest

/-- The entries that show named values. -/
def Snapshot.entriesToJson : List (String × Snapshot) → List (String × Json)
  | [] => []
  | (name, item) :: rest => (name, item.toJson) :: Snapshot.entriesToJson rest

end

namespace Store

/-- The document for a value. -/
def toJson (s : Store) (v : Value) : Json := (s.snapshot v).toJson

mutual

/-- A new value for a document whose entries are sorted. -/
def build (s : Store) : Json → Store × Value
  | .null => (s, .null)
  | .bool b => (s, .bool b)
  | .integer n => (s, .number (ofInteger n))
  | .number x => (s, .number x)
  | .string t => (s, .string t)
  | .array items =>
    let (s, items) := s.buildItems items
    s.newArrayValue items
  | .object entries =>
    let (s, entries) := s.buildEntries entries
    let (s, r) := s.newObject (Bindings.ofList entries)
    (s, .object r)

/-- New values for several documents. -/
def buildItems (s : Store) : List Json → Store × List Value
  | [] => (s, [])
  | item :: rest =>
    let (s, v) := s.build item
    let (s, vs) := s.buildItems rest
    (s, v :: vs)

/-- New values for named documents. -/
def buildEntries (s : Store) : List (String × Json) → Store × List (String × Value)
  | [] => (s, [])
  | (name, item) :: rest =>
    let (s, v) := s.build item
    let (s, vs) := s.buildEntries rest
    (s, (name, v) :: vs)

end

/-- A new value for a document. -/
def ofJson (s : Store) (j : Json) : Store × Value := s.build j.sorted

end Store

end LiveMarkup
