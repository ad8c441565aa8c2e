import LiveMarkup.Store
import LiveMarkup.Number.Literal
import LiveMarkup.Number.Written

/-!
# Coercions

Every value can be taken as a text, a number, a truth value and the name of its type.  A cell is
taken as what it holds.  Taking an array as a text joins the texts of its elements; an array met
again inside itself writes nothing.

## Main definitions

* `Store.typeName`, `Store.isTruthy`, `Store.toNumber`, `Store.display` — the coercions.
* `Store.displayWithin` — the text of a value inside arrays that are being written.
* `Store.toPrimitive` — the value that operators work with.
-/

namespace LiveMarkup

open Number

/-- The name of the type of a value that is not a cell. -/
def Value.typeName : Value → String
  | .undefined => "undefined"
  | .null | .array _ | .object _ => "object"
  | .bool _ => "boolean"
  | .number _ => "number"
  | .string _ => "string"
  | .function _ => "function"
  | .cell _ => "undefined"

/-- The truth value of a value that is not a cell. -/
def Value.isTruthy : Value → Bool
  | .undefined | .null => false
  | .bool b => b
  | .number x => !isZero x && !x.isNaN
  | .string s => !s.isEmpty
  | .array _ | .object _ | .function _ => true
  | .cell _ => false

/-- The text of a function. -/
def Function.display (f : Function) : String :=
  "function " ++ f.name ++ "() \x7b [native code] \x7d"

namespace Store

/-- The name of the type of a value. -/
def typeName (s : Store) (v : Value) : String := (s.resolve v).typeName

/-- The truth value of a value. -/
def isTruthy (s : Store) (v : Value) : Bool := (s.resolve v).isTruthy

/-- The text of a value inside the arrays `joining`, which are being written.  The fuel bounds how
many arrays and cells are entered one inside the other. -/
def displayWithin (s : Store) : Nat → List ArrayRef → Value → String
  | 0, _, _ => ""
  | fuel + 1, joining, v =>
    match v with
    | .undefined => "undefined"
    | .null => "null"
    | .bool b => if b then "true" else "false"
    | .number x => written x
    | .string t => t
    | .array r =>
      if r ∈ joining then ""
      else
        String.intercalate "," <| (s.items r).map fun v =>
          if v.isNullish then "" else s.displayWithin fuel (r :: joining) v
    | .object _ => "[object Object]"
    | .cell c => s.displayWithin fuel joining (s.held c)
    | .function f => f.display

/-- A bound on how deep a text can nest: no array is entered twice, and between two arrays no cell
is. -/
def displayDepth (s : Store) : Nat := (s.arrays.size + 1) * (s.cells.size + 2)

/-- The text of a value. -/
def display (s : Store) (v : Value) : String := s.displayWithin s.displayDepth [] v

/-- The number a value stands for. -/
def toNumber (s : Store) (v : Value) : Float :=
  match s.resolve v with
  | .undefined | .object _ | .function _ | .cell _ => nan
  | .null => 0.0
  | .bool b => if b then 1.0 else 0.0
  | .number x => x
  | .string t => ofText t
  | .array r => ofText (s.display (.array r))

/-- The primitive value that operators work with: arrays, objects and functions become texts. -/
def toPrimitive (s : Store) (v : Value) : Value :=
  match s.resolve v with
  | .array r => .string (s.display (.array r))
  | .object r => .string (s.display (.object r))
  | .function f => .string f.display
  | v => v

/-- The name of the property that a value names. -/
def propertyKey (s : Store) (v : Value) : String := s.display (s.resolve v)

end Store

end LiveMarkup
