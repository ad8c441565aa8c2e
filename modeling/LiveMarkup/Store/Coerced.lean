import LiveMarkup.Store.Coercion
import LiveMarkup.Store.Snapshot

/-!
# All that a value can be taken as

## Main definitions

* `Kind`, `Value.kinds` — what a value is.
* `Coerced`, `Store.coerced` — what it can be taken as.
-/

namespace LiveMarkup

/-- What a value can be. -/
inductive Kind
  | nullish | reference | number | bool | string | array | object | cell
  deriving DecidableEq, Repr, Inhabited

/-- The word for a kind. -/
def Kind.name : Kind → String
  | .nullish => "nullish" | .reference => "reference" | .number => "number" | .bool => "bool"
  | .string => "string" | .array => "array" | .object => "object" | .cell => "cell"

/-- What a value is, the broader kind first. -/
def Value.kinds : Value → List Kind
  | .undefined | .null => [.nullish]
  | .bool _ => [.bool]
  | .number _ => [.number]
  | .string _ => [.string]
  | .array _ => [.reference, .array]
  | .object _ => [.reference, .object]
  | .cell _ => [.reference, .cell]
  | .function _ => [.reference]

/-- What a value is and can be taken as. -/
structure Coerced where
  kinds : List Kind
  typeName : String
  truthy : Bool
  number : Float
  text : String
  /-- The value, or the value held if it is a cell. -/
  unwrapped : Snapshot
  deriving Inhabited

/-- What a value is and can be taken as. -/
def Store.coerced (s : Store) (v : Value) : Coerced where
  kinds := v.kinds
  typeName := s.typeName v
  truthy := s.isTruthy v
  number := s.toNumber v
  text := s.display v
  unwrapped := s.snapshot (s.unwrap v)

end LiveMarkup
