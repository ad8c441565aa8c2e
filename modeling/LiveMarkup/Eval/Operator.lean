import LiveMarkup.Store.Equality
import LiveMarkup.Syntax.Tree

/-!
# Operators

Operators see through cells: they work with the values that cells hold.

## Main definitions

* `unary`, `binary` — what the operators compute.
* `compareValues` — the order that `<` and its relatives go by.
-/

namespace LiveMarkup.Eval

open Syntax Number

/-- What a unary operator computes. -/
def unary (s : Store) (op : UnaryOp) (v : Value) : Value :=
  match op with
  | .not => .bool (!s.isTruthy v)
  | .negate => .number (-s.toNumber v)
  | .plus => .number (s.toNumber v)
  | .typeOf => .string (s.typeName v)

/-- The order of two numbers; none if one is not a number. -/
def compareNumbers (x y : Float) : Option Ordering :=
  if x < y then some .lt else if x == y then some .eq else if y < x then some .gt else none

/-- The order of two texts, by code points. -/
def compareTexts (a b : String) : Ordering :=
  if a = b then .eq else if a < b then .lt else .gt

/-- The order of two values: two texts by their characters, all else as numbers. -/
def compareValues (s : Store) (left right : Value) : Option Ordering :=
  match s.toPrimitive left, s.toPrimitive right with
  | .string a, .string b => some (compareTexts a b)
  | a, b => compareNumbers (s.toNumber a) (s.toNumber b)

/-- The sum of two values: texts are joined if either side is one. -/
def add (s : Store) (left right : Value) : Value :=
  match s.toPrimitive left, s.toPrimitive right with
  | .string a, b => .string (a ++ s.display b)
  | a, .string b => .string (s.display a ++ b)
  | a, b => .number (s.toNumber a + s.toNumber b)

/-- What a binary operator computes. -/
def binary (s : Store) (op : BinaryOp) (left right : Value) : Value :=
  match op with
  | .add => add s left right
  | .sub => .number (s.toNumber left - s.toNumber right)
  | .mul => .number (s.toNumber left * s.toNumber right)
  | .div => .number (s.toNumber left / s.toNumber right)
  | .rem => .number (remainder (s.toNumber left) (s.toNumber right))
  | .pow => .number ((s.toNumber left).pow (s.toNumber right))
  | .less => .bool (compareValues s left right == some .lt)
  | .lessEqual => .bool ((compareValues s left right).any (· != .gt))
  | .greater => .bool (compareValues s left right == some .gt)
  | .greaterEqual => .bool ((compareValues s left right).any (· != .lt))
  | .equal => .bool (s.looseEquals left right)
  | .notEqual => .bool (!s.looseEquals left right)
  | .strictEqual => .bool ((s.unwrap left).strictEquals (s.unwrap right))
  | .strictNotEqual => .bool (!(s.unwrap left).strictEquals (s.unwrap right))

end LiveMarkup.Eval
