import LiveMarkup.Store.Coercion
import LiveMarkup.Number.Word

/-!
# Properties

Reading and writing a property of a value in place.  Objects have any property; arrays and texts
have `length` and the properties named by index numerals; cells pass reads on to what they hold.

## Main definitions

* `indexOfKey?` — the index a property name stands for.
* `PropertyError` — why a write is refused, with its wording.
* `Store.property` — reading.
* `Store.setItem`, `Store.setLength`, `Store.setProperty` — writing.
-/

namespace LiveMarkup

open Number

/-- The index that a property name stands for: a numeral below `2 ^ 64` without leading zeros. -/
def indexOfKey? (key : String) : Option Nat :=
  match key.toList with
  | '0' :: _ :: _ => none
  | cs => (readWord 10 cs).toOption

/-- The highest index an element can be written at. -/
def maxArrayIndex : Nat := Nat.pow 2 32 - 2

/-- The most slots a single write may add past the end of an array. -/
def maxArrayGrowth : Nat := Nat.pow 2 16

/-- Why a property write is refused. -/
inductive PropertyError
  /-- The value cannot hold the property. -/
  | notWritable (key : String) (typeName : String)
  /-- `length` would become something other than a natural number. -/
  | invalidLength (shown : String)
  /-- The element would lie too high, or too far past the end. -/
  | outOfRange (index length : Nat)
  deriving DecidableEq, Repr, Inhabited

/-- The wording of the error. -/
def PropertyError.message : PropertyError → String
  | .notWritable key typeName => "cannot create property '" ++ key ++ "' on " ++ typeName
  | .invalidLength shown => "invalid array length: " ++ shown
  | .outOfRange index length =>
    "array index " ++ toString index ++ " out of range for an array of length " ++ toString length

/-- Whether an array of length `length` may grow to hold an element at `index`, at or past its end.
-/
def checkGrowth (length index : Nat) : Except PropertyError Unit :=
  if maxArrayIndex < index ∨ maxArrayGrowth < index - length then
    .error (.outOfRange index length)
  else .ok ()

/-- The list cut or filled up with `undefined` to the given length. -/
def resized (items : List Value) (length : Nat) : List Value :=
  items.take length ++ List.replicate (length - items.length) .undefined

theorem length_resized (items : List Value) (n : Nat) : (resized items n).length = n := by
  simp only [resized, List.length_append, List.length_take, List.length_replicate]
  omega

namespace Store

/-- The property of a value that is not a cell. -/
def ownProperty (s : Store) (v : Value) (key : String) : Value :=
  match v with
  | .object r => ((s.properties r).find? key).getD .undefined
  | .array r =>
    if key = "length" then .number (ofNat (s.items r).length)
    else ((indexOfKey? key).bind fun i => (s.items r)[i]?).getD .undefined
  | .string t =>
    if key = "length" then .number (ofNat t.toList.length)
    else
      match (indexOfKey? key).bind fun i => t.toList[i]? with
      | some c => .ofChars [c]
      | none => .undefined
  | _ => .undefined

/-- The property of a value. -/
def property (s : Store) (v : Value) (key : String) : Value := s.ownProperty (s.resolve v) key

/-- Writes an element, filling up with `undefined` if it lies past the end. -/
def setItem (s : Store) (r : ArrayRef) (index : Nat) (v : Value) : Except PropertyError Store :=
  let items := s.items r
  if index < items.length then .ok (s.setItems r (items.set index v))
  else do
    checkGrowth items.length index
    return s.setItems r (resized items index ++ [v])

/-- Cuts an array or fills it up with `undefined`. -/
def setLength (s : Store) (r : ArrayRef) (length : Nat) : Except PropertyError Store := do
  let items := s.items r
  if items.length < length then checkGrowth items.length (length - 1)
  return s.setItems r (resized items length)

/-- The number of elements that a value asks an array to have. -/
def lengthAsked? (s : Store) (v : Value) : Option Nat :=
  let n := s.toNumber v
  if isInteger n && 0.0 ≤ n then some (toIndex n) else none

/-- Writes a property in place. -/
def setProperty (s : Store) (target : Value) (key : String) (v : Value) :
    Except PropertyError Store :=
  match target with
  | .object r => .ok (s.setProperties r ((s.properties r).insert key v))
  | .array r =>
    if key = "length" then
      match s.lengthAsked? v with
      | some n => s.setLength r n
      | none => .error (.invalidLength (s.display v))
    else
      match indexOfKey? key with
      | some i => s.setItem r i v
      | none => .error (.notWritable key "array")
  | _ => .error (.notWritable key (s.typeName target))

end Store

end LiveMarkup
