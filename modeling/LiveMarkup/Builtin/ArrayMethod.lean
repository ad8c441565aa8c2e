import LiveMarkup.Builtin.StringMethod
import LiveMarkup.Store.Contents

/-!
# Methods of arrays

## Main definitions

* `ArrayMethod` — the methods, with their names.
* `ArrayMethod.mutates` — which of them change the array.
* `ArrayMethod.apply` — what they do.
-/

namespace LiveMarkup

open Number

/-- The methods of arrays. -/
inductive ArrayMethod
  | push | pop | shift | unshift | reverse | includes | indexOf | join | slice | concat | at
  | splice
  deriving DecidableEq, Repr, Inhabited

namespace ArrayMethod

/-- The methods under their names. -/
def named : List (String × ArrayMethod) := [
  ("push", .push), ("pop", .pop), ("shift", .shift), ("unshift", .unshift), ("reverse", .reverse),
  ("includes", .includes), ("indexOf", .indexOf), ("join", .join), ("slice", .slice),
  ("concat", .concat), ("at", .at), ("splice", .splice)]

/-- Whether a method changes the array it is called on. -/
def mutates : ArrayMethod → Bool
  | .push | .pop | .shift | .unshift | .reverse | .splice => true
  | _ => false

/-- Whether two values are the same element: `===`, or both not a number. -/
def sameElement (a b : Value) : Bool :=
  a.strictEquals b ||
    match a, b with
    | .number x, .number y => x.isNaN && y.isNaN
    | _, _ => false

/-- The texts of the elements with a separator between them; nullish elements write nothing. -/
def joined (s : Store) (separator : String) (items : List Value) : String :=
  String.intercalate separator (items.map fun v => if v.isNullish then "" else s.display v)

/-- What an argument of `concat` adds: the elements of an array, else the value itself. -/
def added (s : Store) (v : Value) : List Value :=
  match s.unwrap v with
  | .array r => s.items r
  | v => [v]

/-- How many elements `splice` removes when so many remain. -/
def removedCount (s : Store) (count : Option Value) (remaining : Nat) : Nat :=
  match count with
  | none => remaining
  | some v => min (toIndex (s.toNumber v)) remaining

/-- A number of elements as a result. -/
def counted (result : Store × Nat) : Store × Value := (result.1, .number (Number.ofNat result.2))

/-- An element taken out as a result, `undefined` if there was none. -/
def taken (result : Store × Option Value) : Store × Value := (result.1, result.2.getD .undefined)

/-- Calls a method of an array. -/
def apply (m : ArrayMethod) (r : ArrayRef) (args : List Value) (s : Store) : Store × Value :=
  let items := s.items r
  let first := argument args 0
  match m with
  | .push => counted (s.push r args)
  | .pop => taken (s.pop r)
  | .shift => taken (s.shift r)
  | .unshift => counted (s.unshift r args)
  | .reverse => (s.reverseItems r, .array r)
  | .includes => (s, .bool (items.any fun v => sameElement v first))
  | .indexOf =>
    (s, .number (match items.findIdx? fun v => v.strictEquals first with
      | some i => Number.ofNat i
      | none => -1.0))
  | .join => (s, .string (joined s (StringMethod.textOr s "," args.head?) items))
  | .slice =>
    let start := s.relativeIndex first items.length 0
    let stop := s.relativeIndex (argument args 1) items.length items.length
    s.newArrayValue (between items start stop)
  | .concat => s.newArrayValue (items ++ args.flatMap (added s))
  | .at => (s, ((s.elementIndex? first items.length).bind fun i => items[i]?).getD .undefined)
  | .splice =>
    let start := s.relativeIndex first items.length 0
    let count := removedCount s args[1]? (items.length - start)
    let s := s.setItems r (items.take start ++ args.drop 2 ++ items.drop (start + count))
    s.newArrayValue ((items.drop start).take count)

end ArrayMethod

end LiveMarkup
