import LiveMarkup.Builtin.ArrayMethod

/-!
# Builtin methods

Strings, arrays and numbers have methods of their own; every value has `toString` and `valueOf`.

## Main definitions

* `NumberMethod` — the methods of numbers.
* `Store.callBuiltin` — a builtin method of any value, if there is one of that name.
-/

namespace LiveMarkup

open Number Eval

/-- The methods of numbers. -/
inductive NumberMethod
  | toFixed | toString
  deriving DecidableEq, Repr, Inhabited

namespace NumberMethod

/-- The number with so many places as asked for. -/
def fixedText (s : Store) (x : Float) (digits : Option Value) : Except EvalError Value :=
  let places :=
    match digits with
    | none | some .undefined => 0
    | some v => toInteger (s.toNumber v)
  if 0 ≤ places ∧ places ≤ 100 then .ok (.string (writtenFixed x places.toNat))
  else .error (.type .fixedDigits)

/-- The number in the radix asked for. -/
def radixText (s : Store) (x : Float) (radix : Value) : Except EvalError Value :=
  let radix := s.toNumber radix
  if 2.0 ≤ radix ∧ radix ≤ 36.0 then .ok (.string (writtenInRadix x (toIndex radix)))
  else .error (.type .radix)

/-- Calls the method of a number with the given name, if it has one for these arguments. -/
def call? (s : Store) (x : Float) (name : String) (args : List Value) :
    Option (Except EvalError Value) :=
  match name with
  | "toFixed" => some (fixedText s x args.head?)
  | "toString" =>
    match args.head? with
    | some radix => if radix.isNullish then none else some (radixText s x radix)
    | none => none
  | _ => none

end NumberMethod

namespace Store

/-- The method of a value that depends on its type. -/
def ownMethod? (s : Store) (receiver : Value) (name : String) (args : List Value) :
    Option (Outcome Value) :=
  match receiver with
  | .string t => (StringMethod.named.lookup name).map fun m => m.apply t args s
  | .array r =>
    (ArrayMethod.named.lookup name).map fun m =>
      let (s, v) := m.apply r args s
      (s, .ok v)
  | .number x => (NumberMethod.call? s x name args).map fun result => (s, result)
  | _ => none

/-- The method that every value has. -/
def commonMethod? (s : Store) (receiver : Value) (name : String) : Option Value :=
  match name with
  | "toString" => some (.string (s.display receiver))
  | "valueOf" => some receiver
  | _ => none

/-- Calls a builtin method of a value that is not a cell, if there is one of that name. -/
def callBuiltin (s : Store) (receiver : Value) (name : String) (args : List Value) :
    Option (Outcome Value) :=
  (s.ownMethod? receiver name args).or ((s.commonMethod? receiver name).map fun v => (s, .ok v))

/-- Whether calling the named method of an array changes it. -/
def mutatesArray (name : String) : Bool :=
  (ArrayMethod.named.lookup name).any ArrayMethod.mutates

end Store

end LiveMarkup
