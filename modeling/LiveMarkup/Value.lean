import LiveMarkup.Bindings

/-!
# Values

The dynamic values that cells hold and expressions compute.  Primitives are held as they are;
arrays, objects and cells are references into a store, so that two references are the same value
exactly if they are equal.

## Main definitions

* `ArrayRef`, `ObjectRef`, `CellRef` — references into a store.
* `Function` — the functions an expression can call.
* `Value` — a value.
* `Value.strictEquals` — the relation `===`.
* `Entity`, `references` — what values refer to.
* `Snapshot` — a value written out, with everything it refers to.
-/

namespace LiveMarkup

/-- A shared, mutable list. -/
structure ArrayRef where
  id : Nat
  deriving DecidableEq, Repr, Inhabited

/-- A shared, mutable map from property names to values. -/
structure ObjectRef where
  id : Nat
  deriving DecidableEq, Repr, Inhabited

/-- An observable cell. -/
structure CellRef where
  id : Nat
  deriving DecidableEq, Repr, Inhabited

/-- A subscriber callback. -/
structure CallbackRef where
  id : Nat
  deriving DecidableEq, Repr, Inhabited

/-- A stream of the notification passes of a cell. -/
structure StreamRef where
  id : Nat
  deriving DecidableEq, Repr, Inhabited

/-- A queue of notification passes. -/
structure QueueRef where
  id : Nat
  deriving DecidableEq, Repr, Inhabited

/-- The functions of the `Math` object. -/
inductive MathFunction
  | abs | ceil | floor | round | trunc | sign | sqrt | log | exp | pow | min | max
  deriving DecidableEq, Repr, Inhabited

/-- The functions that every expression finds under a name of its own. -/
inductive BuiltinFunction
  | string | number | boolean | parseInt | parseFloat | isNaN
  | math (function : MathFunction)
  deriving DecidableEq, Repr, Inhabited

/-- The functions a host supplies. -/
inductive HostFunction
  /-- Gives back its first argument as it is. -/
  | echo
  /-- Counts its arguments. -/
  | argc
  /-- Adds up its arguments. -/
  | sum
  /-- Fails with its first argument as a text. -/
  | fail
  /-- Takes down its arguments. -/
  | record
  deriving DecidableEq, Repr, Inhabited

/-- A function.  Each host function made is a function of its own. -/
inductive Function
  | builtin (function : BuiltinFunction)
  | host (function : HostFunction) (id : Nat)
  deriving DecidableEq, Repr, Inhabited

/-- The name under which `Math` has the function. -/
def MathFunction.name : MathFunction → String
  | .abs => "abs" | .ceil => "ceil" | .floor => "floor" | .round => "round" | .trunc => "trunc"
  | .sign => "sign" | .sqrt => "sqrt" | .log => "log" | .exp => "exp" | .pow => "pow"
  | .min => "min" | .max => "max"

/-- The name of a builtin function. -/
def BuiltinFunction.name : BuiltinFunction → String
  | .string => "String" | .number => "Number" | .boolean => "Boolean" | .parseInt => "parseInt"
  | .parseFloat => "parseFloat" | .isNaN => "isNaN" | .math f => f.name

/-- The name of a host function. -/
def HostFunction.name : HostFunction → String
  | .echo => "echo" | .argc => "argc" | .sum => "sum" | .fail => "fail" | .record => "record"

/-- The name of a function. -/
def Function.name : Function → String
  | .builtin f => f.name
  | .host f _ => f.name

/-- A value. -/
inductive Value
  /-- The absent value. -/
  | undefined
  /-- The explicit empty value. -/
  | null
  | bool (b : Bool)
  | number (x : Float)
  | string (s : String)
  | array (ref : ArrayRef)
  | object (ref : ObjectRef)
  | cell (ref : CellRef)
  | function (f : Function)
  deriving Inhabited

namespace Value

/-- Whether the value is `undefined` or `null`. -/
def isNullish : Value → Bool
  | .undefined | .null => true
  | _ => false

/-- Whether the value is an array, object, cell or function. -/
def isReference : Value → Bool
  | .array _ | .object _ | .cell _ | .function _ => true
  | _ => false

/-- The word for a nullish value. -/
def nullishName? : Value → Option String
  | .undefined => some "undefined"
  | .null => some "null"
  | _ => none

/-- The relation `===`: primitives by value, all else by identity. -/
def strictEquals : Value → Value → Bool
  | .undefined, .undefined => true
  | .null, .null => true
  | .bool a, .bool b => a == b
  | .number a, .number b => a == b
  | .string a, .string b => a == b
  | .array a, .array b => a == b
  | .object a, .object b => a == b
  | .cell a, .cell b => a == b
  | .function a, .function b => a == b
  | _, _ => false

/-- A text as a value. -/
def ofChars (cs : List Char) : Value := .string (String.ofList cs)

end Value

/-- Something of the store that a value refers to. -/
inductive Entity
  | array (ref : ArrayRef)
  | object (ref : ObjectRef)
  | cell (ref : CellRef)
  deriving DecidableEq, Repr, Inhabited

/-- What a value refers to in the store. -/
def Value.entity? : Value → Option Entity
  | .array r => some (.array r)
  | .object r => some (.object r)
  | .cell r => some (.cell r)
  | _ => none

/-- What values refer to in the store, in order. -/
def references (vs : List Value) : List Entity := vs.filterMap Value.entity?

/-- A value written out.  Where something contains itself, `cycle i` stands for the part that is the
`i`-th on the way from the whole, counted from `0`. -/
inductive Snapshot
  | undefined
  | null
  | bool (b : Bool)
  | number (x : Float)
  | string (s : String)
  | array (items : List Snapshot)
  | object (entries : List (String × Snapshot))
  | cell (held : Snapshot)
  | function (name : String)
  | cycle (level : Nat)
  deriving Inhabited

end LiveMarkup
