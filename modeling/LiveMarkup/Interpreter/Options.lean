import LiveMarkup.Interpreter.Validator
import LiveMarkup.Json
import LiveMarkup.Number.Word
import LiveMarkup.Text.Search

/-!
# Settings of an interpreter

How many compiled functions are kept and which names may not be called.  Settings can be read from a
document or from two variables of the environment.

## Main definitions

* `Options` — the settings, with their defaults.
* `Options.ofJson?`, `Options.toJson` — settings in documents.
* `Options.ofEnvironment` — settings from the environment.
* `Options.validate` — whether every denied entry is a name.
-/

namespace LiveMarkup

open Number Text Syntax

/-- The settings of an interpreter. -/
structure Options where
  /-- The most compiled functions kept. -/
  cacheCapacity : Nat := 1000
  /-- The names that may not be called. -/
  denylist : List String := defaultDenylist
  deriving DecidableEq, Repr, Inhabited

/-- The variable that replaces the capacity. -/
def capacityVariable : String := "REACTIVE_EXPR_CACHE_CAPACITY"

/-- The variable that adds names to the default ones, with commas between them. -/
def denylistVariable : String := "REACTIVE_EXPR_DENYLIST"

/-- What can be wrong with settings. -/
inductive OptionsError
  /-- The text given for the capacity is no numeral. -/
  | invalidValue (variableName : String) (reason : WordError)
  | invalidName (error : InvalidName)
  deriving DecidableEq, Repr, Inhabited

/-- The wording of the error. -/
def OptionsError.message : OptionsError → String
  | .invalidValue variableName reason =>
    "invalid value for " ++ variableName ++ ": " ++ reason.message
  | .invalidName error => error.message

namespace Options

/-- Whether every denied entry is a name, but for white space around it. -/
def validate (o : Options) : Except OptionsError Unit :=
  match o.denylist.find? fun entry => !isName (trimmed entry) with
  | some entry => .error (.invalidName ⟨entry⟩)
  | none => .ok ()

/-! ### Documents -/

/-- The texts of an array of texts. -/
def texts? : List Json → Option (List String)
  | [] => some []
  | .string s :: rest => (texts? rest).map (s :: ·)
  | _ :: _ => none

/-- Settings with the capacity that a document gives: a natural number of at most 64 bits. -/
def withCapacity? (o : Options) : Json → Option Options
  | .integer (.ofNat n) => some { o with cacheCapacity := n }
  | _ => none

/-- Settings with the denied names that a document gives. -/
def withDenylist? (o : Options) : Json → Option Options
  | .array items => (texts? items).map fun names => { o with denylist := names }
  | _ => none

/-- Settings changed by one entry of an object; entries of other names do not count. -/
def withEntry? (o : Options) : String × Json → Option Options
  | ("cache-capacity", j) => o.withCapacity? j
  | ("denylist", j) => o.withDenylist? j
  | _ => some o

/-- The settings that a document gives: an object, or a list of the values in order.  What is
missing is as in the defaults. -/
def ofJson? : Json → Option Options
  | .object entries => (Json.sortEntries entries).foldlM withEntry? {}
  | .array [] => some {}
  | .array [capacity] => withCapacity? {} capacity
  | .array [capacity, denylist] =>
    (withCapacity? {} capacity).bind fun o => o.withDenylist? denylist
  | _ => none

/-- The document that shows settings. -/
def toJson (o : Options) : Json :=
  .object [("cache-capacity", .integer o.cacheCapacity),
    ("denylist", .array (o.denylist.map .string))]

/-! ### Environment -/

/-- The capacity that a variable gives. -/
def capacityOfText (text : String) : Except OptionsError Nat :=
  match readWord 10 (trim text.toList) with
  | .ok n => .ok n
  | .error reason => .error (.invalidValue capacityVariable reason)

/-- The names in a text with commas between them, without white space around them; empty ones do not
count. -/
def namesOfText (text : String) : List String :=
  ((splitAt [','] text.toList).map fun piece => String.ofList (trim piece)).filter fun name =>
    !name.isEmpty

/-- Adds a name unless it is there. -/
def addName (names : List String) (name : String) : List String :=
  if names.contains name then names else names ++ [name]

/-- The defaults, with another capacity and further denied names if the variables are set. -/
def ofEnvironment (capacity denylist : Option String) : Except OptionsError Options := do
  let capacity ←
    match capacity with
    | some text => capacityOfText text
    | none => pure 1000
  let names := ((denylist.map namesOfText).getD []).foldl addName defaultDenylist
  let o : Options := { cacheCapacity := capacity, denylist := names }
  o.validate
  return o

end Options

end LiveMarkup
