import LiveMarkup.Builtin.Function
import LiveMarkup.Text.Casing
import LiveMarkup.Text.Length
import LiveMarkup.Text.Search

/-!
# Methods of strings

Positions count characters.  Arguments are coerced to texts and numbers; a missing position takes a
default.

## Main definitions

* `relativeIndex`, `elementIndex?` — positions that may count from the end.
* `StringMethod` — the methods, with their names.
* `StringMethod.apply` — what they do.
-/

namespace LiveMarkup

open Number Text Eval

/-- A position in a list of the given length: negative ones count from the end, and all are moved
into the list; a nullish value gives the default. -/
def Store.relativeIndex (s : Store) (v : Value) (length default : Nat) : Nat :=
  if v.isNullish then default
  else
    let i := toInteger (s.toNumber v)
    if i < 0 then (length + i).toNat else min i.toNat length

/-- The position of an element: negative ones count from the end. -/
def Store.elementIndex? (s : Store) (v : Value) (length : Nat) : Option Nat :=
  let i := toInteger (s.toNumber v)
  let i := if i < 0 then length + i else i
  if 0 ≤ i ∧ i < length then some i.toNat else none

/-- A position in a list of the given length: what lies outside is moved to the nearest end; a
nullish value gives the default. -/
def Store.clampedIndex (s : Store) (v : Value) (length default : Nat) : Nat :=
  if v.isNullish then default else min (toIndex (s.toNumber v)) length

/-- The part of a list from one position up to another, none if they cross. -/
def between {α : Type} (xs : List α) (start stop : Nat) : List α := (xs.take stop).drop start

/-- The longest text a method builds. -/
def maxStringLength : Nat := Nat.pow 2 29 - 24

/-- The methods of strings. -/
inductive StringMethod
  | toUpperCase | toLowerCase | trim | trimStart | trimEnd | includes | startsWith | endsWith
  | indexOf | slice | substring | split | repeated | padStart | padEnd | charAt | at | concat
  | replace | replaceAll
  deriving DecidableEq, Repr, Inhabited

namespace StringMethod

/-- The methods under their names. -/
def named : List (String × StringMethod) := [
  ("toUpperCase", .toUpperCase), ("toLowerCase", .toLowerCase), ("trim", .trim),
  ("trimStart", .trimStart), ("trimEnd", .trimEnd), ("includes", .includes),
  ("startsWith", .startsWith), ("endsWith", .endsWith), ("indexOf", .indexOf), ("slice", .slice),
  ("substring", .substring), ("split", .split), ("repeat", .repeated), ("padStart", .padStart),
  ("padEnd", .padEnd), ("charAt", .charAt), ("at", .at), ("concat", .concat),
  ("replace", .replace), ("replaceAll", .replaceAll)]

/-- A text several times in a row. -/
def repeatText (cs : List Char) (count : Float) : Except EvalError Value :=
  if count < 0.0 || count.isInf then .error (.type (.invalidCount (written count)))
  else
    let n := toIndex count
    if cs.isEmpty || n = 0 then .ok (.string "")
    else if byteLength cs * n ≤ maxStringLength then .ok (.ofChars (List.replicate n cs).flatten)
    else .error (.type .invalidStringLength)

/-- What fills a text up to the wanted length. -/
def padding (cs fill : List Char) (target : Nat) : Except EvalError (List Char) :=
  if target ≤ cs.length || fill.isEmpty then .ok []
  else if maxStringLength < target then .error (.type .invalidStringLength)
  else .ok (cycled (target - cs.length) fill)

/-- The text of an argument that has a default. -/
def textOr (s : Store) (default : String) : Option Value → String
  | none | some .undefined => default
  | some v => s.display v

/-- The pieces of a text at a separator; the whole if there is none. -/
def pieces (s : Store) (text : List Char) : Option Value → List Value
  | none | some .undefined => [.ofChars text]
  | some separator =>
    match (s.display separator).toList with
    | [] => text.map fun c => .ofChars [c]
    | separator => (splitAt separator text).map .ofChars

/-- Calls a method of the string `text`. -/
def apply (m : StringMethod) (text : String) (args : List Value) (s : Store) : Outcome Value :=
  let cs := text.toList
  let shown (i : Nat) : List Char := (s.display (argument args i)).toList
  match m with
  | .toUpperCase => (s, .ok (.ofChars (toUpper cs)))
  | .toLowerCase => (s, .ok (.ofChars (toLower cs)))
  | .trim => (s, .ok (.ofChars (Text.trim cs)))
  | .trimStart => (s, .ok (.ofChars (Text.trimStart cs)))
  | .trimEnd => (s, .ok (.ofChars (Text.trimEnd cs)))
  | .includes => (s, .ok (.bool (occursIn (shown 0) cs)))
  | .startsWith => (s, .ok (.bool ((shown 0).isPrefixOf cs)))
  | .endsWith => (s, .ok (.bool ((shown 0).isSuffixOf cs)))
  | .indexOf =>
    (s, .ok (.number (match position? (shown 0) cs with | some i => Number.ofNat i | none => -1.0)))
  | .slice =>
    let start := s.relativeIndex (argument args 0) cs.length 0
    let stop := s.relativeIndex (argument args 1) cs.length cs.length
    (s, .ok (.ofChars (between cs start stop)))
  | .substring =>
    let a := s.clampedIndex (argument args 0) cs.length 0
    let b := s.clampedIndex (argument args 1) cs.length cs.length
    (s, .ok (.ofChars (between cs (min a b) (max a b))))
  | .split =>
    let (s, v) := s.newArrayValue (pieces s cs args.head?)
    (s, .ok v)
  | .repeated => (s, repeatText cs (s.toNumber (argument args 0)))
  | .padStart =>
    let fill := (textOr s " " args[1]?).toList
    (s, (padding cs fill (toIndex (s.toNumber (argument args 0)))).map fun p => .ofChars (p ++ cs))
  | .padEnd =>
    let fill := (textOr s " " args[1]?).toList
    (s, (padding cs fill (toIndex (s.toNumber (argument args 0)))).map fun p => .ofChars (cs ++ p))
  | .charAt =>
    let i := toInteger (s.toNumber (argument args 0))
    (s, .ok (.ofChars (if i < 0 then [] else (cs[i.toNat]?).toList)))
  | .at =>
    (s, .ok (match (s.elementIndex? (argument args 0) cs.length).bind fun i => cs[i]? with
      | some c => .ofChars [c]
      | none => .undefined))
  | .concat => (s, .ok (.string (args.foldl (fun text v => text ++ s.display v) text)))
  | .replace => (s, .ok (.ofChars (replaceFirst (shown 0) (shown 1) cs)))
  | .replaceAll => (s, .ok (.ofChars (replaceEvery (shown 0) (shown 1) cs)))

end StringMethod

end LiveMarkup
