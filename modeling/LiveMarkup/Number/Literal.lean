import LiveMarkup.Number.Decimal
import LiveMarkup.Number.Word
import LiveMarkup.Text.Blank

/-!
# Numbers read from text

The grammar of decimal literals, the conversion of a whole text to a number, and the longest number
a text starts with.

## Main definitions

* `splitDecimal` — the longest unsigned decimal literal a text starts with.
* `decimalLiteral?` — a whole text as a signed decimal literal.
* `ofText` — the conversion of a text to a number.
* `leadingNumber`, `leadingInteger` — the number a text starts with.
-/

namespace LiveMarkup.Number

open Text

/-- The number written by decimal digits. -/
def valueOfDigits (cs : List Char) : Nat :=
  cs.foldl (fun n c => n * 10 + (c.toNat - '0'.toNat)) 0

/-- Takes a sign off the front; the flag says whether it was a minus. -/
def splitSign : List Char → Bool × List Char
  | '-' :: cs => (true, cs)
  | '+' :: cs => (false, cs)
  | cs => (false, cs)

/-- The exponent part a text starts with, if it is complete, and what follows it. -/
def splitExponent (cs : List Char) : Int × List Char :=
  match cs with
  | c :: rest =>
    if c = 'e' ∨ c = 'E' then
      let (negative, digits) := splitSign rest
      match digits.takeWhile isDigit with
      | [] => (0, cs)
      | ds =>
        (if negative then -(valueOfDigits ds : Int) else valueOfDigits ds,
          digits.dropWhile isDigit)
    else (0, cs)
  | [] => (0, cs)

/-- The longest unsigned decimal literal a text starts with, and what follows it.  At least one
digit stands before or after the point. -/
def splitDecimal (cs : List Char) : Option (Decimal × List Char) :=
  let whole := cs.takeWhile isDigit
  let (fraction, rest) :=
    match cs.dropWhile isDigit with
    | '.' :: rest => (rest.takeWhile isDigit, rest.dropWhile isDigit)
    | rest => ([], rest)
  if whole.isEmpty && fraction.isEmpty then none
  else
    let (exponent, rest) := splitExponent rest
    some (⟨valueOfDigits (whole ++ fraction), exponent - fraction.length⟩, rest)

/-- The longest signed decimal literal a text starts with, as a double, and what follows it. -/
def splitSignedDecimal (cs : List Char) : Option (Float × List Char) :=
  let (negative, cs) := splitSign cs
  (splitDecimal cs).map fun (d, rest) => (nearest negative d, rest)

/-- The double a text writes, if all of it is a signed decimal literal. -/
def decimalLiteral? (cs : List Char) : Option Float :=
  match splitSignedDecimal cs with
  | some (x, []) => some x
  | _ => none

/-- The word for infinity. -/
def infinityWord : List Char := "Infinity".toList

/-- The conversion of a text to a number.  White space around it does not count, no text is zero,
and besides decimal literals there are signed infinities and hexadecimal numerals. -/
def ofText (s : String) : Float :=
  match trim s.toList with
  | [] => 0.0
  | '0' :: 'x' :: cs | '0' :: 'X' :: cs =>
    match readWord 16 cs with
    | .ok n => ofNat n
    | .error _ => nan
  | cs =>
    if cs = infinityWord ∨ cs = '+' :: infinityWord then infinity
    else if cs = '-' :: infinityWord then -infinity
    else (decimalLiteral? cs).getD nan

/-- The longest number a text starts with, after white space; not a number if there is none. -/
def leadingNumber (s : String) : Float :=
  let cs := trimStart s.toList
  if infinityWord.isPrefixOf cs || ('+' :: infinityWord).isPrefixOf cs then infinity
  else if ('-' :: infinityWord).isPrefixOf cs then -infinity
  else ((splitSignedDecimal cs).map (·.1)).getD nan

/-- The digits of the radix that a text starts with. -/
def leadingDigits (radix : Nat) (cs : List Char) : List Nat :=
  (cs.takeWhile fun c => (digitValue? radix c).isSome).filterMap (digitValue? radix)

/-- Takes a hexadecimal mark off the front. -/
def splitHexMark : List Char → Option (List Char)
  | '0' :: 'x' :: cs => some cs
  | '0' :: 'X' :: cs => some cs
  | _ => none

/-- The radix asked for, and whether it is left to the text. -/
def radixAsked : Option Float → Nat × Bool
  | some r =>
    if r.isFinite && !isZero (truncate r) then (saturate (Nat.pow 2 32 - 1) r, false)
    else (10, true)
  | none => (10, true)

/-- The integer a text starts with, after white space and a sign, in the radix asked for; a
hexadecimal mark is taken for radix 16 and when no radix is asked for. -/
def leadingInteger (s : String) (radix : Option Float) : Float :=
  let (negative, cs) := splitSign (trimStart s.toList)
  let (asked, detect) := radixAsked radix
  if asked < 2 ∨ 36 < asked then nan
  else
    let (radix, cs) :=
      match splitHexMark cs with
      | some rest => if asked = 16 ∨ detect then (16, rest) else (asked, cs)
      | none => (asked, cs)
    match leadingDigits radix cs with
    | [] => nan
    | ds =>
      let magnitude := ds.foldl (fun acc d => acc * ofNat radix + ofNat d) 0.0
      (if negative then -1.0 else 1.0) * magnitude

end LiveMarkup.Number
