import LiveMarkup.Number.Decimal

/-!
# Numbers written as text

How the expression language writes a number: integers with all their digits up to `10 ^ 21`, other
numbers with the fewest digits that read back, never with an exponent and never as negative zero.

## Main definitions

* `written` — the text of a number.
* `writtenFixed` — the text with a given number of places.
* `writtenInRadix` — the integer part in another base.
-/

namespace LiveMarkup.Number

/-- A text with a minus sign in front if asked. -/
def signed (negative : Bool) (cs : List Char) : List Char := if negative then '-' :: cs else cs

/-- The text of a number. -/
def written (x : Float) : String :=
  match Exact.ofFloat x with
  | .nan => "NaN"
  | .infinite negative => if negative then "-Infinity" else "Infinity"
  | .finite negative m e =>
    if m = 0 then "0"
    else if Exact.isIntegral m e && Exact.integerPart m e < Nat.pow 10 21 then
      String.ofList (signed negative (digitsOf (Exact.integerPart m e)))
    else String.ofList (signed negative (shortest m e).positional)

/-- The text of a number with `places` digits after the point; zero keeps its sign. -/
def writtenFixed (x : Float) (places : Nat) : String :=
  match Exact.ofFloat x with
  | .finite negative m e => String.ofList (signed negative (fixed places m e))
  | _ => written x

/-- The digit for a number below `36`: a decimal digit, then the letters from `a` on. -/
def digitOf (d : Nat) : Char :=
  if d < 10 then Char.ofNat ('0'.toNat + d) else Char.ofNat ('a'.toNat + (d - 10))

/-- The digits of `n` in base `radix`, lowest first. -/
def digitsUpward (radix : Nat) : Nat → Nat → List Char
  | 0, _ => []
  | fuel + 1, n =>
    if n = 0 then [] else digitOf (n % radix) :: digitsUpward radix fuel (n / radix)

/-- The integer part of a number in base `radix`; base ten writes the whole number.  The magnitude
is bounded by the largest word, which has 64 binary digits. -/
def writtenInRadix (x : Float) (radix : Nat) : String :=
  match Exact.ofFloat x with
  | .finite negative m e =>
    if radix = 10 then written x
    else
      match min maxWord (Exact.integerPart m e) with
      | 0 => "0"
      | n => String.ofList (signed negative (digitsUpward radix 64 n).reverse)
  | _ => written x

end LiveMarkup.Number
