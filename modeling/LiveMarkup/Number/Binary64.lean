/-!
# Doubles as exact numbers

A finite double is a sign, a natural mantissa and a power of two.  The functions here that must be
exact (integer part, floor, remainder, conversion to bounded integers) work on that view in `Nat`
and `Int`, so what they compute can be read off without knowing how hardware rounds.

## Main definitions

* `Exact`, `Exact.ofFloat` — the view of a double.
* `Exact.integerPart` — the integer part of a magnitude.
* `assemble` — the double with a given sign, mantissa and exponent.
* `truncate`, `floor`, `ceiling`, `remainder` — exact operations on doubles.
* `toInteger`, `saturate` — conversions to integers and to natural numbers up to a bound.
-/

namespace LiveMarkup.Number

/-- What a double stands for. -/
inductive Exact
  /-- Not a number. -/
  | nan
  /-- An infinity with its sign. -/
  | infinite (negative : Bool)
  /-- `mantissa * 2 ^ exponent`, negated if `negative`; a zero has mantissa `0`. -/
  | finite (negative : Bool) (mantissa : Nat) (exponent : Int)
  deriving DecidableEq, Repr, Inhabited

namespace Exact

/-- Splits the 64 bits of a double into sign, exponent and fraction. -/
def ofBits (bits : Nat) : Exact :=
  let negative := bits / Nat.pow 2 63 % 2 == 1
  let field : Nat := bits / Nat.pow 2 52 % Nat.pow 2 11
  let fraction : Nat := bits % Nat.pow 2 52
  if field = 2047 then
    if fraction = 0 then .infinite negative else .nan
  else if field = 0 then .finite negative fraction (-1074)
  else .finite negative (fraction + Nat.pow 2 52) ((field : Int) - 1075)

/-- The exact view of a double. -/
def ofFloat (x : Float) : Exact := ofBits x.toBits.toNat

/-- The integer part of `mantissa * 2 ^ exponent`. -/
def integerPart (mantissa : Nat) (exponent : Int) : Nat :=
  if 0 ≤ exponent then mantissa * Nat.pow 2 exponent.toNat
  else mantissa / Nat.pow 2 (-exponent).toNat

/-- Whether `mantissa * 2 ^ exponent` has no fractional part. -/
def isIntegral (mantissa : Nat) (exponent : Int) : Bool :=
  decide (0 ≤ exponent) || mantissa % Nat.pow 2 (-exponent).toNat == 0

end Exact

/-- The bits of `mantissa * 2 ^ exponent`, for a value that a double can hold.  The mantissa is
moved to its 53 bits, or as far down as the smallest exponent allows. -/
def magnitudeBits (mantissa : Nat) (exponent : Int) : Nat :=
  if mantissa = 0 then 0
  else
    let target := max (-1074) (exponent + (mantissa.log2 : Int) - 52)
    let moved := if target ≤ exponent then mantissa * Nat.pow 2 (exponent - target).toNat
      else mantissa / Nat.pow 2 (target - exponent).toNat
    if 971 < target then 2047 * Nat.pow 2 52
    else if moved < Nat.pow 2 52 then moved
    else (target + 1075).toNat * Nat.pow 2 52 + (moved - Nat.pow 2 52)

/-- The double with the given sign and magnitude `mantissa * 2 ^ exponent`. -/
def assemble (negative : Bool) (mantissa : Nat) (exponent : Int) : Float :=
  let sign := if negative then Nat.pow 2 63 else 0
  Float.ofBits (UInt64.ofNat (magnitudeBits mantissa exponent + sign))

/-- Not a number. -/
def nan : Float := Float.ofBits 0x7ff8000000000000

/-- Positive infinity. -/
def infinity : Float := Float.ofBits 0x7ff0000000000000

/-- The integer towards zero from `x`; a fraction between `-1` and `0` gives negative zero. -/
def truncate (x : Float) : Float :=
  match Exact.ofFloat x with
  | .finite negative m e => if 0 ≤ e then x else assemble negative (Exact.integerPart m e) 0
  | _ => x

/-- The greatest integer not above `x`. -/
def floor (x : Float) : Float :=
  match Exact.ofFloat x with
  | .finite negative m e =>
    if 0 ≤ e then x
    else if negative && !Exact.isIntegral m e then assemble true (Exact.integerPart m e + 1) 0
    else assemble negative (Exact.integerPart m e) 0
  | _ => x

/-- The least integer not below `x`. -/
def ceiling (x : Float) : Float := -floor (-x)

/-- Whether `x` is finite and has no fractional part. -/
def isInteger (x : Float) : Bool :=
  match Exact.ofFloat x with
  | .finite _ m e => Exact.isIntegral m e
  | _ => false

/-- What is left of `x` after taking away `y` as often as it fits, with the sign of `x`. -/
def remainder (x y : Float) : Float :=
  match Exact.ofFloat x, Exact.ofFloat y with
  | .finite negative m e, .finite _ m' e' =>
    if m' = 0 then nan
    else
      let unit := min e e'
      assemble negative (m * Nat.pow 2 (e - unit).toNat % (m' * Nat.pow 2 (e' - unit).toNat)) unit
  | .finite .., .infinite _ => x
  | _, _ => nan

/-- The integer part of `x`, moved into `0 .. bound`; not a number gives `0`. -/
def saturate (bound : Nat) (x : Float) : Nat :=
  match Exact.ofFloat x with
  | .nan => 0
  | .infinite negative => if negative then 0 else bound
  | .finite negative m e => if negative then 0 else min bound (Exact.integerPart m e)

/-- The largest position and count a text or list operation works with. -/
def maxWord : Nat := Nat.pow 2 64 - 1

/-- The integer part of `x` as a position or count. -/
def toIndex (x : Float) : Nat := saturate maxWord x

/-- The integer towards zero from `x`; not a number gives `0`, and infinities give an integer beyond
every position. -/
def toInteger (x : Float) : Int :=
  match Exact.ofFloat x with
  | .nan => 0
  | .infinite negative => if negative then -(Nat.pow 2 64 : Int) else Nat.pow 2 64
  | .finite negative m e =>
    if negative then -(Exact.integerPart m e : Int) else Exact.integerPart m e

/-- Whether `x` is the number zero, of either sign. -/
def isZero (x : Float) : Bool := x == 0.0

end LiveMarkup.Number
