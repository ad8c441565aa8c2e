import LiveMarkup.Number.Binary64

/-!
# Decimal notation of doubles

Three ways to write the magnitude of a double in base ten: its shortest decimal that reads back,
its exact value rounded to a number of places, and, for integers, all digits.

## Main definitions

* `Decimal` — a natural number times a power of ten.
* `shortest` — the decimal with the fewest digits that rounds to the given double.
* `fixed` — a magnitude rounded to a number of places, ties to even.
* `nearest` — the double nearest to a decimal.
-/

namespace LiveMarkup.Number

/-- The number `digits * 10 ^ exponent`. -/
structure Decimal where
  digits : Nat
  exponent : Int
  deriving DecidableEq, Repr, Inhabited

/-- The number of decimal digits of `n`; none for `0`. -/
def digitCount (n : Nat) : Nat := if n = 0 then 0 else (Nat.toDigits 10 n).length

/-- The decimal digits of `n`. -/
def digitsOf (n : Nat) : List Char := Nat.toDigits 10 n

/-- A positive magnitude `mantissa * 2 ^ exponent` as a quotient of natural numbers. -/
def asQuotient (mantissa : Nat) (exponent : Int) : Nat × Nat :=
  (mantissa * Nat.pow 2 exponent.toNat, Nat.pow 2 (-exponent).toNat)

/-- The power of ten of the leading digit of `num / den`. -/
def leadingPower (num den : Nat) : Int :=
  if den ≤ num then (digitCount (num / den) : Int) - 1
  else -(digitCount ((den + num - 1) / num - 1) : Int)

/-- Whether `c * 10 ^ k` rounds to the double `m * 2 ^ e`, where `a / b` is that double in units of
`10 ^ k`.  The ends of the interval of numbers that do belong to it exactly if `m` is even. -/
def roundsTo (m : Nat) (e : Int) (a b c : Nat) : Bool :=
  let below := if m = Nat.pow 2 52 ∧ -1074 < e then 1 else 2
  let scaled := c * b * (4 * m)
  if m % 2 = 0 then a * (4 * m - below) ≤ scaled && scaled ≤ a * (4 * m + 2)
  else a * (4 * m - below) < scaled && scaled < a * (4 * m + 2)

/-- The better of the two neighbours of `m * 2 ^ e` among the multiples of `10 ^ k`, if one of them
rounds to it; of two at the same distance, the upper one. -/
def neighbour? (m : Nat) (e : Int) (k : Int) : Option Decimal :=
  let (num, den) := asQuotient m e
  let a := num * Nat.pow 10 (-k).toNat
  let b := den * Nat.pow 10 k.toNat
  let c := a / b
  match roundsTo m e a b c, roundsTo m e a b (c + 1) with
  | true, true => some ⟨if 2 * (a - c * b) < b then c else c + 1, k⟩
  | true, false => some ⟨c, k⟩
  | false, true => some ⟨c + 1, k⟩
  | false, false => none

/-- Tries grids of ever more digits; seventeen always suffice. -/
def shortestFrom (m : Nat) (e : Int) (power : Int) : Nat → Nat → Decimal
  | 0, n => (neighbour? m e (power - n)).getD ⟨0, 0⟩
  | left + 1, n => (neighbour? m e (power - n)).getD (shortestFrom m e power left (n + 1))

/-- The decimal with the fewest digits that rounds to the double `m * 2 ^ e`, `0 < m`. -/
def shortest (m : Nat) (e : Int) : Decimal :=
  let (num, den) := asQuotient m e
  shortestFrom m e (leadingPower num den) 17 0

/-- The text without the zeros it ends in. -/
def dropTrailingZeros (cs : List Char) : List Char := (cs.reverse.dropWhile (· == '0')).reverse

/-- Digits with a decimal point before the last `places` of them. -/
def withPoint (places : Nat) (digits : List Char) : List Char × List Char :=
  let padded := List.replicate (places + 1 - digits.length) '0' ++ digits
  (padded.take (padded.length - places), padded.drop (padded.length - places))

/-- Positional notation, without an exponent and without zeros at the end of the fraction. -/
def Decimal.positional (d : Decimal) : List Char :=
  if 0 ≤ d.exponent then digitsOf d.digits ++ List.replicate d.exponent.toNat '0'
  else
    let (whole, fraction) := withPoint (-d.exponent).toNat (digitsOf d.digits)
    match dropTrailingZeros fraction with
    | [] => whole
    | shown => whole ++ '.' :: shown

/-- `num / den` rounded to a natural number, a half to the even neighbour. -/
def roundHalfEven (num den : Nat) : Nat :=
  let q := num / den
  let twice := 2 * (num % den)
  if twice < den then q else if den < twice then q + 1 else q + q % 2

/-- The magnitude `m * 2 ^ e` with exactly `places` digits after the point. -/
def fixed (places : Nat) (m : Nat) (e : Int) : List Char :=
  let (num, den) := asQuotient m e
  let (whole, fraction) := withPoint places (digitsOf (roundHalfEven (num * Nat.pow 10 places) den))
  if places = 0 then whole else whole ++ '.' :: fraction

/-- The double nearest to a decimal, a half to the even neighbour.  Magnitudes far outside the range
of doubles are decided by their power of ten alone. -/
def nearest (negative : Bool) (d : Decimal) : Float :=
  let power := d.exponent + digitCount d.digits
  let magnitude :=
    if d.digits = 0 then 0.0
    else if 400 < power then infinity
    else if power < -400 then 0.0
    else if 0 ≤ d.exponent then
      Float.ofScientific (d.digits * Nat.pow 10 d.exponent.toNat) false 0
    else Float.ofScientific d.digits true (-d.exponent).toNat
  if negative then -magnitude else magnitude

/-- The double nearest to a natural number. -/
def ofNat (n : Nat) : Float := nearest false ⟨n, 0⟩

end LiveMarkup.Number
