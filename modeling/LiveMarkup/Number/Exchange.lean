import LiveMarkup.Number.Decimal

/-!
# Numbers handed over exactly

A number passes from one program to another without loss: as an integer where every reader takes
that exactly, else as a word or as the bits of the double in hexadecimal.

## Main definitions

* `plainInteger?` — the integer to write for a number, if there is one.
* `exactText`, `ofExactText` — the text of any other number, and the number of such a text.
* `ofInteger` — an integer as a double.
-/

namespace LiveMarkup.Number

/-- The integer to write for a number that is integral, not negative zero and no larger than
`2 ^ 53`. -/
def plainInteger? (x : Float) : Option Int :=
  match Exact.ofFloat x with
  | .finite negative m e =>
    let magnitude := Exact.integerPart m e
    if (m = 0 ∧ negative) ∨ !Exact.isIntegral m e ∨ Nat.pow 2 53 < magnitude then none
    else some (if negative then -(magnitude : Int) else magnitude)
  | _ => none

/-- The sixteen hexadecimal digits of a word. -/
def hexDigits (n : Nat) : List Char :=
  let digits := Nat.toDigits 16 n
  List.replicate (16 - digits.length) '0' ++ digits

/-- The text of a number that is not written as an integer. -/
def exactText (x : Float) : String :=
  match Exact.ofFloat x with
  | .nan => "NaN"
  | .infinite negative => if negative then "-Infinity" else "Infinity"
  | .finite negative m _ =>
    if m = 0 ∧ negative then "-0" else String.ofList ('0' :: 'x' :: hexDigits x.toBits.toNat)

/-- The value of a hexadecimal digit, `0` for other characters. -/
def hexDigitValue (c : Char) : Nat :=
  if c.isDigit then c.toNat - '0'.toNat
  else if 'a' ≤ c ∧ c ≤ 'f' then c.toNat - 'a'.toNat + 10
  else 0

/-- The number that such a text stands for. -/
def ofExactText (text : String) : Float :=
  match text.toList with
  | '0' :: 'x' :: digits =>
    Float.ofBits (UInt64.ofNat (digits.foldl (fun n c => n * 16 + hexDigitValue c) 0))
  | ['-', '0'] => -0.0
  | cs =>
    if cs = "Infinity".toList then infinity
    else if cs = "-Infinity".toList then -infinity
    else nan

/-- The double nearest to an integer. -/
def ofInteger (n : Int) : Float := nearest (n < 0) ⟨n.natAbs, 0⟩

end LiveMarkup.Number
