import LiveMarkup.Text.Letters
import LiveMarkup.Number.Binary64

/-!
# Numerals of bounded size

Counts, positions and hexadecimal texts are natural numbers below `2 ^ 64`.  A numeral may have a
plus sign in front.

## Main definitions

* `WordError` — why a text is not such a numeral, with its wording.
* `readWord` — the number a text writes.
-/

namespace LiveMarkup.Number

open Text

/-- Why a text writes no number below `2 ^ 64`. -/
inductive WordError
  /-- There is no text. -/
  | empty
  /-- A character is not a digit. -/
  | invalidDigit
  /-- The number is too large. -/
  | tooLarge
  deriving DecidableEq, Repr, Inhabited

/-- The wording of the error. -/
def WordError.message : WordError → String
  | .empty => "cannot parse integer from empty string"
  | .invalidDigit => "invalid digit found in string"
  | .tooLarge => "number too large to fit in target type"

/-- Appends the digit `c` to the number `n`. -/
def appendDigit (radix n : Nat) (c : Char) : Except WordError Nat :=
  match digitValue? radix c with
  | none => .error .invalidDigit
  | some d => if maxWord < n * radix + d then .error .tooLarge else .ok (n * radix + d)

/-- The number that digits write; the first character that is wrong decides the error. -/
def readDigits (radix : Nat) (cs : List Char) : Except WordError Nat :=
  cs.foldlM (appendDigit radix) 0

/-- The number a numeral with an optional plus sign writes. -/
def readWord (radix : Nat) : List Char → Except WordError Nat
  | [] => .error .empty
  | ['+'] => .error .invalidDigit
  | '+' :: cs => readDigits radix cs
  | cs => readDigits radix cs

end LiveMarkup.Number
