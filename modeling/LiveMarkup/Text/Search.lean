/-!
# Finding one text in another

Positions count characters.  Occurrences are taken from the left and do not overlap.

## Main definitions

* `position?` — where a text first occurs in another.
* `splitAt` — the pieces between occurrences.
* `replaceFirst`, `replaceEvery` — other text in place of occurrences.
-/

namespace LiveMarkup.Text

/-- The position at which `needle` first occurs. -/
def position? (needle : List Char) : List Char → Option Nat
  | [] => if needle.isEmpty then some 0 else none
  | c :: cs => if needle.isPrefixOf (c :: cs) then some 0 else (position? needle cs).map (· + 1)

/-- Whether `needle` occurs. -/
def occursIn (needle cs : List Char) : Bool := (position? needle cs).isSome

/-- Puts a character in front of the first piece. -/
def consPiece (c : Char) : List (List Char) → List (List Char)
  | [] => [[c]]
  | piece :: pieces => (c :: piece) :: pieces

/-- The pieces between occurrences of a separator, after `skip` characters that belong to one. -/
def splitAfter (separator : List Char) : Nat → List Char → List (List Char)
  | _, [] => [[]]
  | skip + 1, _ :: cs => splitAfter separator skip cs
  | 0, c :: cs =>
    if separator.isPrefixOf (c :: cs) then [] :: splitAfter separator (separator.length - 1) cs
    else consPiece c (splitAfter separator 0 cs)

/-- The pieces between occurrences of a separator that is not empty. -/
def splitAt (separator cs : List Char) : List (List Char) := splitAfter separator 0 cs

/-- Puts a text in place of occurrences of a pattern, after `skip` characters that belong to one. -/
def replaceAfter (pattern replacement : List Char) : Nat → List Char → List Char
  | _, [] => []
  | skip + 1, _ :: cs => replaceAfter pattern replacement skip cs
  | 0, c :: cs =>
    if pattern.isPrefixOf (c :: cs) then
      replacement ++ replaceAfter pattern replacement (pattern.length - 1) cs
    else c :: replaceAfter pattern replacement 0 cs

/-- Puts a text in place of every occurrence of a pattern; an empty pattern occurs before every
character and at the end. -/
def replaceEvery (pattern replacement cs : List Char) : List Char :=
  if pattern.isEmpty then replacement ++ cs.flatMap fun c => c :: replacement
  else replaceAfter pattern replacement 0 cs

/-- Puts a text in place of the first occurrence of a pattern. -/
def replaceFirst (pattern replacement cs : List Char) : List Char :=
  match position? pattern cs with
  | some i => cs.take i ++ replacement ++ cs.drop (i + pattern.length)
  | none => cs

/-- The first `n` characters of a text repeated without end. -/
def cycled (n : Nat) (cs : List Char) : List Char :=
  ((List.replicate (n / cs.length + 1) cs).flatten).take n

end LiveMarkup.Text
