import LiveMarkup.CellSet
import LiveMarkup.Interpreter

/-!
# Dependencies of a text

Which cells of a scope a text refers to is found without running it: the text is searched for words
that could name a variable, and every word that the scope binds is evaluated by itself to find its
cell.  Words in string literals and in numerals do not count; words after a point do.

## Main definitions

* `Scan`, `Scan.words` — the words of a text.
* `mentionedNames` — those that could name a variable, each once.
* `Interpreter.dependencies` — the cells behind them.
-/

namespace LiveMarkup

open Syntax

/-- Words that look like variables and never are. -/
def ignoredWords : List String := [
  "undefined", "length", "toString", "valueOf", "constructor", "$this", stateBagName, "eval",
  "Function", "setTimeout", "setInterval"]

/-- Whether a word never names a variable. -/
def isIgnored (word : String) : Bool := isReserved word || ignoredWords.contains word

/-- Where in a text a search for words is. -/
inductive Scan
  /-- Between words, literals and numerals. -/
  | between
  /-- In a literal that the quote ends. -/
  | quoted (quote : Char)
  /-- After a backslash in a literal. -/
  | escaped (quote : Char)
  /-- In a numeral. -/
  | numeral
  /-- In a word, whose characters so far are given last first. -/
  | word (reversed : List Char)
  deriving DecidableEq, Repr, Inhabited

namespace Scan

/-- The characters that begin a literal, and end it. -/
def quoteMarks : List Char := "\"'`".toList

/-- Whether `c` is a quote. -/
def isQuote (c : Char) : Bool := quoteMarks.contains c

/-- Whether a numeral goes on with `c`. -/
def continuesNumeral (c : Char) : Bool := c.isAlphanum || c == '_' || c == '.'

/-- Where the search is after `c` when it was between things. -/
def enter (c : Char) : Scan :=
  if isQuote c then .quoted c
  else if c.isDigit then .numeral
  else if isNameStart c then .word [c]
  else .between

/-- The words from here on, in order. -/
def words : Scan → List Char → List String
  | .word reversed, [] => [String.ofList reversed.reverse]
  | _, [] => []
  | .between, c :: cs => words (enter c) cs
  | .quoted quote, c :: cs =>
    if c = '\\' then words (.escaped quote) cs
    else if c = quote then words .between cs
    else words (.quoted quote) cs
  | .escaped quote, _ :: cs => words (.quoted quote) cs
  | .numeral, c :: cs => if continuesNumeral c then words .numeral cs else words (enter c) cs
  | .word reversed, c :: cs =>
    if isNameContinue c then words (.word (c :: reversed)) cs
    else String.ofList reversed.reverse :: words (enter c) cs

end Scan

/-- The words of a text that could name a variable, each once, in the order they first occur. -/
def mentionedNames (text : String) : List String :=
  ((Scan.words .between text.toList).filter fun word => !isIgnored word).eraseDups

/-- Adds a value to the cells found if it is a cell. -/
def CellSet.insertValue (set : CellSet) : Value → CellSet
  | .cell c => set.insert c
  | _ => set

namespace Interpreter

/-- Evaluates names one after another and adds the cells found. -/
def cellsBehind (i : Interpreter) (s : Store) (context : Context) (found : CellSet) :
    List String → Interpreter × Store × CellSet
  | [] => (i, s, found)
  | name :: rest =>
    match i.evaluateRaw s name context with
    | (i, s, .ok v) => cellsBehind i s context (found.insertValue v) rest
    | (i, s, .error _) => cellsBehind i s context found rest

/-- The cells of a scope that a text refers to, in the order of their first places. -/
def dependencies (i : Interpreter) (s : Store) (source : String) (scope : Scope) :
    Interpreter × Store × CellSet :=
  match (mentionedNames source).filter scope.contains with
  | [] => (i, s, {})
  | names =>
    let (s, context) := scope.context s
    i.cellsBehind s context {} names

end Interpreter

end LiveMarkup
