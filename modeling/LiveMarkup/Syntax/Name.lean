import LiveMarkup.Text.Letters

/-!
# Names

A name is a letter, underscore or dollar sign followed by any number of letters, digits of any
script, underscores and dollar signs.  Some words can never name a variable.
-/

namespace LiveMarkup.Syntax

open Text

/-- Whether a name can begin with `c`. -/
def isNameStart (c : Char) : Bool := isAlphabetic c || c == '_' || c == '$'

/-- Whether a name can go on with `c`. -/
def isNameContinue (c : Char) : Bool := isAlphabetic c || isNumeric c || c == '_' || c == '$'

/-- Whether a text is a name. -/
def isName (s : String) : Bool :=
  match s.toList with
  | [] => false
  | c :: cs => isNameStart c && cs.all isNameContinue

/-- Words that can never name a variable. -/
def reservedWords : List String := [
  "await", "break", "case", "catch", "class", "const", "continue", "debugger", "default", "delete",
  "do", "else", "enum", "export", "extends", "false", "finally", "for", "function", "if",
  "implements", "import", "in", "instanceof", "interface", "let", "new", "null", "package",
  "private", "protected", "public", "return", "static", "super", "switch", "this", "throw", "true",
  "try", "typeof", "var", "void", "while", "with", "yield"]

/-- Whether a word is reserved. -/
def isReserved (word : String) : Bool := reservedWords.contains word

end LiveMarkup.Syntax
