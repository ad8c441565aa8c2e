import LiveMarkup.Number.Written
import LiveMarkup.Text.Quoted

/-!
# Tokens

The words of the expression language, how messages name them, and what can be wrong with a text.

## Main definitions

* `Symbol`, `TokenKind`, `Token` — the words.
* `SyntaxError` — what is wrong and where, with its wording.
-/

namespace LiveMarkup.Syntax

open Number Text

/-- The operators and punctuation marks. -/
inductive Symbol
  | leftParen | rightParen | leftBracket | rightBracket | leftBrace | rightBrace
  | comma | dot | questionDot | colon | semicolon | question | questionQuestion
  | plus | minus | star | starStar | slash | percent | bang
  | assign | plusAssign | minusAssign | starAssign | slashAssign | percentAssign
  | plusPlus | minusMinus
  | equal | strictEqual | notEqual | strictNotEqual
  | less | lessEqual | greater | greaterEqual
  | andAnd | orOr
  deriving DecidableEq, Repr, Inhabited

/-- How a symbol is written. -/
def Symbol.text : Symbol → String
  | .leftParen => "(" | .rightParen => ")" | .leftBracket => "[" | .rightBracket => "]"
  | .leftBrace => "\x7b" | .rightBrace => "\x7d"
  | .comma => "," | .dot => "." | .questionDot => "?." | .colon => ":" | .semicolon => ";"
  | .question => "?" | .questionQuestion => "??"
  | .plus => "+" | .minus => "-" | .star => "*" | .starStar => "**" | .slash => "/"
  | .percent => "%" | .bang => "!"
  | .assign => "=" | .plusAssign => "+=" | .minusAssign => "-=" | .starAssign => "*="
  | .slashAssign => "/=" | .percentAssign => "%="
  | .plusPlus => "++" | .minusMinus => "--"
  | .equal => "==" | .strictEqual => "===" | .notEqual => "!=" | .strictNotEqual => "!=="
  | .less => "<" | .lessEqual => "<=" | .greater => ">" | .greaterEqual => ">="
  | .andAnd => "&&" | .orOr => "||"

/-- What a token is. -/
inductive TokenKind
  | number (x : Float)
  | string (s : String)
  | name (s : String)
  | symbol (s : Symbol)
  /-- The end of the text. -/
  | finish
  deriving Inhabited

/-- A token with its place in the text. -/
structure Token where
  kind : TokenKind
  /-- The text from the token on. -/
  place : List Char
  /-- Whether a line break stands between the token and the one before it. -/
  newlineBefore : Bool
  deriving Inhabited

/-- How messages name a token. -/
def TokenKind.described : TokenKind → String
  | .number x => "number " ++ ticked (written x)
  | .string s => "string " ++ String.ofList (quote s.toList)
  | .name s => ticked s
  | .symbol s => ticked s.text
  | .finish => "end of input"

/-- What can be wrong with a text. -/
inductive SyntaxFault
  | unterminatedComment
  | unterminatedString
  | invalidHexadecimal
  | nameAfterNumber
  | invalidNumber (text : String)
  | invalidEscape
  | arrowFunction
  | unexpectedCharacter (c : Char)
  | unexpected (found : TokenKind)
  | expected (wanted : Symbol) (found : TokenKind)
  | expectedVariable (found : TokenKind)
  | expectedProperty (found : TokenKind)
  | reservedVariable (word : String)
  | missingInitializer
  | invalidTarget
  | constantTarget (name : String)
  | unaryBeforePower
  | unexpectedKeyword (word : String)
  | nestedTooDeeply
  deriving Inhabited

/-- The wording of a fault. -/
def SyntaxFault.message : SyntaxFault → String
  | .unterminatedComment => "unterminated comment"
  | .unterminatedString => "unterminated string literal"
  | .invalidHexadecimal => "invalid hexadecimal literal"
  | .nameAfterNumber => "identifier starts immediately after numeric literal"
  | .invalidNumber text => "invalid number " ++ ticked text
  | .invalidEscape => "invalid unicode escape"
  | .arrowFunction => "arrow functions are not supported"
  | .unexpectedCharacter c => "unexpected character " ++ ticked c.toString
  | .unexpected found => "unexpected " ++ found.described
  | .expected wanted found => "expected " ++ ticked wanted.text ++ ", found " ++ found.described
  | .expectedVariable found => "expected a variable name, found " ++ found.described
  | .expectedProperty found => "expected a property name, found " ++ found.described
  | .reservedVariable word => ticked word ++ " cannot be used as a variable name"
  | .missingInitializer => "missing initializer in const declaration"
  | .invalidTarget => "invalid assignment target"
  | .constantTarget name => "assignment to constant variable " ++ ticked name
  | .unaryBeforePower => "unary operator before `**` needs parentheses"
  | .unexpectedKeyword word => "unexpected keyword " ++ ticked word
  | .nestedTooDeeply => "expression nested too deeply"

/-- A text that is not in the expression language. -/
structure SyntaxError where
  fault : SyntaxFault
  /-- The number of bytes before the place of the fault. -/
  offset : Nat
  deriving Inhabited

/-- The wording of the error. -/
def SyntaxError.message (e : SyntaxError) : String :=
  e.fault.message ++ " (at offset " ++ toString e.offset ++ ")"

end LiveMarkup.Syntax
