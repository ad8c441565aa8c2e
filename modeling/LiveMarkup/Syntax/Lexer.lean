import LiveMarkup.Syntax.Name
import LiveMarkup.Syntax.Token
import LiveMarkup.Number.Literal
import LiveMarkup.Text.Length

/-!
# From characters to tokens

Between tokens stand white space, line comments and block comments.  Each reader takes what it reads
off the front of the text and gives the rest.  The place of a token or a fault is the text from
there on; an offset is computed only where a fault is reported.

## Main definitions

* `skipTrivia` — drops what stands before the next token.
* `splitLexeme` — takes one token off the front.
* `tokenize` — all tokens of a text, the last one being its end.
* `located` — puts offsets in for places.
-/

namespace LiveMarkup.Syntax

open Text Number

/-- A fault and the text from its place on. -/
abbrev Located := SyntaxFault × List Char

/-! ### Between tokens -/

/-- What is being skipped. -/
inductive Trivia
  /-- White space, or nothing yet. -/
  | plain
  /-- A comment up to the end of the line. -/
  | line
  /-- A comment up to its closing mark; `opened` is the text from its opening mark on. -/
  | block (opened : List Char)

/-- Drops white space and comments.  The flag says whether a line break was among them. -/
def skipTrivia : Trivia → Bool → List Char → Except Located (Bool × List Char)
  | .plain, broken, [] => .ok (broken, [])
  | .plain, broken, '/' :: '/' :: cs => skipTrivia .line broken cs
  | .plain, broken, '/' :: '*' :: cs => skipTrivia (.block ('/' :: '*' :: cs)) broken cs
  | .plain, broken, c :: cs =>
    if c = '\n' ∨ c = '\r' then skipTrivia .plain true cs
    else if isBlank c then skipTrivia .plain broken cs
    else .ok (broken, c :: cs)
  | .line, broken, [] => .ok (broken, [])
  | .line, broken, c :: cs =>
    if c = '\n' then skipTrivia .plain true cs else skipTrivia .line broken cs
  | .block opened, _, [] => .error (.unterminatedComment, opened)
  | .block _, broken, '*' :: '/' :: cs => skipTrivia .plain broken cs
  | .block opened, broken, c :: cs => skipTrivia (.block opened) (broken || c == '\n') cs

/-! ### Numbers -/

/-- The characters of a decimal number, without underscores, and the rest.  The flags say whether a
point and an exponent mark have been read. -/
def splitNumber : Bool → Bool → List Char → List Char × List Char
  | _, _, [] => ([], [])
  | point, mark, c :: cs =>
    if isDigit c then
      let (text, rest) := splitNumber point mark cs
      (c :: text, rest)
    else if c = '_' then splitNumber point mark cs
    else if c = '.' ∧ !point ∧ !mark then
      let (text, rest) := splitNumber true mark cs
      (c :: text, rest)
    else if (c = 'e' ∨ c = 'E') ∧ !mark then
      match cs with
      | [] => ([c], [])
      | d :: cs' =>
        if d = '+' ∨ d = '-' then
          let (text, rest) := splitNumber point true cs'
          (c :: d :: text, rest)
        else
          let (text, rest) := splitNumber point true (d :: cs')
          (c :: text, rest)
    else ([], c :: cs)

/-- Takes a number off the front. -/
def splitNumberToken (cs : List Char) : Except Located (TokenKind × List Char) :=
  match splitHexMark cs with
  | some digits =>
    match readWord 16 (digits.takeWhile isHexDigit) with
    | .ok n => .ok (.number (ofNat n), digits.dropWhile isHexDigit)
    | .error _ => .error (.invalidHexadecimal, cs)
  | none =>
    let (text, rest) := splitNumber false false cs
    if rest.head?.any isNameStart then .error (.nameAfterNumber, cs)
    else
      match decimalLiteral? text with
      | some x => .ok (.number x, rest)
      | none => .error (.invalidNumber (String.ofList text), cs)

/-! ### Strings -/

/-- What is being read inside a string. -/
inductive StringPart
  /-- Characters that stand for themselves. -/
  | plain
  /-- The character after a backslash; `start` is the text from the backslash on. -/
  | escaped (start : List Char)
  /-- The four hexadecimal digits of an escape, of which `left` are still to come. -/
  | code (start digits : List Char) (left : Nat)
  /-- The hexadecimal digits of an escape in braces. -/
  | braced (start digits : List Char)

/-- The character that a letter after a backslash stands for. -/
def escapedChar (c : Char) : Char :=
  match c with
  | 'n' => '\n'
  | 't' => '\t'
  | 'r' => '\r'
  | 'b' => '\x08'
  | 'f' => '\x0c'
  | 'v' => '\x0b'
  | '0' => '\x00'
  | c => c

/-- The character with the code that hexadecimal digits write. -/
def charOfCode? (digits : List Char) : Option Char :=
  match numeral? 16 digits with
  | some n => if n.isValidChar then some (Char.ofNat n) else none
  | none => none

/-- Puts a character in front of a string that was read. -/
def consRead (c : Char) (read : Except Located (List Char × List Char)) :
    Except Located (List Char × List Char) :=
  read.map fun (text, rest) => (c :: text, rest)

/-- Reads the inside of a string up to its closing quote; `opened` is the text from the opening
quote on. -/
def splitString (quote : Char) (opened : List Char) :
    StringPart → List Char → Except Located (List Char × List Char)
  | .plain, [] | .escaped _, [] => .error (.unterminatedString, opened)
  | .code start _ _, [] | .braced start _, [] => .error (.invalidEscape, start)
  | .plain, c :: cs =>
    if c = quote then .ok ([], cs)
    else if c = '\n' then .error (.unterminatedString, opened)
    else if c = '\\' then splitString quote opened (.escaped (c :: cs)) cs
    else consRead c (splitString quote opened .plain cs)
  | .escaped start, c :: cs =>
    if c = 'u' then splitString quote opened (.code start [] 4) cs
    else if c = '\n' then splitString quote opened .plain cs
    else consRead (escapedChar c) (splitString quote opened .plain cs)
  | .code start digits left, c :: cs =>
    if c = '{' ∧ left = 4 then splitString quote opened (.braced start []) cs
    else if isHexDigit c then
      if left ≤ 1 then
        match charOfCode? (digits ++ [c]) with
        | some d => consRead d (splitString quote opened .plain cs)
        | none => .error (.invalidEscape, start)
      else splitString quote opened (.code start (digits ++ [c]) (left - 1)) cs
    else .error (.invalidEscape, start)
  | .braced start digits, c :: cs =>
    if c = '}' then
      match charOfCode? digits with
      | some d => consRead d (splitString quote opened .plain cs)
      | none => .error (.invalidEscape, start)
    else if isHexDigit c then splitString quote opened (.braced start (digits ++ [c])) cs
    else .error (.invalidEscape, start)

/-! ### Symbols -/

/-- The symbol that the next character completes, or the short one. -/
def longer (cs : List Char) (short : Symbol) (choices : List (Char × Symbol)) :
    Symbol × List Char :=
  match cs with
  | [] => (short, [])
  | d :: rest =>
    match choices.lookup d with
    | some symbol => (symbol, rest)
    | none => (short, d :: rest)

/-- What a question mark begins; a point before a digit belongs to the digit. -/
def splitQuestion : List Char → Symbol × List Char
  | '?' :: cs => (.questionQuestion, cs)
  | '.' :: cs => if cs.head?.any isDigit then (.question, '.' :: cs) else (.questionDot, cs)
  | cs => (.question, cs)

/-- Takes a symbol off a text that begins with `c` and goes on with `cs`. -/
def splitSymbol (c : Char) (cs : List Char) : Except Located (Symbol × List Char) :=
  match c with
  | '(' => .ok (.leftParen, cs)
  | ')' => .ok (.rightParen, cs)
  | '[' => .ok (.leftBracket, cs)
  | ']' => .ok (.rightBracket, cs)
  | '{' => .ok (.leftBrace, cs)
  | '}' => .ok (.rightBrace, cs)
  | ',' => .ok (.comma, cs)
  | '.' => .ok (.dot, cs)
  | ':' => .ok (.colon, cs)
  | ';' => .ok (.semicolon, cs)
  | '?' => .ok (splitQuestion cs)
  | '+' => .ok (longer cs .plus [('+', .plusPlus), ('=', .plusAssign)])
  | '-' => .ok (longer cs .minus [('-', .minusMinus), ('=', .minusAssign)])
  | '*' => .ok (longer cs .star [('*', .starStar), ('=', .starAssign)])
  | '/' => .ok (longer cs .slash [('=', .slashAssign)])
  | '%' => .ok (longer cs .percent [('=', .percentAssign)])
  | '<' => .ok (longer cs .less [('=', .lessEqual)])
  | '>' => .ok (longer cs .greater [('=', .greaterEqual)])
  | '!' =>
    match cs with
    | '=' :: cs => .ok (longer cs .notEqual [('=', .strictNotEqual)])
    | cs => .ok (.bang, cs)
  | '=' =>
    match cs with
    | '=' :: cs => .ok (longer cs .equal [('=', .strictEqual)])
    | '>' :: _ => .error (.arrowFunction, c :: cs)
    | cs => .ok (.assign, cs)
  | '&' =>
    match cs with
    | '&' :: cs => .ok (.andAnd, cs)
    | _ => .error (.unexpectedCharacter c, c :: cs)
  | '|' =>
    match cs with
    | '|' :: cs => .ok (.orOr, cs)
    | _ => .error (.unexpectedCharacter c, c :: cs)
  | c => .error (.unexpectedCharacter c, c :: cs)

/-! ### All tokens -/

/-- Whether a number begins with `c`, followed by `cs`. -/
def startsNumber (c : Char) (cs : List Char) : Bool :=
  isDigit c || (c == '.' && cs.head?.any isDigit)

/-- Takes one token off a text that begins with `c` and goes on with `cs`. -/
def splitLexeme (c : Char) (cs : List Char) : Except Located (TokenKind × List Char) :=
  if isNameStart c then
    .ok (.name (String.ofList (c :: cs.takeWhile isNameContinue)), cs.dropWhile isNameContinue)
  else if startsNumber c cs then splitNumberToken (c :: cs)
  else if c = '"' ∨ c = '\'' then
    (splitString c (c :: cs) .plain cs).map fun (text, rest) => (.string (String.ofList text), rest)
  else (splitSymbol c cs).map fun (symbol, rest) => (.symbol symbol, rest)

/-- The tokens of the rest of a text.  Every token takes at least one character. -/
def tokensFrom : Nat → List Char → Except Located (List Token)
  | 0, _ => .ok []
  | fuel + 1, cs => do
    let (newlineBefore, cs) ← skipTrivia .plain false cs
    match cs with
    | [] => return [⟨.finish, [], newlineBefore⟩]
    | c :: rest =>
      let (kind, rest) ← splitLexeme c rest
      return ⟨kind, cs, newlineBefore⟩ :: (← tokensFrom fuel rest)

/-- The tokens of a text; the last one is its end. -/
def tokenize (source : String) : Except Located (List Token) :=
  tokensFrom (source.toList.length + 1) source.toList

/-! ### Offsets -/

/-- The number of bytes before the rest of a text. -/
def offsetOf (source rest : List Char) : Nat := byteLength source - byteLength rest

/-- Turns a fault with the rest of the text into one with an offset. -/
def located {α : Type} (source : String) (read : Except Located α) : Except SyntaxError α :=
  read.mapError fun (fault, rest) => ⟨fault, offsetOf source.toList rest⟩

end LiveMarkup.Syntax
