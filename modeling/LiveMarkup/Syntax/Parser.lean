import LiveMarkup.Syntax.Lexer
import LiveMarkup.Syntax.Tree

/-!
# From tokens to trees

A parser of expressions and statements that resolves names as it meets them.  How deep a text may
nest is limited: statements, assignments, unary operators and right operands of `**` each open a
level, and so does every further operator of a chain and every link of a chain of members and calls,
for what comes after it in that chain.

The parsers that open a level form a `Grammar`.  The grammar with `n + 1` levels left is made from
the grammar with `n` levels left, and the grammar with none left refuses everything; so the nesting
limit is what the recursion runs on.

## Main definitions

* `ParserState`, `Parser` — the state of a parser.
* `Grammar`, `grammar` — the parsers that open a level.
* `parse` — a text as a program.
-/

namespace LiveMarkup.Syntax

/-- A variable that can be seen. -/
structure Local where
  name : String
  slot : Nat
  constant : Bool
  deriving DecidableEq, Repr, Inhabited

/-- The state of a parser. -/
structure ParserState where
  /-- The names of the parameters. -/
  params : List String
  /-- The tokens to come; the end of the text is never taken off. -/
  tokens : List Token
  /-- The variables that can be seen, the latest first. -/
  locals : List Local
  /-- The slot of the next variable. -/
  nextSlot : Nat
  deriving Inhabited

/-- A parser gives a result and a new state, or says what is wrong with the text and where. -/
abbrev Parser := StateT ParserState (Except Located)

/-! ### Tokens -/

/-- The next token. -/
def ParserState.next (s : ParserState) : Token := s.tokens.headD ⟨.finish, [], false⟩

/-- The state after the next token, unless that is the end. -/
def ParserState.skip (s : ParserState) : ParserState :=
  match s.tokens with
  | t :: rest =>
    match t.kind with
    | .finish => s
    | _ => { s with tokens := rest }
  | [] => s

/-- Looks at the next token. -/
def peek : Parser Token := return (← get).next

/-- Takes the next token. -/
def advance : Parser Token := modifyGet fun s => (s.next, s.skip)

/-- Fails at a place. -/
def faultAt {α : Type} (place : List Char) (fault : SyntaxFault) : Parser α := throw (fault, place)

/-- Fails at the next token. -/
def faultHere {α : Type} (fault : SyntaxFault) : Parser α := do
  faultAt (← peek).place fault

/-- Fails because of the next token. -/
def unexpected {α : Type} : Parser α := do
  faultHere (.unexpected (← peek).kind)

/-- Whether a token is the given symbol. -/
def TokenKind.isSymbol (symbol : Symbol) : TokenKind → Bool
  | .symbol s => s == symbol
  | _ => false

/-- Whether a token is the given word. -/
def TokenKind.isWord (word : String) : TokenKind → Bool
  | .name s => s == word
  | _ => false

/-- Whether a token is the end of the text. -/
def TokenKind.isFinish : TokenKind → Bool
  | .finish => true
  | _ => false

/-- Whether the next token is the given symbol. -/
def atSymbol (symbol : Symbol) : Parser Bool := return (← peek).kind.isSymbol symbol

/-- Whether the next token is the given word. -/
def atWord (word : String) : Parser Bool := return (← peek).kind.isWord word

/-- Whether the text is at its end. -/
def atFinish : Parser Bool := return (← peek).kind.isFinish

/-- Takes the next token if it is the given symbol. -/
def eat (symbol : Symbol) : Parser Bool := do
  if ← atSymbol symbol then
    let _ ← advance
    return true
  else return false

/-- Takes the given symbol, which has to come next. -/
def expect (symbol : Symbol) : Parser Unit := do
  unless ← eat symbol do faultHere (.expected symbol (← peek).kind)

/-! ### Lists -/

/-- Parses items until the stop is reached.  Every item takes a token, so the number of tokens is
enough fuel. -/
def itemsUntil {α : Type} (stop : Parser Bool) (item : Parser α) : Nat → Parser (List α)
  | 0 => return []
  | fuel + 1 => do
    if ← stop then return []
    let x ← item
    return x :: (← itemsUntil stop item fuel)

/-- Parses items with commas between them, up to a closing symbol that may follow a comma. -/
def commaSeparated {α : Type} (close : Symbol) (item : Parser α) : Nat → Parser (List α)
  | 0 => return []
  | fuel + 1 => do
    if ← atSymbol close then return []
    let x ← item
    if ← eat .comma then return x :: (← commaSeparated close item fuel)
    return [x]

/-- Parses at least one item, with commas between them. -/
def separatedByComma {α : Type} (item : Parser α) : Nat → Parser (List α)
  | 0 => return []
  | fuel + 1 => do
    let x ← item
    if ← eat .comma then return x :: (← separatedByComma item fuel)
    return [x]

/-- Parses array elements; a comma without an element before it leaves a hole. -/
def arrayItems (item : Parser Expr) : Nat → Parser (List Expr)
  | 0 => return []
  | fuel + 1 => do
    if ← atSymbol .rightBracket then return []
    if ← eat .comma then return .literal .undefined :: (← arrayItems item fuel)
    let x ← item
    if ← eat .comma then return x :: (← arrayItems item fuel)
    return [x]

/-- Gives a list parser as much fuel as there are tokens. -/
def fueled {α : Type} (p : Nat → Parser α) : Parser α := do
  p (← get).tokens.length

/-! ### Names -/

/-- The position of the last parameter with the given name. -/
def lastPosition? (params : List String) (name : String) : Option Nat :=
  (params.reverse.findIdx? (· == name)).map fun i => params.length - 1 - i

/-- What a name stands for: variables hide parameters, which hide builtins. -/
def ParserState.resolve (s : ParserState) (name : String) : Expr :=
  match s.locals.find? fun l => l.name == name with
  | some l => .declared l.slot name
  | none =>
    match lastPosition? s.params name with
    | some slot => .param slot name
    | none =>
      if name = "undefined" then .literal .undefined
      else
        match Global.ofName? name with
        | some g => .global g
        | none => .unbound name

/-- What a name stands for here. -/
def resolve (name : String) : Parser Expr := return (← get).resolve name

/-- Whether the slot belongs to a constant that can be seen. -/
def ParserState.isConstant (s : ParserState) (slot : Nat) : Bool :=
  s.locals.any fun l => l.slot == slot && l.constant

/-- Fails unless the expression can be assigned to. -/
def checkAssignable (target : Expr) (place : List Char) : Parser Unit := do
  unless target.isAssignable do faultAt place .invalidTarget
  match target with
  | .declared slot name =>
    if (← get).isConstant slot then faultAt place (.constantTarget name)
  | _ => return ()

/-- The name of a property, after a point. -/
def propertyName : Parser String := do
  let token ← advance
  match token.kind with
  | .name s => return s
  | found => faultAt token.place (.expectedProperty found)

/-! ### Operators -/

/-- An operator between two operands. -/
inductive Joint
  | binary (op : BinaryOp)
  | logical (op : LogicalOp)
  deriving DecidableEq, Repr

/-- The expression made by an operator between two operands. -/
def Joint.join : Joint → Expr → Expr → Expr
  | .binary op, left, right => .binary op left right
  | .logical op, left, right => .logical op left right

/-- The operators of each tier that associate to the left, the tightest tier first. -/
def tierOperators : Nat → List (Symbol × Joint)
  | 0 => [(.star, .binary .mul), (.slash, .binary .div), (.percent, .binary .rem)]
  | 1 => [(.plus, .binary .add), (.minus, .binary .sub)]
  | 2 => [(.less, .binary .less), (.lessEqual, .binary .lessEqual), (.greater, .binary .greater),
      (.greaterEqual, .binary .greaterEqual)]
  | 3 => [(.equal, .binary .equal), (.notEqual, .binary .notEqual),
      (.strictEqual, .binary .strictEqual), (.strictNotEqual, .binary .strictNotEqual)]
  | 4 => [(.andAnd, .logical .and)]
  | 5 => [(.orOr, .logical .or)]
  | 6 => [(.questionQuestion, .logical .nullish)]
  | _ => []

/-- The number of tiers. -/
def tierCount : Nat := 7

/-- The operator of a tier that a token is. -/
def jointOf? (tier : Nat) : TokenKind → Option Joint
  | .symbol s => (tierOperators tier).lookup s
  | _ => none

/-- The assignment operator that a token is. -/
def assignOpOf? : TokenKind → Option AssignOp
  | .symbol .assign => some .assign
  | .symbol .plusAssign => some (.compound .add)
  | .symbol .minusAssign => some (.compound .sub)
  | .symbol .starAssign => some (.compound .mul)
  | .symbol .slashAssign => some (.compound .div)
  | .symbol .percentAssign => some (.compound .rem)
  | _ => none

/-- The update operator that a token is. -/
def updateOpOf? : TokenKind → Option UpdateOp
  | .symbol .plusPlus => some .increment
  | .symbol .minusMinus => some .decrement
  | _ => none

/-- The unary operator that a token is. -/
def unaryOpOf? : TokenKind → Option UnaryOp
  | .name "typeof" => some .typeOf
  | .symbol .bang => some .not
  | .symbol .minus => some .negate
  | .symbol .plus => some .plus
  | _ => none

/-- Whether a token goes on with a chain of members and calls. -/
def TokenKind.isLink : TokenKind → Bool
  | .symbol .dot | .symbol .questionDot | .symbol .leftBracket | .symbol .leftParen => true
  | _ => false

/-! ### Grammars -/

/-- The parsers that open a level of nesting. -/
structure Grammar where
  /-- A statement. -/
  statement : Parser Stmt
  /-- An expression. -/
  assignment : Parser Expr
  /-- An operand with its unary operators. -/
  unary : Parser Expr
  /-- The right operand of `**`. -/
  power : Parser Expr
  /-- The right operand of an operator of a tier. -/
  operand : Nat → Parser Expr
  /-- What follows an operator expression in its chain. -/
  chain : Nat → Expr → Parser Expr
  /-- The next link of a chain of members and calls, which has a `?.` link if the flag is set. -/
  link : Bool → Expr → Parser Expr

/-- The grammar with no levels left. -/
def Grammar.exhausted : Grammar where
  statement := faultHere .nestedTooDeeply
  assignment := faultHere .nestedTooDeeply
  unary := faultHere .nestedTooDeeply
  power := faultHere .nestedTooDeeply
  operand _ := faultHere .nestedTooDeeply
  chain _ _ := faultHere .nestedTooDeeply
  link _ _ := faultHere .nestedTooDeeply

namespace Grammar

/-! The parsers below take the grammar `inner` of what is one level deeper. -/

variable (inner : Grammar)

/-! #### Primary expressions -/

/-- The elements of an array literal, after its opening bracket. -/
def arrayLiteral : Parser Expr := do
  let items ← fueled (arrayItems inner.assignment)
  expect .rightBracket
  return .array items

/-- The value of a property, after its name. -/
def propertyValue : Parser Expr := do
  expect .colon
  inner.assignment

/-- A property of an object literal. -/
def property : Parser (String × Expr) := do
  let token ← advance
  match token.kind with
  | .name key =>
    if ← atSymbol .colon then return (key, ← propertyValue inner)
    if isReserved key then faultAt token.place (.unexpectedKeyword key)
    return (key, ← resolve key)
  | .string key => return (key, ← propertyValue inner)
  | .number x => return (Number.written x, ← propertyValue inner)
  | found => faultAt token.place (.expectedProperty found)

/-- The properties of an object literal, after its opening brace. -/
def objectLiteral : Parser Expr := do
  let properties ← fueled (commaSeparated .rightBrace (property inner))
  expect .rightBrace
  return .object properties

/-- A word on its own. -/
def word (place : List Char) (name : String) : Parser Expr :=
  match name with
  | "true" => return .literal (.bool true)
  | "false" => return .literal (.bool false)
  | "null" => return .literal .null
  | _ => if isReserved name then faultAt place (.unexpectedKeyword name) else resolve name

/-- A literal, a name, or an expression in parentheses. -/
def primary : Parser Expr := do
  let token ← advance
  match token.kind with
  | .number x => return .literal (.number x)
  | .string s => return .literal (.string s)
  | .name s => word token.place s
  | .symbol .leftParen => do
    let e ← inner.assignment
    expect .rightParen
    return e
  | .symbol .leftBracket => arrayLiteral inner
  | .symbol .leftBrace => objectLiteral inner
  | found => faultAt token.place (.unexpected found)

/-! #### Chains of members and calls -/

/-- The arguments of a call. -/
def arguments : Parser (List Expr) := do
  expect .leftParen
  let args ← fueled (commaSeparated .rightParen inner.assignment)
  expect .rightParen
  return args

/-- A key in brackets, after the opening bracket. -/
def bracketed : Parser Expr := do
  let key ← inner.assignment
  expect .rightBracket
  return key

/-- The link after `?.`. -/
def optionalLink (e : Expr) : Parser Expr := do
  match (← peek).kind with
  | .symbol .leftParen => return .call e (← arguments inner) true
  | .symbol .leftBracket => do
    let _ ← advance
    return .index e (← bracketed inner) true
  | _ => return .member e (← propertyName) true

/-- Goes on with a chain, or wraps it up. -/
def links (optional : Bool) (e : Expr) : Parser Expr := do
  if (← peek).kind.isLink then inner.link optional e
  else return if optional then .optionalChain e else e

/-- The next link of a chain and what follows it. -/
def linkHere (optional : Bool) (e : Expr) : Parser Expr := do
  match (← peek).kind with
  | .symbol .dot => do
    let _ ← advance
    links inner optional (.member e (← propertyName) false)
  | .symbol .questionDot => do
    let _ ← advance
    links inner true (← optionalLink inner e)
  | .symbol .leftBracket => do
    let _ ← advance
    links inner optional (.index e (← bracketed inner) false)
  | _ => links inner optional (.call e (← arguments inner) false)

/-- A primary expression with its members and calls. -/
def callMember : Parser Expr := do
  links inner false (← primary inner)

/-! #### Operators -/

/-- An operand with an update operator after it, on the same line. -/
def postfixed : Parser Expr := do
  let e ← callMember inner
  let token ← peek
  match updateOpOf? token.kind with
  | none => return e
  | some op =>
    if token.newlineBefore then return e
    checkAssignable e token.place
    let _ ← advance
    return .update op .old e

/-- An operand with the operators before it. -/
def unaryHere : Parser Expr := do
  let token ← peek
  match updateOpOf? token.kind with
  | some op => do
    let _ ← advance
    let target ← inner.unary
    checkAssignable target token.place
    return .update op .new target
  | none =>
    match unaryOpOf? token.kind with
    | some op => do
      let _ ← advance
      return .unary op (← inner.unary)
    | none => postfixed inner

/-- A power, which associates to the right and takes no bare unary operator on its left. -/
def exponent : Parser Expr := do
  let base ← inner.unary
  unless ← atSymbol .starStar do return base
  if base.isUnary then faultHere .unaryBeforePower
  let _ ← advance
  return .binary .pow base (← inner.power)

/-- Goes on with a chain of operators of a tier. -/
def chainHere (tier : Nat) (left : Expr) : Parser Expr := do
  match jointOf? tier (← peek).kind with
  | none => return left
  | some joint =>
    let _ ← advance
    let right ← inner.operand tier
    inner.chain tier (joint.join left right)

/-- An expression made with the operators of the tightest so many tiers. -/
def tiers : Nat → Parser Expr
  | 0 => exponent inner
  | tier + 1 => do
    let left ← tiers tier
    chainHere inner tier left

/-- A choice between two expressions. -/
def conditional : Parser Expr := do
  let test ← tiers inner tierCount
  unless ← eat .question do return test
  let consequent ← inner.assignment
  expect .colon
  return .conditional test consequent (← inner.assignment)

/-- An expression, perhaps with a value assigned to it. -/
def assignmentHere : Parser Expr := do
  let target ← conditional inner
  let token ← peek
  match assignOpOf? token.kind with
  | none => return target
  | some op =>
    checkAssignable target token.place
    let _ ← advance
    return .assign op target (← inner.assignment)

/-! #### Statements -/

/-- Whether a statement can end before the next token without a semicolon. -/
def Token.endsStatement (t : Token) : Bool :=
  t.kind.isSymbol .rightBrace || t.kind.isFinish || t.newlineBefore

/-- The end of a statement. -/
def terminator : Parser Unit := do
  if ← eat .semicolon then return ()
  let token ← peek
  unless Token.endsStatement token do
    faultAt token.place (.expected .semicolon token.kind)

/-- A list of statements in braces; variables declared inside are not seen after it. -/
def block : Parser Stmt := do
  expect .leftBrace
  let outside := (← get).locals
  let statements ← fueled (itemsUntil (atSymbol .rightBrace) do
    if ← atFinish then unexpected
    inner.statement)
  expect .rightBrace
  modify fun s => { s with locals := outside }
  return .block statements

/-- A choice between two statements, the second one perhaps missing. -/
def ifStatement : Parser Stmt := do
  let _ ← advance
  expect .leftParen
  let test ← inner.assignment
  expect .rightParen
  let consequent ← inner.statement
  if ← atWord "else" then
    let _ ← advance
    return .conditional test consequent (some (← inner.statement))
  return .conditional test consequent none

/-- A return, perhaps with a value on the same line. -/
def returnStatement : Parser Stmt := do
  let _ ← advance
  let token ← peek
  if token.kind.isSymbol .semicolon || Token.endsStatement token then
    terminator
    return .returns none
  let value ← inner.assignment
  terminator
  return .returns (some value)

/-- The first value of a variable, which a constant has to have. -/
def initializer (constant : Bool) (place : List Char) : Parser (Option Expr) := do
  if ← eat .assign then return some (← inner.assignment)
  if constant then faultAt place .missingInitializer
  return none

/-- One variable of a declaration.  It is seen from here on, not in its own first value. -/
def declarator (constant : Bool) : Parser (Nat × Option Expr) := do
  let token ← advance
  match token.kind with
  | .name name =>
    if isReserved name then faultAt token.place (.reservedVariable name)
    let init ← initializer inner constant token.place
    let slot := (← get).nextSlot
    modify fun s => { s with nextSlot := slot + 1, locals := ⟨name, slot, constant⟩ :: s.locals }
    return (slot, init)
  | found => faultAt token.place (.expectedVariable found)

/-- A declaration of variables. -/
def declaration : Parser Stmt := do
  let constant ← atWord "const"
  let _ ← advance
  let declarators ← fueled (separatedByComma (declarator inner constant))
  terminator
  return .declare declarators

/-- An expression as a statement. -/
def expressionStatement : Parser Stmt := do
  let e ← inner.assignment
  terminator
  return .expression e

/-- A statement. -/
def statementHere : Parser Stmt := do
  if ← eat .semicolon then return .empty
  match (← peek).kind with
  | .symbol .leftBrace => block inner
  | .name "if" => ifStatement inner
  | .name "return" => returnStatement inner
  | .name "let" | .name "const" | .name "var" => declaration inner
  | _ => expressionStatement inner

/-- The grammar with one level more than `inner`. -/
def deeper : Grammar where
  statement := statementHere inner
  assignment := assignmentHere inner
  unary := unaryHere inner
  power := exponent inner
  operand := tiers inner
  chain := chainHere inner
  link := linkHere inner

end Grammar

/-- The grammar with so many levels left. -/
def grammar : Nat → Grammar
  | 0 => .exhausted
  | levels + 1 => (grammar levels).deeper

/-- How many levels deep a text may nest. -/
def maxNesting : Nat := 128

/-! ### Programs -/

/-- An expression up to the end of the text. -/
def wholeExpression (levels : Nat) : Parser Body := do
  let e ← (grammar levels).assignment
  unless ← atFinish do unexpected
  return .expression e

/-- Statements up to the end of the text. -/
def wholeStatements (levels : Nat) : Parser Body := do
  return .statements (← fueled (itemsUntil atFinish (grammar levels).statement))

/-- The text as a function of the given parameters. -/
def parse (source : String) (params : List String) (mode : Mode) :
    Except SyntaxError Program := located source do
  let start : ParserState :=
    { params, tokens := ← tokenize source, locals := [], nextSlot := params.length }
  let body :=
    match mode with
    | .expression => wholeExpression maxNesting
    | .statement => wholeStatements maxNesting
  let (body, finish) ← body.run start
  return { body, slotCount := finish.nextSlot }

end LiveMarkup.Syntax
