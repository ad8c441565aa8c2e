import LiveMarkup.Syntax.Parser

/-!
# Parsers that count their nesting

The parsers of a grammar know how many levels they have left from the grammar that they belong to.
The same parsers can be written with one grammar and a counter: a parser that opens a level raises
the counter, and fails if it is past the limit; whoever has raised the counter puts it back when it
is done.  A statement, an assignment, a unary operator and a right operand of `**` raise it once,
and put it back after what they parse.  A chain of operators or links raises it once more for each
of them, and puts it back only where the chain ends.

A parser that fails leaves the counter where it was then, and nothing is parsed after that.  What
the counter has been at most is kept beside it; nothing reads it.

The recursion of these parsers is not bounded by their counter, as far as can be seen from how they
are written.  They get a number of calls that may be made one inside another, and halt if they need
more.

## Main definitions

* `Counted`, `Halt`, `Counting` — parsers with a counter.
* `Counting.descend`, `Counting.nested` — how the counter is used.
* `Rules`, `rules` — the parsers that are called recursively, with so many calls one inside another.
* `Rules.parse` — a text as a program.
-/

namespace LiveMarkup.Syntax

variable {α : Type}

/-- The state of a parser with a counter. -/
structure Counted where
  state : ParserState
  /-- How deep the parser is nested. -/
  depth : Nat
  /-- How deep it has been nested at most. -/
  deepest : Nat

/-- Why a parser with a counter gives no result. -/
inductive Halt
  | fault (e : Located)
  /-- It needs more calls one inside another than it was given. -/
  | outOfCalls

/-- A parser with a counter, which is kept when the parser fails. -/
abbrev Counting := EStateM Halt Counted

/-- What is left of a run without its counter, if it had enough calls. -/
def conclusion : EStateM.Result Halt Counted α → Option (Except Located (α × ParserState))
  | .ok x c => some (.ok (x, c.state))
  | .error (.fault e) _ => some (.error e)
  | .error .outOfCalls _ => none

/-- What the counter was when a run ended, either way. -/
def atEnd : EStateM.Result Halt Counted α → Counted
  | .ok _ c => c
  | .error _ c => c

namespace Counting

/-- A step that leaves the counter alone. -/
def lift (p : Parser α) : Counting α := fun c =>
  match p.run c.state with
  | .ok (x, state) => .ok x { c with state }
  | .error e => .error (.fault e) c

/-- Sets the counter. -/
def setDepth (depth : Nat) : Counting Unit :=
  modify fun c => { c with depth, deepest := max c.deepest depth }

/-- Goes one level deeper, and fails past the limit. -/
def descend : Counting Unit := do
  setDepth ((← get).depth + 1)
  if maxNesting < (← get).depth then lift (faultHere .nestedTooDeeply)

/-- Parses one level deeper. -/
def nested (p : Counting α) : Counting α := do
  let outer := (← get).depth
  descend
  let x ← p
  setDepth outer
  return x

/-! ### Lists -/

/-- Items up to a stop. -/
def itemsUntil (stop : Parser Bool) (item : Counting α) : Nat → Counting (List α)
  | 0 => return []
  | fuel + 1 => do
    if ← lift stop then return []
    let x ← item
    return x :: (← itemsUntil stop item fuel)

/-- Items with commas between them, up to a closing symbol that may follow a comma. -/
def commaSeparated (close : Symbol) (item : Counting α) : Nat → Counting (List α)
  | 0 => return []
  | fuel + 1 => do
    if ← lift (atSymbol close) then return []
    let x ← item
    if ← lift (eat .comma) then return x :: (← commaSeparated close item fuel)
    return [x]

/-- At least one item, with commas between them. -/
def separatedByComma (item : Counting α) : Nat → Counting (List α)
  | 0 => return []
  | fuel + 1 => do
    let x ← item
    if ← lift (eat .comma) then return x :: (← separatedByComma item fuel)
    return [x]

/-- Array elements, perhaps with holes. -/
def arrayItems (item : Counting Expr) : Nat → Counting (List Expr)
  | 0 => return []
  | fuel + 1 => do
    if ← lift (atSymbol .rightBracket) then return []
    if ← lift (eat .comma) then return .literal .undefined :: (← arrayItems item fuel)
    let x ← item
    if ← lift (eat .comma) then return x :: (← arrayItems item fuel)
    return [x]

/-- Gives a list parser as much fuel as there are tokens. -/
def fueled (p : Nat → Counting α) : Counting α := do
  p (← lift get).tokens.length

end Counting

/-- The parsers that are called recursively. -/
structure Rules where
  /-- A statement. -/
  statement : Counting Stmt
  /-- An expression. -/
  assignment : Counting Expr
  /-- An operand with its unary operators. -/
  unary : Counting Expr
  /-- The right operand of `**`. -/
  power : Counting Expr

namespace Rules

open Counting (lift setDepth descend nested)

/-! The parsers below call `again` what is one call further in.  All but the rules themselves leave
it to others to raise the counter, but for the two kinds of chains. -/

variable (again : Rules)

/-! ### Primary expressions -/

/-- The elements of an array literal, after its opening bracket. -/
def arrayLiteral : Counting Expr := do
  let items ← Counting.fueled (Counting.arrayItems again.assignment)
  lift (expect .rightBracket)
  return .array items

/-- The value of a property, after its name. -/
def propertyValue : Counting Expr := do
  lift (expect .colon)
  again.assignment

/-- A property of an object literal. -/
def property : Counting (String × Expr) := do
  let token ← lift advance
  match token.kind with
  | .name key =>
    if ← lift (atSymbol .colon) then return (key, ← propertyValue again)
    if isReserved key then lift (faultAt token.place (.unexpectedKeyword key))
    return (key, ← lift (resolve key))
  | .string key => return (key, ← propertyValue again)
  | .number x => return (Number.written x, ← propertyValue again)
  | found => lift (faultAt token.place (.expectedProperty found))

/-- The properties of an object literal, after its opening brace. -/
def objectLiteral : Counting Expr := do
  let properties ← Counting.fueled (Counting.commaSeparated .rightBrace (property again))
  lift (expect .rightBrace)
  return .object properties

/-- An expression in parentheses, after the opening one. -/
def parenthesized : Counting Expr := do
  let e ← again.assignment
  lift (expect .rightParen)
  return e

/-- A literal, a name, or an expression in parentheses. -/
def primary : Counting Expr := do
  let token ← lift advance
  match token.kind with
  | .number x => return .literal (.number x)
  | .string s => return .literal (.string s)
  | .name s => lift (Grammar.word token.place s)
  | .symbol .leftParen => parenthesized again
  | .symbol .leftBracket => arrayLiteral again
  | .symbol .leftBrace => objectLiteral again
  | found => lift (faultAt token.place (.unexpected found))

/-! ### Chains of members and calls -/

/-- The arguments of a call. -/
def arguments : Counting (List Expr) := do
  lift (expect .leftParen)
  let args ← Counting.fueled (Counting.commaSeparated .rightParen again.assignment)
  lift (expect .rightParen)
  return args

/-- A key in brackets, after the opening bracket. -/
def bracketed : Counting Expr := do
  let key ← again.assignment
  lift (expect .rightBracket)
  return key

/-- The link after `?.`. -/
def optionalLink (e : Expr) : Counting Expr := do
  match (← lift peek).kind with
  | .symbol .leftParen => return .call e (← arguments again) true
  | .symbol .leftBracket => do
    let _ ← lift advance
    return .index e (← bracketed again) true
  | _ => return .member e (← lift propertyName) true

/-- A link of a chain, and whether the chain has a `?.` link by then. -/
def link (optional : Bool) (e : Expr) : Counting (Bool × Expr) := do
  match (← lift peek).kind with
  | .symbol .dot => do
    let _ ← lift advance
    return (optional, .member e (← lift propertyName) false)
  | .symbol .questionDot => do
    let _ ← lift advance
    return (true, ← optionalLink again e)
  | .symbol .leftBracket => do
    let _ ← lift advance
    return (optional, .index e (← bracketed again) false)
  | _ => return (optional, .call e (← arguments again) false)

/-- The links of a chain, one level for each.  Where the chain ends the counter is put back to what
it was where it began. -/
def links (outer : Nat) : Nat → Bool → Expr → Counting Expr
  | 0, _, _ => throw .outOfCalls
  | fuel + 1, optional, e => do
    if (← lift peek).kind.isLink then
      descend
      let (optional, e) ← link again optional e
      links outer fuel optional e
    else
      setDepth outer
      return if optional then .optionalChain e else e

/-- So many levels are enough for a chain, as each link opens one. -/
def chainFuel : Nat := maxNesting + 1

/-- A primary expression with its members and calls. -/
def callMember : Counting Expr := do
  let outer := (← get).depth
  let e ← primary again
  links again outer chainFuel false e

/-! ### Operators -/

/-- An operand with an update operator after it, on the same line. -/
def postfixed : Counting Expr := do
  let e ← callMember again
  let token ← lift peek
  match updateOpOf? token.kind with
  | none => return e
  | some op =>
    if token.newlineBefore then return e
    lift (checkAssignable e token.place)
    let _ ← lift advance
    return .update op .old e

/-- An operand with the operators before it. -/
def unaryHere : Counting Expr := do
  let token ← lift peek
  match updateOpOf? token.kind with
  | some op => do
    let _ ← lift advance
    let target ← again.unary
    lift (checkAssignable target token.place)
    return .update op .new target
  | none =>
    match unaryOpOf? token.kind with
    | some op => do
      let _ ← lift advance
      return .unary op (← again.unary)
    | none => postfixed again

/-- A power. -/
def exponent : Counting Expr := do
  let base ← again.unary
  unless ← lift (atSymbol .starStar) do return base
  if base.isUnary then lift (faultHere .unaryBeforePower)
  let _ ← lift advance
  return .binary .pow base (← again.power)

/-- The operators of a tier with their right operands, one level for each.  Where the chain ends the
counter is put back to what it was where it began. -/
def chain (tier outer : Nat) (operand : Counting Expr) : Nat → Expr → Counting Expr
  | 0, _ => throw .outOfCalls
  | fuel + 1, left => do
    match jointOf? tier (← lift peek).kind with
    | none => do
      setDepth outer
      return left
    | some joint => do
      let _ ← lift advance
      descend
      let right ← operand
      chain tier outer operand fuel (joint.join left right)

/-- An expression made with the operators of the tightest so many tiers. -/
def tiers : Nat → Counting Expr
  | 0 => exponent again
  | tier + 1 => do
    let outer := (← get).depth
    let left ← tiers tier
    chain tier outer (tiers tier) chainFuel left

/-- A choice between two expressions. -/
def conditional : Counting Expr := do
  let test ← tiers again tierCount
  unless ← lift (eat .question) do return test
  let consequent ← again.assignment
  lift (expect .colon)
  return .conditional test consequent (← again.assignment)

/-- An expression, perhaps with a value assigned to it. -/
def assignmentHere : Counting Expr := do
  let target ← conditional again
  let token ← lift peek
  match assignOpOf? token.kind with
  | none => return target
  | some op =>
    lift (checkAssignable target token.place)
    let _ ← lift advance
    return .assign op target (← again.assignment)

/-! ### Statements -/

/-- A list of statements in braces. -/
def block : Counting Stmt := do
  lift (expect .leftBrace)
  let outside := (← lift get).locals
  let statements ← Counting.fueled (Counting.itemsUntil (atSymbol .rightBrace) do
    if ← lift atFinish then lift unexpected
    again.statement)
  lift (expect .rightBrace)
  lift (modify fun s => { s with locals := outside })
  return .block statements

/-- A choice between two statements, the second one perhaps missing. -/
def ifStatement : Counting Stmt := do
  let _ ← lift advance
  lift (expect .leftParen)
  let test ← again.assignment
  lift (expect .rightParen)
  let consequent ← again.statement
  if ← lift (atWord "else") then
    let _ ← lift advance
    return .conditional test consequent (some (← again.statement))
  return .conditional test consequent none

/-- A return, perhaps with a value on the same line. -/
def returnStatement : Counting Stmt := do
  let _ ← lift advance
  let token ← lift peek
  if token.kind.isSymbol .semicolon || Grammar.Token.endsStatement token then
    lift Grammar.terminator
    return .returns none
  let value ← again.assignment
  lift Grammar.terminator
  return .returns (some value)

/-- The first value of a variable, which a constant has to have. -/
def initializer (constant : Bool) (place : List Char) : Counting (Option Expr) := do
  if ← lift (eat .assign) then return some (← again.assignment)
  if constant then lift (faultAt place .missingInitializer)
  return none

/-- One variable of a declaration. -/
def declarator (constant : Bool) : Counting (Nat × Option Expr) := do
  let token ← lift advance
  match token.kind with
  | .name name =>
    if isReserved name then lift (faultAt token.place (.reservedVariable name))
    let init ← initializer again constant token.place
    let slot := (← lift get).nextSlot
    lift (modify fun s =>
      { s with nextSlot := slot + 1, locals := ⟨name, slot, constant⟩ :: s.locals })
    return (slot, init)
  | found => lift (faultAt token.place (.expectedVariable found))

/-- A declaration of variables. -/
def declaration : Counting Stmt := do
  let constant ← lift (atWord "const")
  let _ ← lift advance
  let declarators ← Counting.fueled (Counting.separatedByComma (declarator again constant))
  lift Grammar.terminator
  return .declare declarators

/-- An expression as a statement. -/
def expressionStatement : Counting Stmt := do
  let e ← again.assignment
  lift Grammar.terminator
  return .expression e

/-- A statement. -/
def statementHere : Counting Stmt := do
  if ← lift (eat .semicolon) then return .empty
  match (← lift peek).kind with
  | .symbol .leftBrace => block again
  | .name "if" => ifStatement again
  | .name "return" => returnStatement again
  | .name "let" | .name "const" | .name "var" => declaration again
  | _ => expressionStatement again

/-! ### Recursion -/

/-- The rules that may be called once more than `again`. -/
def once : Rules where
  statement := nested (statementHere again)
  assignment := nested (assignmentHere again)
  unary := nested (unaryHere again)
  power := nested (exponent again)

/-- The rules that may not be called. -/
def exhausted : Rules where
  statement := throw .outOfCalls
  assignment := throw .outOfCalls
  unary := throw .outOfCalls
  power := throw .outOfCalls

end Rules

/-- The rules, of which so many calls may be under way one inside another. -/
def rules : Nat → Rules
  | 0 => .exhausted
  | calls + 1 => (rules calls).once

namespace Rules

open Counting (lift)

/-- An expression up to the end of the text. -/
def wholeExpression (calls : Nat) : Counting Body := do
  let e ← (rules calls).assignment
  unless ← lift atFinish do lift unexpected
  return .expression e

/-- Statements up to the end of the text. -/
def wholeStatements (calls : Nat) : Counting Body := do
  return .statements (← Counting.fueled (Counting.itemsUntil atFinish (rules calls).statement))

/-- The text as a function of the given parameters, parsed with a counter that starts at zero, if so
many calls are enough. -/
def parse (calls : Nat) (source : String) (params : List String) (mode : Mode) :
    Option (Except SyntaxError Program) :=
  match tokenize source with
  | .error e => some (located source (.error e))
  | .ok tokens =>
    let start : ParserState := { params, tokens, locals := [], nextSlot := params.length }
    let body :=
      match mode with
      | .expression => wholeExpression calls
      | .statement => wholeStatements calls
    (conclusion (body.run ⟨start, 0, 0⟩)).map fun result => located source (do
      let (body, finish) ← result
      return { body, slotCount := finish.nextSlot })

end Rules

end LiveMarkup.Syntax
