import LiveMarkup.Value

/-!
# Syntax trees

What a text means once it is parsed.  Names are resolved: each is a parameter, a declared variable,
a builtin, or not defined at all.

## Main definitions

* `Expr`, `Stmt` — expressions and statements.
* `Body`, `Program` — what a text compiles to.
-/

namespace LiveMarkup.Syntax

/-- The builtin globals. -/
inductive Global
  | math
  | function (f : BuiltinFunction)
  | nan
  | infinity
  deriving DecidableEq, Repr, Inhabited

/-- The name of a builtin global. -/
def Global.name : Global → String
  | .math => "Math"
  | .function f => f.name
  | .nan => "NaN"
  | .infinity => "Infinity"

/-- The builtin globals that have a name of their own. -/
def Global.all : List Global :=
  [.math, .function .string, .function .number, .function .boolean, .function .parseInt,
    .function .parseFloat, .function .isNaN, .nan, .infinity]

/-- The builtin global with the given name. -/
def Global.ofName? (name : String) : Option Global := Global.all.find? fun g => g.name == name

/-- A literal primitive. -/
inductive Literal
  | undefined
  | null
  | bool (b : Bool)
  | number (x : Float)
  | string (s : String)
  deriving Inhabited

/-- The value of a literal. -/
def Literal.value : Literal → Value
  | .undefined => .undefined
  | .null => .null
  | .bool b => .bool b
  | .number x => .number x
  | .string s => .string s

/-- Operators with one operand. -/
inductive UnaryOp
  | not | negate | plus | typeOf
  deriving DecidableEq, Repr, Inhabited

/-- Operators that compute a value from two. -/
inductive BinaryOp
  | add | sub | mul | div | rem | pow
  | less | lessEqual | greater | greaterEqual
  | equal | notEqual | strictEqual | strictNotEqual
  deriving DecidableEq, Repr, Inhabited

/-- Operators that may leave their right operand alone. -/
inductive LogicalOp
  | and | or | nullish
  deriving DecidableEq, Repr, Inhabited

/-- `=`, or an operator applied to the current value first. -/
inductive AssignOp
  | assign
  | compound (op : BinaryOp)
  deriving DecidableEq, Repr, Inhabited

/-- `++` and `--`. -/
inductive UpdateOp
  | increment | decrement
  deriving DecidableEq, Repr, Inhabited

/-- Whether an update gives the new value or the old one. -/
inductive UpdateResult
  /-- The operator stands before its target: the new value. -/
  | new
  /-- The operator stands after its target: the old value. -/
  | old
  deriving DecidableEq, Repr, Inhabited

/-- An expression. -/
inductive Expr
  | literal (l : Literal)
  | array (items : List Expr)
  | object (properties : List (String × Expr))
  /-- A context value, by its position. -/
  | param (slot : Nat) (name : String)
  /-- A variable declared in the text. -/
  | declared (slot : Nat) (name : String)
  | global (g : Global)
  /-- A name that is not bound at all. -/
  | unbound (name : String)
  | member (object : Expr) (property : String) (optional : Bool)
  | index (object : Expr) (key : Expr) (optional : Bool)
  | call (callee : Expr) (args : List Expr) (optional : Bool)
  /-- A chain with a `?.` link; a nullish link makes the whole chain `undefined`. -/
  | optionalChain (chain : Expr)
  | unary (op : UnaryOp) (operand : Expr)
  | binary (op : BinaryOp) (left right : Expr)
  | logical (op : LogicalOp) (left right : Expr)
  | conditional (test consequent alternate : Expr)
  | assign (op : AssignOp) (target value : Expr)
  | update (op : UpdateOp) (result : UpdateResult) (target : Expr)
  deriving Inhabited

/-- Whether an expression can be assigned to. -/
def Expr.isAssignable : Expr → Bool
  | .param .. | .declared .. | .unbound _ => true
  | .member _ _ optional | .index _ _ optional => !optional
  | _ => false

/-- Whether an expression is a unary operator with its operand. -/
def Expr.isUnary : Expr → Bool
  | .unary .. => true
  | _ => false

/-- A statement. -/
inductive Stmt
  | empty
  | expression (e : Expr)
  | block (statements : List Stmt)
  /-- A declaration, with a slot and perhaps a first value for each variable. -/
  | declare (declarators : List (Nat × Option Expr))
  | conditional (test : Expr) (consequent : Stmt) (alternate : Option Stmt)
  | returns (value : Option Expr)
  deriving Inhabited

/-- How a text is turned into a function. -/
inductive Mode
  /-- One expression, whose value is the result. -/
  | expression
  /-- A list of statements; the result is what `return` gives, or `undefined`. -/
  | statement
  deriving DecidableEq, Repr, Inhabited

/-- What a text says to do. -/
inductive Body
  | expression (e : Expr)
  | statements (statements : List Stmt)
  deriving Inhabited

/-- A parsed text. -/
structure Program where
  body : Body
  /-- The number of slots for parameters and variables. -/
  slotCount : Nat
  deriving Inhabited

end LiveMarkup.Syntax
