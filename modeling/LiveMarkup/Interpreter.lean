import LiveMarkup.Eval.Evaluator
import LiveMarkup.Interpreter.Key
import LiveMarkup.Interpreter.Options
import LiveMarkup.Recency
import LiveMarkup.Scope

/-!
# Interpreters

An interpreter compiles source text and runs it over named values.  A text is first searched for
denied calls.  What is compiled is kept under the text and the names of its parameters and used
again, whatever values come with those names later.

## Main definitions

* `Interpreter`, `Interpreter.withOptions` — settings, base context and compiled functions.
* `InterpreterError` — why a text gives no value, with its wording.
* `Interpreter.compile` — compilation, which uses what is kept.
* `Interpreter.run` — compilation and a call over a context.
* `Interpreter.evaluate`, `Interpreter.execute` — running, with a cell in the result read.
-/

namespace LiveMarkup

open Syntax Eval

/-- A compiled function.  Compiling anew makes another function, even for the same text. -/
structure CompiledFunction where
  code : Code
  /-- The interpreter that compiled it, and how many it had compiled before. -/
  origin : Nat × Nat
  deriving Inhabited

/-- Why a text gives no value. -/
inductive InterpreterError
  /-- It has a denied call. -/
  | denied (call : DeniedCall)
  /-- It is not in the language. -/
  | malformed (key : CompileKey) (error : SyntaxError)
  /-- Its evaluation fails. -/
  | failed (key : CompileKey) (error : EvalError)
  deriving Inhabited

/-- The wording of the error. -/
def InterpreterError.message : InterpreterError → String
  | .denied call => call.message
  | .malformed key error => "syntax error for " ++ Text.ticked key.text ++ ": " ++ error.message
  | .failed key error => "execution error for " ++ Text.ticked key.text ++ ": " ++ error.message

/-- How often compiled functions were found, made and taken out. -/
structure CacheCounts where
  hits : Nat := 0
  misses : Nat := 0
  evictions : Nat := 0
  deriving DecidableEq, Repr, Inhabited

/-- An interpreter. -/
structure Interpreter where
  validator : Validator := .standard
  /-- Values that every call sees. -/
  base : Context := .empty
  /-- The compiled functions that are kept. -/
  cache : Recency CompileKey CompiledFunction := { capacity := 1000 }
  counts : CacheCounts := {}
  /-- A number that no other interpreter has. -/
  serial : Nat := 0
  /-- How many functions it has compiled. -/
  compiled : Nat := 0
  deriving Inhabited

namespace Interpreter

/-- The interpreter with the given settings. -/
def withOptions (o : Options) : Except OptionsError Interpreter :=
  match Validator.ofNames o.denylist with
  | .ok validator => .ok { validator, cache := { capacity := o.cacheCapacity } }
  | .error e => .error (.invalidName e)

/-! ### Compilation -/

/-- Counts a function found. -/
def countHit (i : Interpreter) (cache : Recency CompileKey CompiledFunction) : Interpreter :=
  { i with cache, counts := { i.counts with hits := i.counts.hits + 1 } }

/-- Counts a function to be made. -/
def countMiss (i : Interpreter) : Interpreter :=
  { i with counts := { i.counts with misses := i.counts.misses + 1 } }

/-- Keeps a new function; one taken out for it is counted. -/
def keep (i : Interpreter) (key : CompileKey) (f : CompiledFunction) : Interpreter :=
  let (cache, evicted) := i.cache.insert key f
  { i with
    cache
    compiled := i.compiled + 1
    counts := { i.counts with evictions := i.counts.evictions + if evicted.isSome then 1 else 0 } }

/-- Makes a function for a key and keeps it. -/
def make (i : Interpreter) (key : CompileKey) (params : List String) :
    Interpreter × Except InterpreterError CompiledFunction :=
  match Code.compile key.source params key.mode with
  | .ok code =>
    let f : CompiledFunction := { code, origin := (i.serial, i.compiled) }
    (i.keep key f, .ok f)
  | .error e => (i, .error (.malformed key e))

/-- The function for a text that has no denied call: the one kept, else a new one. -/
def lookup (i : Interpreter) (key : CompileKey) (params : List String) :
    Interpreter × Except InterpreterError CompiledFunction :=
  match i.cache.get key with
  | (cache, some f) => (i.countHit cache, .ok f)
  | (_, none) => i.countMiss.make key params

/-- Compiles a text over parameters, or finds what is kept. -/
def compile (i : Interpreter) (source : String) (params : List String) (mode : Mode) :
    Interpreter × Except InterpreterError CompiledFunction :=
  match i.validator.check source with
  | .error call => (i, .error (.denied call))
  | .ok () => i.lookup (.of source params mode) params

/-- Whether a text compiled over parameters is kept. -/
def isCached (i : Interpreter) (source : String) (params : List String) (mode : Mode) : Bool :=
  i.cache.contains (.of source params mode)

/-- Takes all functions out and begins to count anew. -/
def clearCache (i : Interpreter) : Interpreter :=
  { i with cache := i.cache.clear, counts := {} }

/-! ### Running -/

/-- The context of a call: its own values over those of the interpreter. -/
def contextOf (i : Interpreter) (context : Context) : Context :=
  if i.base.isEmpty then context else i.base.merge context

/-- Compiles a text over the names of a context and calls it with the values. -/
def run (i : Interpreter) (s : Store) (source : String) (context : Context) (mode : Mode) :
    Interpreter × Store × Except InterpreterError Value :=
  let context := i.contextOf context
  match i.compile source context.names mode with
  | (i, .error e) => (i, s, .error e)
  | (i, .ok f) =>
    let (s, result) := f.code.call context.values s
    (i, s, result.mapError (.failed (.of source context.names mode)))

/-- Lets go of a result that is a cell, after it has been read. -/
def letGoRead (s : Store) (context : Context) (result : Except InterpreterError Value) : Store :=
  match result with
  | .ok (.cell c) => s.letGo (references (s.held c :: context.values)) [.cell c]
  | _ => s

/-- Runs a text and reads a cell in the result. -/
def runRead (i : Interpreter) (s : Store) (source : String) (context : Context) (mode : Mode) :
    Interpreter × Store × Except InterpreterError Value :=
  let (i, s, result) := i.run s source context mode
  (i, letGoRead s (i.contextOf context) result, result.map s.unwrap)

/-- Evaluates an expression; the result may be a cell. -/
def evaluateRaw (i : Interpreter) (s : Store) (source : String) (context : Context) :
    Interpreter × Store × Except InterpreterError Value :=
  i.run s source context .expression

/-- Evaluates an expression and reads a cell in the result. -/
def evaluate (i : Interpreter) (s : Store) (source : String) (context : Context) :
    Interpreter × Store × Except InterpreterError Value :=
  i.runRead s source context .expression

/-- Runs statements and reads a cell in the result. -/
def execute (i : Interpreter) (s : Store) (source : String) (context : Context) :
    Interpreter × Store × Except InterpreterError Value :=
  i.runRead s source context .statement

end Interpreter

/-- What is done with the result of a text. -/
inductive Manner
  /-- It is given as it is. -/
  | raw
  /-- A cell is read. -/
  | read
  /-- A cell is read, and a failure other than a denied call gives `null`. -/
  | absorbing
  deriving DecidableEq, Repr, Inhabited

/-- The result with every failure but a denied call turned into `null`, so that one broken text does
not stop what is around it. -/
def absorbed : Except InterpreterError Value → Except InterpreterError Value
  | .ok v => .ok v
  | .error (.denied call) => .error (.denied call)
  | .error _ => .ok .null

/-- Runs a text in a mode and a manner. -/
def Interpreter.runIn (i : Interpreter) (s : Store) (source : String) (context : Context)
    (mode : Mode) (manner : Manner) : Interpreter × Store × Except InterpreterError Value :=
  match manner with
  | .raw => i.run s source context mode
  | .read => i.runRead s source context mode
  | .absorbing =>
    let (i, s, result) := i.runRead s source context mode
    (i, s, absorbed result)

end LiveMarkup
