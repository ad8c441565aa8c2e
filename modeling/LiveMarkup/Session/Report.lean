import LiveMarkup.Markup
import LiveMarkup.Store.Coerced
import LiveMarkup.Store.Stream

/-!
# What a host learns

Every step gives a report, and while steps are done things happen that are taken down in a log.

## Main definitions

* `Report` — the answer to a step.
* `Event` — an entry of the log.
-/

namespace LiveMarkup

open Syntax

/-- A cell shown by the name of a value that is that very cell, if there is one. -/
abbrev CellName := Option String

/-- A scope shown by its names and cells. -/
structure ScopeInfo where
  names : List String
  cells : List CellName
  deriving DecidableEq, Repr, Inhabited

/-- What a cache of its own says of an action. -/
inductive CacheAnswer
  /-- The key that was taken out for a new one. -/
  | evicted (key : Option CompileKey)
  | truth (b : Bool)
  deriving DecidableEq, Repr, Inhabited

/-- Why a step has no other answer. -/
inductive Refusal
  /-- The name does not stand for what the step works with. -/
  | unknown (name : String)
  | property (error : PropertyError)
  | options (error : OptionsError)
  | interpreter (error : InterpreterError)
  | syntaxError (error : SyntaxError)
  | evaluation (error : Eval.EvalError)
  | stateLiteral (error : StateLiteralError)
  deriving Inhabited

/-- The answer to a step. -/
inductive Report
  /-- It is done, and there is nothing to say. -/
  | done
  | refused (why : Refusal)
  | value (v : Snapshot)
  | values (vs : List Snapshot)
  | truth (b : Bool)
  | count (n : Nat)
  | text (s : String)
  | coerced (c : Coerced)
  /-- The value that the last write replaced, if one did. -/
  | previous (replaced : Option Snapshot)
  | history (current : Snapshot) (replaced : Option Snapshot)
  | status (scheduled : Bool) (subscribers : Nat)
  /-- Whether a subscription was used before, and is now. -/
  | used (before after : Bool)
  | polled (result : PollResult)
  /-- The number of passes on a queue. -/
  | backlog (n : Nat)
  | scope (info : ScopeInfo)
  /-- The cell that a variable stood for before. -/
  | replacedCell (cell : Option CellName)
  /-- What the cell of a variable holds, if the variable is bound. -/
  | found (held : Option Snapshot)
  | bindings (entries : List (String × Snapshot))
  | collected (values : List Snapshot) (cells : List CellName)
  | compiled (params : List String) (mode : Mode)
  | statistics (counts : CacheCounts) (size capacity : Nat)
  /-- The cells a text refers to, and how many subscriptions were made. -/
  | resolved (cells : List CellName) (subscriptions : Option Nat)
  /-- Which cells were new, which are in the set, and the set. -/
  | cellSet (added has : List Bool) (cells : List CellName)
  | cache (answer : CacheAnswer) (keys : List CompileKey) (capacity : Nat)
  deriving Inhabited

/-- An entry of the log. -/
inductive Event
  /-- Something happened in the store. -/
  | notice (n : Notice)
  /-- A callback was called. -/
  | call (callback : String)
  /-- A step of a callback was done. -/
  | done (callback : String) (report : Report)
  deriving Inhabited

end LiveMarkup
