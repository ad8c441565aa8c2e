import LiveMarkup.Interpreter
import LiveMarkup.Session.Recipe

/-!
# What a host does

A host works with named things: values, callbacks, subscriptions, effects, scopes, collectors,
streams, queues, interpreters, compiled functions and caches.  An action is done at once; a step is
an action, or something during which callbacks are called, which do steps of their own.

## Main definitions

* `Edit`, `CellAction`, `ScopeAction`, `InterpreterAction`, `CacheAction` — actions on one thing.
* `Action` — every action.
* `Step` — every step.
-/

namespace LiveMarkup

open Syntax

/-- An edit of the value a cell holds. -/
inductive Edit
  | keep
  | replace (value : Recipe)
  /-- A property of the held value is written in place. -/
  | assign (key : String) (value : Recipe)
  /-- An element is added if an array is held. -/
  | push (value : Recipe)
  /-- A property of a property of the held value is written in place. -/
  | assignWithin (outer key : String) (value : Recipe)
  deriving Inhabited

/-- Where a new cell has its passes run. -/
inductive SchedulerName
  | standard
  | spawner
  | queue (name : String)
  deriving DecidableEq, Repr, Inhabited

/-- What is done with a cell. -/
inductive CellAction
  | get
  | display
  | set (value : Recipe)
  | previous
  | history
  | items
  | trigger
  | status
  | getProperty (key : String)
  | setProperty (key : String) (value : Recipe)
  /-- Writes a property and tells why if that is refused. -/
  | trySetProperty (key : String) (value : Recipe)
  /-- Edits the held value; the flag, if there is one, says whether an edit in place counts. -/
  | edit (edit : Edit) (flag : Option Bool)
  | subscribe (callback subscription : String)
  | isSubscribed (callback : String)
  | unsubscribeAll
  | changes (stream : String)
  deriving Inhabited

/-- What is done with a scope. -/
inductive ScopeAction
  | create (values : List (String × Recipe))
  | ofObject (value : Recipe)
  | child (parent : String)
  | describe
  | insert (variableName cell : String)
  /-- Looks a variable up, and binds its cell as a value if asked. -/
  | get (variableName : String) (bindAs : Option String)
  | context
  | dispose
  deriving Inhabited

/-- What is done with an interpreter. -/
inductive InterpreterAction
  | create (capacity : Option Nat) (denylist : Option (List String))
      (base : Option (List (String × Recipe)))
  | run (source : String) (mode : Mode) (manner : Manner) (scope : Option String)
      (context : List (String × Recipe))
  | compile (function source : String) (params : List String) (mode : Mode)
  | isCached (source : String) (params : List String) (mode : Mode)
  | statistics
  | clearCache
  /-- Finds the cells a text refers to, and subscribes a callback to them if asked. -/
  | resolve (source scope : String) (subscribe : Option (String × String))
  | parseState (scope text : String)
  deriving Inhabited

/-- What is done with a cache of its own. -/
inductive CacheAction
  | insert (source : String) (params : List String) (mode : Mode)
  | get (source : String) (params : List String) (mode : Mode)
  | contains (source : String) (params : List String) (mode : Mode)
  | clear
  deriving Inhabited

/-- What is done at once. -/
inductive Action
  | bind (name : String) (value : Recipe)
  | newCell (name : String) (value : Recipe) (scheduler : SchedulerName)
  | drop (name : String)
  | reveal (name : String)
  | coerce (name : String)
  | onCell (name : String) (action : CellAction)
  | sameCell (a b : String)
  | unsubscribe (subscription : String)
  | disposeEffect (effect : String)
  | newQueue (name : String)
  | queueLength (name : String)
  | poll (stream : String)
  | dropStream (stream : String)
  | onScope (name : String) (action : ScopeAction)
  /-- Reads cells, and takes down those whose flag is set. -/
  | collect (reads : List (String × Bool)) (collector : Option String)
  | subscribeCollected (collector callback subscriptions : String)
  | onInterpreter (name : String) (action : InterpreterAction)
  /-- The interpreter that the whole program shares. -/
  | onSharedInterpreter (action : InterpreterAction)
  | callFunction (name : String) (args : List Recipe)
  | sameFunction (a b : String)
  /-- Collects cells by name, and asks whether others are among them. -/
  | cellSet (cells query : List String)
  | newCache (name : String) (capacity : Nat)
  | onCache (name : String) (action : CacheAction)
  deriving Inhabited

/-- What a host or a callback does. -/
inductive Step
  | act (action : Action)
  /-- Makes a callback that does its steps in so many of its calls. -/
  | callback (name : String) (steps : List Step) (times : Nat)
  | call (callback : String)
  /-- Calls a callback and subscribes it to cells. -/
  | effect (name callback : String) (cells : List String)
  /-- Runs the passes on a queue until there is none; without a name, on the default queue. -/
  | drain (queue : Option String)
  /-- Runs the passes that the host's executor has by now. -/
  | tick
  deriving Inhabited

end LiveMarkup
