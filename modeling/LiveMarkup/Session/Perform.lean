import LiveMarkup.Interpreter.Dependencies
import LiveMarkup.Session
import LiveMarkup.Store.Contents

/-!
# Actions

What every action does to a session, and its report.

## Main definitions

* `Session.performCell`, `Session.performScope`, `Session.performInterpreter`,
  `Session.performCache` — actions on one thing.
* `Session.perform` — every action.
-/

namespace LiveMarkup

open Syntax

/-- What an action gives. -/
abbrev Performed := Session × Report

namespace Session

/-- Makes a described value. -/
def make (s : Session) (recipe : Recipe) : Session × Value :=
  let (store, v) := recipe.build s.values s.store
  ({ s with store }, v)

/-- Makes described values. -/
def makeAll (s : Session) (recipes : List Recipe) : Session × List Value :=
  let (store, vs) := Recipe.buildItems s.values s.store recipes
  ({ s with store }, vs)

/-- Makes described values under names. -/
def makeEntries (s : Session) (entries : List (String × Recipe)) :
    Session × List (String × Value) :=
  let (store, values) := Recipe.buildEntries s.values s.store entries
  ({ s with store }, values)

/-- Makes a described context. -/
def makeContext (s : Session) (entries : List (String × Recipe)) : Session × Context :=
  let (store, context) := Recipe.buildContext s.values s.store entries
  ({ s with store }, context)

/-- Changes the store. -/
def onStore (s : Session) (f : Store → Store) : Session := { s with store := f s.store }

/-- The report that shows a value. -/
def showing (s : Session) (v : Value) : Performed := (s, .value (s.store.snapshot v))

/-! ### Cells -/

/-- The store after a property write that may be refused. -/
def written (s : Store) (target : Value) (key : String) (v : Value) : Store :=
  match s.setProperty target key v with
  | .ok s => s
  | .error _ => s

/-- The store after an element is added to a value, if it is an array. -/
def pushed (s : Store) (target v : Value) : Store :=
  match target with
  | .array r => (s.push r [v]).1
  | _ => s

/-- Edits the value that a cell holds; gives the value to hold from then on. -/
def applyEdit (s : Session) (current : Value) : Edit → Session × Value
  | .keep => (s, current)
  | .replace recipe => s.make recipe
  | .assign key recipe =>
    let (s, v) := s.make recipe
    (s.onStore fun store => written store current key v, current)
  | .push recipe =>
    let (s, v) := s.make recipe
    (s.onStore fun store => pushed store current v, current)
  | .assignWithin outer key recipe =>
    let (s, v) := s.make recipe
    (s.onStore fun store => written store (store.property current outer) key v, current)

/-- What follows an edit. -/
def afterEdit (s : Store) (c : CellRef) (current next : Value) : Option Bool → Store
  | none => s.update c current next
  | some flag => s.maybeUpdate c current next flag

/-- Edits what a cell holds. -/
def performEdit (s : Session) (c : CellRef) (edit : Edit) (flag : Option Bool) : Performed :=
  let current := s.store.held c
  let (s, next) := s.applyEdit current edit
  let s := s.onStore fun store => afterEdit store c current next flag
  s.showing (s.store.held c)

/-- Writes a property of what a cell holds. -/
def performWrite (s : Session) (c : CellRef) (key : String) (recipe : Recipe)
    (report : Option PropertyError → Report) : Performed :=
  let (s, v) := s.make recipe
  match s.store.setCellProperty c key v with
  | .ok store => ({ s with store }, report none)
  | .error e => (s, report (some e))

/-- The report that a name does not stand for what a step works with. -/
def unknown (s : Session) (name : String) : Performed := (s, .refused (.unknown name))

/-- Subscribes a callback to a cell and keeps the subscription. -/
def performSubscribe (s : Session) (c : CellRef) (callback subscription : String) : Performed :=
  match s.callbackNames.find? callback with
  | some k =>
    let store := s.store.subscribe c k
    let made : Subscription := { cell := c, callback := k }
    ({ s with store, subscriptions := s.subscriptions.insert subscription made },
      .count (store.subscriberCount c))
  | none => s.unknown callback

/-- Makes a stream of the passes of a cell; a stream of that name before it ends. -/
def performListen (s : Session) (c : CellRef) (stream : String) : Performed :=
  let s := s.dropStream stream
  let (store, r) := s.store.listen c
  ({ s with store, streams := s.streams.insert stream r }, .done)

/-- Does something with a cell. -/
def performCell (s : Session) (c : CellRef) : CellAction → Performed
  | .get => s.showing (s.store.held c)
  | .display => (s, .text (s.store.display (.cell c)))
  | .set recipe =>
    let (s, v) := s.make recipe
    let (store, changed) := s.store.setCell c v
    ({ s with store }, .truth changed)
  | .previous => (s, .previous ((s.store.cellState c).previous.map s.store.snapshot))
  | .history =>
    (s, .history (s.store.snapshot (s.store.held c))
      ((s.store.cellState c).previous.map s.store.snapshot))
  | .items => (s, .values ((s.store.heldItems c).map s.store.snapshot))
  | .trigger =>
    let s := s.onStore fun store => store.trigger c
    (s, .truth (s.store.cellState c).scheduled)
  | .status => (s, .status (s.store.cellState c).scheduled (s.store.subscriberCount c))
  | .getProperty key => s.showing (s.store.property (s.store.held c) key)
  | .setProperty key recipe => s.performWrite c key recipe fun error => .truth error.isNone
  | .trySetProperty key recipe =>
    s.performWrite c key recipe fun error =>
      match error with
      | none => .done
      | some e => .refused (.property e)
  | .edit edit flag => s.performEdit c edit flag
  | .subscribe callback subscription => s.performSubscribe c callback subscription
  | .isSubscribed callback =>
    (s, .truth ((s.callbackNames.find? callback).any fun k => s.store.isSubscribed c k))
  | .unsubscribeAll =>
    let s := s.onStore fun store => store.unsubscribeAll c
    (s, .count (s.store.subscriberCount c))
  | .changes stream => s.performListen c stream

/-! ### Scopes -/

/-- Binds a scope to a name and shows it. -/
def bindScope (s : Session) (name : String) (scope : Scope) : Performed :=
  let s := { s with scopes := s.scopes.insert name scope }
  (s, .scope (s.scopeInfo scope))

/-- A scope for the properties of a value; one without cells if it is no object. -/
def scopeOf (s : Store) : Value → Store × Scope
  | .object r => Scope.ofObject s r
  | _ => (s, .empty)

/-- Looks up a variable of a scope. -/
def performLookup (s : Session) (scope : Scope) (variableName : String)
    (bindAs : Option String) : Performed :=
  match scope.find? variableName with
  | none => (s, .found none)
  | some c =>
    let s :=
      match bindAs with
      | some name => s.bindValue name (.cell c)
      | none => s
    (s, .found (some (s.store.snapshot (s.store.held c))))

/-- Binds a variable of a scope to a cell. -/
def performInsert (s : Session) (name variableName cell : String) : Performed :=
  match s.cell? cell with
  | none => s.unknown cell
  | some c =>
    let scope := s.scope name
    ({ s with scopes := s.scopes.insert name (scope.insert variableName c) },
      .replacedCell ((scope.find? variableName).map s.cellName))

/-- Shows named values. -/
def showEntries (s : Store) (entries : List (String × Value)) : List (String × Snapshot) :=
  entries.map fun e => (e.1, s.snapshot e.2)

/-- Does something with a scope. -/
def performScope (s : Session) (name : String) : ScopeAction → Performed
  | .create entries =>
    let (s, values) := s.makeEntries entries
    let (store, scope) := Scope.build s.store values
    { s with store }.bindScope name scope
  | .ofObject recipe =>
    let (s, v) := s.make recipe
    let (store, scope) := scopeOf s.store v
    { s with store }.bindScope name scope
  | .child parent => s.bindScope name (s.scope parent)
  | .describe => (s, .scope (s.scopeInfo (s.scope name)))
  | .insert variableName cell => s.performInsert name variableName cell
  | .get variableName bindAs => s.performLookup (s.scope name) variableName bindAs
  | .context =>
    let (store, context) := (s.scope name).context s.store
    ({ s with store }, .bindings (showEntries store context.entries))
  | .dispose => (s.onStore fun store => (s.scope name).dispose store, .done)

/-! ### Interpreters -/

/-- A settled interpreter, or what is wrong with its settings. -/
def newInterpreter (capacity : Option Nat) (denylist : Option (List String)) :
    Except OptionsError Interpreter :=
  if capacity.isNone && denylist.isNone then .ok {}
  else
    Interpreter.withOptions
      { cacheCapacity := capacity.getD 1000, denylist := denylist.getD defaultDenylist }

/-- The context in which a text runs: that of a scope, if one is named, with further values. -/
def runContext (s : Session) (scope : Option String) (context : List (String × Recipe)) :
    Session × Context :=
  match scope with
  | none => s.makeContext context
  | some name =>
    let (store, cells) := (s.scope name).context s.store
    let (s, values) := { s with store }.makeContext context
    (s, cells.merge values)

/-- Subscribes a callback to cells and keeps the subscriptions. -/
def subscribeAll (s : Session) (cells : List CellRef) (callback name : String) : Session × Nat :=
  match s.callbackNames.find? callback with
  | some k =>
    let (store, subscriptions) := s.store.subscribeEach cells k
    ({ s with store }.bindSubscriptions name subscriptions, subscriptions.length)
  | none => (s, 0)

/-- What an action on an interpreter gives: the interpreter comes out beside the session. -/
abbrev Interpreted := Session × Interpreter × Report

/-- Makes an interpreter in place of another. -/
def performCreate (s : Session) (old : Interpreter) (capacity : Option Nat)
    (denylist : Option (List String)) (base : Option (List (String × Recipe))) : Interpreted :=
  match newInterpreter capacity denylist with
  | .error e => (s, old, .refused (.options e))
  | .ok i =>
    let (s, base) := s.makeContext (base.getD [])
    ({ s with serials := s.serials + 1 }, { i with base, serial := s.serials }, .done)

/-- Lets go of the result of a computation, and then of what was given to it. -/
def spend {α : Type} (s : Session) (given : List Value) (result : Except α Value) : Session :=
  s.onStore fun store =>
    (store.letGo (references given) (references result.toOption.toList)).letGo []
      (references given)

/-- Runs a text. -/
def performRun (s : Session) (i : Interpreter) (source : String) (mode : Mode) (manner : Manner)
    (scope : Option String) (context : List (String × Recipe)) : Interpreted :=
  let (s, context) := s.runContext scope context
  let (i, store, result) := i.runIn s.store source context mode manner
  ({ s with store }.spend context.values result, i,
    match result with
    | .ok v => .value (store.snapshot v)
    | .error e => .refused (.interpreter e))

/-- Compiles a text and keeps the function under a name. -/
def performCompile (s : Session) (i : Interpreter) (function source : String)
    (params : List String) (mode : Mode) : Interpreted :=
  match i.compile source params mode with
  | (i, .ok f) =>
    ({ s with functions := s.functions.insert function f }, i, .compiled f.code.params f.code.mode)
  | (i, .error e) => (s, i, .refused (.interpreter e))

/-- Finds the cells that a text refers to. -/
def performResolve (s : Session) (i : Interpreter) (source scope : String)
    (subscribe : Option (String × String)) : Interpreted :=
  let (i, store, found) := i.dependencies s.store source (s.scope scope)
  let s := { s with store }
  match subscribe with
  | none => (s, i, .resolved (s.cellNames found.cells) none)
  | some (callback, name) =>
    let (s, n) := s.subscribeAll found.cells callback name
    (s, i, .resolved (s.cellNames found.cells) (some n))

/-- Makes the scope that a state literal describes. -/
def performParseState (s : Session) (i : Interpreter) (scope text : String) : Interpreted :=
  match i.parseState s.store text with
  | (i, store, .ok made) =>
    let (s, report) := { s with store }.bindScope scope made
    (s, i, report)
  | (i, store, .error e) => ({ s with store }, i, .refused (.stateLiteral e))

/-- Does something with an interpreter. -/
def performInterpreter (s : Session) (i : Interpreter) : InterpreterAction → Interpreted
  | .create capacity denylist base => s.performCreate i capacity denylist base
  | .run source mode manner scope context => s.performRun i source mode manner scope context
  | .compile function source params mode => s.performCompile i function source params mode
  | .isCached source params mode => (s, i, .truth (i.isCached source params mode))
  | .statistics => (s, i, .statistics i.counts i.cache.size i.cache.capacity)
  | .clearCache => (s, i.clearCache, .done)
  | .resolve source scope subscribe => s.performResolve i source scope subscribe
  | .parseState scope text => s.performParseState i scope text

/-! ### Functions, collectors and caches -/

/-- Calls a compiled function. -/
def performCall (s : Session) (name : String) (args : List Recipe) : Performed :=
  match s.functions.find? name with
  | none => s.unknown name
  | some f =>
    let (s, args) := s.makeAll args
    let (store, result) := f.code.call args s.store
    ({ s with store }.spend args result,
      match result with
      | .ok v => .value (store.snapshot v)
      | .error e => .refused (.evaluation e))

/-- Whether two names stand for the very same compiled function. -/
def sameFunction (s : Session) (a b : String) : Bool :=
  match s.functions.find? a, s.functions.find? b with
  | some f, some g => f.origin == g.origin
  | _, _ => false

/-- Reads cells one after another, and takes down those whose flag is set. -/
def readAll (s : Session) (set : CellSet) : List (String × Bool) → CellSet × List Value
  | [] => (set, [])
  | (name, tracked) :: rest =>
    match s.cell? name with
    | none => s.readAll set rest
    | some c =>
      let (set, v) := if tracked then s.store.readTracked set c else (set, s.store.held c)
      let (set, vs) := s.readAll set rest
      (set, v :: vs)

/-- Reads cells in a collector. -/
def performCollect (s : Session) (reads : List (String × Bool)) (collector : Option String) :
    Performed :=
  let (set, values) := s.readAll ((collector.map s.collector).getD {}) reads
  let s :=
    match collector with
    | some name => { s with collectors := s.collectors.insert name set }
    | none => s
  (s, .collected (values.map s.store.snapshot) (s.cellNames set.cells))

/-- Adds cells to a set one after another; tells of each whether it was new. -/
def insertAll (set : CellSet) : List CellRef → CellSet × List Bool
  | [] => (set, [])
  | c :: rest =>
    let (set', added) := insertAll (set.insert c) rest
    (set', (!set.contains c) :: added)

/-- Collects cells by name. -/
def performCellSet (s : Session) (cells query : List String) : Performed :=
  let (set, added) := insertAll {} (s.cellsNamed cells)
  (s, .cellSet added ((s.cellsNamed query).map set.contains) (s.cellNames set.cells))

/-- Does something with a cache. -/
def applyCacheAction (cache : Recency CompileKey Eval.Code) :
    CacheAction → Recency CompileKey Eval.Code × Except SyntaxError CacheAnswer
  | .insert source params mode =>
    match Eval.Code.compile source params mode with
    | .ok code =>
      let (cache, evicted) := cache.insert (.of source params mode) code
      (cache, .ok (.evicted evicted))
    | .error e => (cache, .error e)
  | .get source params mode =>
    let (cache, found) := cache.get (.of source params mode)
    (cache, .ok (.truth found.isSome))
  | .contains source params mode => (cache, .ok (.truth (cache.contains (.of source params mode))))
  | .clear => (cache.clear, .ok (.truth true))

/-- Does something with a cache and keeps it under its name. -/
def performCache (s : Session) (name : String) (action : CacheAction) : Performed :=
  let (cache, answer) := applyCacheAction ((s.caches.find? name).getD { capacity := 0 }) action
  ({ s with caches := s.caches.insert name cache },
    match answer with
    | .ok answer => .cache answer cache.keys cache.capacity
    | .error e => .refused (.syntaxError e))

/-! ### Everything -/

/-- Where a new cell has its passes run. -/
def schedulerNamed (s : Session) : SchedulerName → Scheduler
  | .standard => .queue defaultQueue
  | .spawner => .spawner
  | .queue name => .queue (s.queue (some name))

/-- Makes a cell and binds it. -/
def performNewCell (s : Session) (name : String) (recipe : Recipe) (scheduler : SchedulerName) :
    Performed :=
  let (s, v) := s.make recipe
  let (store, c) := s.store.newCell v (s.schedulerNamed scheduler)
  ({ s with store }.bindValue name (.cell c)).showing v

/-- Uses a subscription. -/
def performUnsubscribe (s : Session) (name : String) : Performed :=
  match s.subscriptions.find? name with
  | none => s.unknown name
  | some sub =>
    let (after, store) := sub.unsubscribe s.store
    ({ s with store, subscriptions := s.subscriptions.insert name after },
      .used sub.used after.used)

/-- Uses subscriptions one after another. -/
def unsubscribeEach (s : Store) : List Subscription → List Subscription × Store
  | [] => ([], s)
  | sub :: rest =>
    let (sub, s) := sub.unsubscribe s
    let (rest, s) := unsubscribeEach s rest
    (sub :: rest, s)

/-- Uses the subscriptions of an effect. -/
def performDispose (s : Session) (name : String) : Performed :=
  match s.effects.find? name with
  | none => s.unknown name
  | some subscriptions =>
    let (subscriptions, store) := unsubscribeEach s.store subscriptions
    ({ s with store, effects := s.effects.insert name subscriptions }, .done)

/-- Asks a stream for news. -/
def performPoll (s : Session) (stream : String) : Performed :=
  match s.streams.find? stream with
  | none => s.unknown stream
  | some r =>
    let (store, result) := s.store.poll r stream
    ({ s with store }, .polled result)

/-- Does an action. -/
def perform (s : Session) : Action → Performed
  | .bind name recipe =>
    let (s, v) := s.make recipe
    (s.bindValue name v).showing v
  | .newCell name recipe scheduler => s.performNewCell name recipe scheduler
  | .drop name => ({ s with values := s.values.erase name }, .truth (s.values.contains name))
  | .reveal name => s.showing (s.value name)
  | .coerce name => (s, .coerced (s.store.coerced (s.value name)))
  | .onCell name action =>
    match s.cell? name with
    | some c => s.performCell c action
    | none => s.unknown name
  | .sameCell a b => (s, .truth ((s.cell? a).isSome && s.cell? a == s.cell? b))
  | .unsubscribe subscription => s.performUnsubscribe subscription
  | .disposeEffect effect => s.performDispose effect
  | .newQueue name =>
    let (store, q) := s.store.newQueue
    ({ s with store, queues := s.queues.insert name q }, .done)
  | .queueLength name => (s, .backlog (s.store.queue (s.queue (some name))).length)
  | .poll stream => s.performPoll stream
  | .dropStream stream => (s.dropStream stream, .truth (s.streams.contains stream))
  | .onScope name action => s.performScope name action
  | .collect reads collector => s.performCollect reads collector
  | .subscribeCollected collector callback subscriptions =>
    let (s, n) := s.subscribeAll (s.collector collector).cells callback subscriptions
    (s, .count n)
  | .onInterpreter name action =>
    let (s, i, report) := s.performInterpreter (s.interpreter name) action
    ({ s with interpreters := s.interpreters.insert name i }, report)
  | .onSharedInterpreter action =>
    let (s, i, report) := s.performInterpreter s.shared action
    ({ s with shared := i }, report)
  | .callFunction name args => s.performCall name args
  | .sameFunction a b => (s, .truth (s.sameFunction a b))
  | .cellSet cells query => s.performCellSet cells query
  | .newCache name capacity =>
    ({ s with caches := s.caches.insert name { capacity } }, .count capacity)
  | .onCache name action => s.performCache name action

end Session

end LiveMarkup
