import LiveMarkup.Eval.Evaluator
import LiveMarkup.Proofs.CheckedStore

/-!
# Evaluation with checked slots and positions

A second evaluator, which walks a tree as the first does.  Reading or filling a slot fails if there
is none with that number, and every step on the store is the one with checked positions.

## Main definitions

* `Checked`, `free`, `ofOption` — computations on a frame that can fail in this way.
* `readSlot?`, `fillSlot?`, `writePlace?`, `attempt?` — the steps that can.
* `evalExpr?`, `execStmt?`, `Code.call?` — expressions, statements and functions.
-/

namespace LiveMarkup.Eval

open Syntax

variable {α β : Type}

/-! ### Computations -/

/-- A computation on a frame that fails at a slot or a position that is not there. -/
abbrev Checked := ReaderT (List Entity) (ExceptT Interrupt (StateT Frame Option))

/-- A computation that uses no slots and no positions. -/
def free (k : Evaluation α) : Checked α :=
  fun held => ExceptT.mk fun frame => some ((k held).run.run frame)

/-- The result if there is one; fails if there is none. -/
def ofOption (result : Option α) : Checked α :=
  fun _ => ExceptT.mk fun frame => result.map fun x => (.ok x, frame)

/-- Computes while something is held, and then lets it go. -/
def holding? [Referring α] (es : List Entity) (c : Checked α) : Checked α :=
  fun held => ExceptT.mk fun frame => do
    let (outcome, frame) ← (c (es ++ held)).run.run frame
    return (outcome, frame.letGo (Referring.entities outcome ++ held) es)

/-- Computes while something is held, and lets it go if there is no result. -/
def keeping? (es : List Entity) (c : Checked α) : Checked α :=
  fun held => ExceptT.mk fun frame => do
    match ← (c (es ++ held)).run.run frame with
    | (.ok x, frame) => return (.ok x, frame)
    | (.error i, frame) => return (.error i, frame.letGo (Referring.entities i ++ held) es)

/-- Does something to the store that may fail. -/
def attempt? (f : Store → Option (Outcome α)) : Checked α := do
  let frame ← get
  let (store, result) ← ofOption (f frame.store)
  set { frame with store }
  free (ofExcept result)

/-! ### Slots -/

/-- Puts a value into a slot; fails if there is none. -/
def Frame.setSlot? (frame : Frame) (i : Nat) (v : Value) : Option Frame :=
  if i < frame.slots.size then some (frame.setSlot i v) else none

/-- Writes a slot; a parameter that is bound to a cell is written through. -/
def Frame.writeSlot? (frame : Frame) (i : Nat) (v : Value) : Option Frame :=
  if i < frame.params then do
    match ← frame.slots[i]? with
    | .cell c => return { frame with store := (frame.store.setCell c (frame.store.unwrap v)).1 }
    | _ => frame.setSlot? i v
  else frame.setSlot? i v

/-- Reads a slot. -/
def readSlot? (i : Nat) : Checked Value := do ofOption (← get).slots[i]?

/-- Makes a change of the frame that can fail. -/
def modify? (change : Frame → Option Frame) : Checked Unit := do
  set (← ofOption (change (← get)))

/-- Makes a change, and lets go of what it has left without a reference. -/
def replacing? (change : Checked Unit) : Checked Unit := do
  let before ← get
  change
  free (letGo (before.lost (← get)))

/-- Fills a slot. -/
def fillSlot? (i : Nat) (v : Value) : Checked Unit :=
  replacing? (modify? fun frame => frame.setSlot? i v)

/-! ### Places and calls -/

/-- The value at a place. -/
def readPlace? : Place → Checked Value
  | .slot i => readSlot? i
  | place => free (readPlace place)

/-- Writes a place. -/
def writePlace? (place : Place) (v : Value) : Checked Unit :=
  replacing? <|
    match place with
    | .slot i => modify? fun frame => frame.writeSlot? i v
    | .unbound name => free (fail (.notDefined name))
    | .property object key => attempt? fun s => setMember? s object key v

/-- Calls a member. -/
def callMemberOf? (receiver : Value) (name : String) (args : List Value) (optional : Bool) :
    Checked Value := do
  match ← attempt? fun s => callMember? s receiver name args optional with
  | some v => return v
  | none => throw .shortCircuit

/-- Calls a value that is not a member. -/
def callValue? (callee : Expr) (f : Value) (args : List Value) : Checked Value :=
  match f with
  | .function f => attempt? fun s => s.callFunction? f args
  | _ => free (fail (.notCallable (calleeName callee)))

/-! ### Expressions -/

mutual

/-- Evaluates an expression. -/
def evalExpr? : Expr → Checked Value
  | .literal l => return l.value
  | .array items => do
    let items ← evalList? [] items
    free (act fun s => s.newArrayValue items)
  | .object properties => do
    let properties ← evalProperties? .empty properties
    free <| act fun s =>
      let (s, r) := s.newObject properties
      (s, .object r)
  | .param slot _ => readSlot? slot
  | .declared slot _ => readSlot? slot
  | .global g => return globalValue g
  | .unbound name => free (fail (.notDefined name))
  | .member object property optional => do
    let target ← evalExpr? object
    holding? target.entity?.toList do
      free (checkLink optional target)
      free (memberOf target property)
  | .index object key optional => do
    let target ← evalExpr? object
    holding? target.entity?.toList do
      free (checkLink optional target)
      let key ← evalExpr? key
      let key ← free (askOf key Store.propertyKey)
      free (memberOf target key)
  | .call callee args optional => do
    match evalReceiver? callee with
    | some receiver =>
      let (receiver, name) ← receiver
      holding? receiver.entity?.toList do
        let args ← evalList? [] args
        holding? (references args) (callMemberOf? receiver name args optional)
    | none =>
      let f ← evalExpr? callee
      let f ← free (askOf f Store.unwrap)
      holding? f.entity?.toList do
        if optional && f.isNullish then throw .shortCircuit
        let args ← evalList? [] args
        holding? (references args) (callValue? callee f args)
  | .optionalChain chain => do
    tryCatch (evalExpr? chain) fun
      | .shortCircuit => return .undefined
      | interrupt => throw interrupt
  | .unary op operand => do
    if isUnboundTypeOf op operand then return .string "undefined"
    let v ← evalExpr? operand
    free (askOf v fun s v => unary s op v)
  | .binary op left right => do
    let left ← evalExpr? left
    holding? left.entity?.toList do
      let right ← evalExpr? right
      free (askOf right fun s right => binary s op left right)
  | .logical op left right => do
    let left ← evalExpr? left
    if ← free (ask fun s => stopsAt s op left) then return left
    holding? left.entity?.toList (evalExpr? right)
  | .conditional test consequent alternate => do
    let test ← evalExpr? test
    if ← free (askOf test Store.isTruthy) then evalExpr? consequent else evalExpr? alternate
  | .assign op target value => do
    let place ← evalPlace? target
    let v ← keeping? place.entities <|
      match op with
      | .assign => evalExpr? value
      | .compound op => do
        let current ← readPlace? place
        holding? current.entity?.toList do
          let operand ← evalExpr? value
          free (askOf operand fun s operand => binary s op current operand)
    keeping? v.entity?.toList (holding? place.entities (writePlace? place v))
    return v
  | .update op result target => do
    let place ← evalPlace? target
    let old ← keeping? place.entities do
      let current ← readPlace? place
      free (askOf current Store.toNumber)
    holding? place.entities (writePlace? place (.number (updated op old)))
    return .number (UpdateResult.choose result old (updated op old))

/-- Evaluates expressions from left to right, after those that are `done`. -/
def evalList? (done : List Value) : List Expr → Checked (List Value)
  | [] => return done
  | e :: rest => do
    let v ← keeping? (references done) (evalExpr? e)
    evalList? (done ++ [v]) rest

/-- Evaluates the properties of an object literal from left to right, after those that are
`done`. -/
def evalProperties? (done : Bindings Value) : List (String × Expr) → Checked (Bindings Value)
  | [] => return done
  | (key, e) :: rest => do
    let v ← keeping? (references done.values) (evalExpr? e)
    let next := done.insert key v
    keeping? (references next.values) (free (letGo (references (done.find? key).toList)))
    evalProperties? next rest

/-- Finds the place that an assignment target stands for. -/
def evalPlace? : Expr → Checked Place
  | .param slot _ => return .slot slot
  | .declared slot _ => return .slot slot
  | .unbound name => return .unbound name
  | .member object property _ => return .property (← evalExpr? object) property
  | .index object key _ => do
    let object ← evalExpr? object
    let key ← keeping? object.entity?.toList do
      let key ← evalExpr? key
      free (askOf key Store.propertyKey)
    return .property object key
  | _ => free (fail (.type .invalidTarget))

/-- Evaluates the receiver of a member call and the name of the member; nothing for other calls. -/
def evalReceiver? : Expr → Option (Checked (Value × String))
  | .member object property optional => some do
    let receiver ← evalExpr? object
    keeping? receiver.entity?.toList (free (checkLink optional receiver))
    return (receiver, property)
  | .index object key optional => some do
    let receiver ← evalExpr? object
    let name ← keeping? receiver.entity?.toList do
      free (checkLink optional receiver)
      let key ← evalExpr? key
      free (askOf key Store.propertyKey)
    return (receiver, name)
  | _ => none

end

/-! ### Statements and functions -/

/-- Fills the slots of a declaration. -/
def declareAll? : List (Nat × Option Expr) → Checked Unit
  | [] => return ()
  | (slot, init) :: rest => do
    let v ← match init with
      | some e => evalExpr? e
      | none => pure .undefined
    fillSlot? slot v
    declareAll? rest

mutual

/-- Executes a statement. -/
def execStmt? : Stmt → Checked Unit
  | .empty => return ()
  | .expression e => do
    let v ← evalExpr? e
    free (letGo v.entity?.toList)
  | .block statements => execList? statements
  | .declare declarators => declareAll? declarators
  | .conditional test consequent alternate => do
    let test ← evalExpr? test
    if ← free (askOf test Store.isTruthy) then execStmt? consequent else execOption? alternate
  | .returns value => do
    let v ← match value with
      | some e => evalExpr? e
      | none => pure .undefined
    throw (.returned v)

/-- Executes statements one after another. -/
def execList? : List Stmt → Checked Unit
  | [] => return ()
  | s :: rest => do
    execStmt? s
    execList? rest

/-- Executes a statement if there is one. -/
def execOption? : Option Stmt → Checked Unit
  | none => return ()
  | some s => execStmt? s

end

/-- Evaluates what a function says to do. -/
def evalBody? : Body → Checked Value
  | .expression e => evalExpr? e
  | .statements statements => do
    execList? statements
    return .undefined

/-- Calls a function; fails if a slot or a position is not there. -/
def Code.call? (code : Code) (args : List Value) (store : Store) : Option (Outcome Value) := do
  let held := references args
  let (outcome, frame) ← ((evalBody? code.body) held).run.run (code.frame args store)
  let kept := Referring.entities outcome ++ held
  return (frame.store.letGo kept (references frame.slots.toList), finished outcome)

end LiveMarkup.Eval
