import LiveMarkup.Eval.Member
import LiveMarkup.Eval.Operator
import LiveMarkup.Store.Lifetime
import LiveMarkup.Syntax.Parser

/-!
# Evaluation

Walks a syntax tree.  Every outcome carries the frame as it is then: an expression that fails leaves
the changes it made before.

A value that has been computed is held until the operation it was computed for is done, also while
the other operands are computed.  Then it is let go: the operands of one operation from the last to
the first, the arguments of a call in order.

## Main definitions

* `Frame`, `Evaluation` — the state and the computations.
* `holding`, `keeping` — computations around which values are held.
* `evalExpr`, `execStmt` — expressions and statements.
* `Code`, `Code.call` — compiled functions.
-/

namespace LiveMarkup.Eval

open Syntax

/-- The state of one call: slots for parameters, then variables, and the store. -/
structure Frame where
  slots : Array Value
  /-- The number of parameters. -/
  params : Nat
  store : Store
  deriving Inhabited

/-- How the evaluation of an expression or statement can end early. -/
inductive Interrupt
  | failed (error : EvalError)
  | returned (v : Value)
  /-- A nullish `?.` link, which ends the chain around it. -/
  | shortCircuit
  deriving Inhabited

/-- A computation on a frame.  It is told what is held around it. -/
abbrev Evaluation := ReaderT (List Entity) (ExceptT Interrupt (StateM Frame))

/-- Where an assignment writes to. -/
inductive Place
  | slot (i : Nat)
  | unbound (name : String)
  | property (object : Value) (key : String)
  deriving Inhabited

/-! ### Held values -/

/-- Results that refer to things. -/
class Referring (α : Type) where
  /-- What a result refers to. -/
  entities : α → List Entity

instance : Referring Value := ⟨fun v => v.entity?.toList⟩
instance : Referring Bool := ⟨fun _ => []⟩
instance : Referring Float := ⟨fun _ => []⟩
instance : Referring String := ⟨fun _ => []⟩
instance : Referring Unit := ⟨fun _ => []⟩

instance : Referring Interrupt where
  entities
    | .returned v => v.entity?.toList
    | _ => []

instance {ε α : Type} [Referring ε] [Referring α] : Referring (Except ε α) where
  entities
    | .ok x => Referring.entities x
    | .error e => Referring.entities e

/-- What a place refers to. -/
def Place.entities : Place → List Entity
  | .property object _ => object.entity?.toList
  | _ => []

/-- Gives up references in order, while `kept` and what the slots refer to is held. -/
def Frame.letGo (frame : Frame) (kept lost : List Entity) : Frame :=
  match lost with
  | [] => frame
  | lost =>
    { frame with store := frame.store.letGo (kept ++ references frame.slots.toList) lost }

/-- Gives up references in order. -/
def letGo (lost : List Entity) : Evaluation Unit := do
  let held ← read
  modify fun frame => frame.letGo held lost

/-- Computes while something is held, and then lets it go. -/
def holding {α : Type} [Referring α] (es : List Entity) (k : Evaluation α) : Evaluation α :=
  fun held => ExceptT.mk fun frame =>
    let (outcome, frame) := (k (es ++ held)).run.run frame
    (outcome, frame.letGo (Referring.entities outcome ++ held) es)

/-- Computes while something is held, and lets it go if there is no result. -/
def keeping {α : Type} (es : List Entity) (k : Evaluation α) : Evaluation α :=
  fun held => ExceptT.mk fun frame =>
    match (k (es ++ held)).run.run frame with
    | (.ok x, frame) => (.ok x, frame)
    | (.error i, frame) => (.error i, frame.letGo (Referring.entities i ++ held) es)

/-! ### Steps -/

/-- Fails. -/
def fail {α : Type} (error : EvalError) : Evaluation α := throw (.failed error)

/-- Gives the result, or fails. -/
def ofExcept {α : Type} (result : Except EvalError α) : Evaluation α :=
  match result with
  | .ok x => pure x
  | .error e => fail e

/-- Asks something of the store. -/
def ask {α : Type} (f : Store → α) : Evaluation α := return f (← get).store

/-- Does something to the store. -/
def act {α : Type} (f : Store → Store × α) : Evaluation α :=
  modifyGet fun frame =>
    let (store, x) := f frame.store
    (x, { frame with store })

/-- Does something to the store that may fail. -/
def attempt {α : Type} (f : Store → Outcome α) : Evaluation α := do
  ofExcept (← act f)

/-- The value in a slot. -/
def Frame.slot (frame : Frame) (i : Nat) : Value := frame.slots.getD i .undefined

/-- Puts a value into a slot. -/
def Frame.setSlot (frame : Frame) (i : Nat) (v : Value) : Frame :=
  { frame with slots := frame.slots.setIfInBounds i v }

/-- Reads a slot. -/
def readSlot (i : Nat) : Evaluation Value := return (← get).slot i

/-- Asks something of the store about a value, which is then let go. -/
def askOf {α : Type} [Referring α] (v : Value) (f : Store → Value → α) : Evaluation α :=
  holding v.entity?.toList (ask fun s => f s v)

/-- Whether a value is nullish, or a cell that holds such a value. -/
def holdsNullish (s : Store) (v : Value) : Bool := (s.unwrap v).isNullish

/-- Ends the chain if a link is optional and its target nullish. -/
def checkLink (optional : Bool) (target : Value) : Evaluation Unit := do
  if optional && (← ask fun s => holdsNullish s target) then throw .shortCircuit

/-- A member of a value. -/
def memberOf (target : Value) (key : String) : Evaluation Value := do
  ofExcept (← ask fun s => getMember s target key)

/-- Calls a member. -/
def callMemberOf (receiver : Value) (name : String) (args : List Value) (optional : Bool) :
    Evaluation Value := do
  match ← attempt fun s => callMember s receiver name args optional with
  | some v => return v
  | none => throw .shortCircuit

/-! ### Places -/

/-- The value at a place. -/
def readPlace : Place → Evaluation Value
  | .slot i => readSlot i
  | .unbound name => fail (.notDefined name)
  | .property object key => memberOf object key

/-- Writes a slot; a parameter that is bound to a cell is written through. -/
def Frame.writeSlot (frame : Frame) (i : Nat) (v : Value) : Frame :=
  match frame.slot i with
  | .cell c =>
    if i < frame.params then
      { frame with store := (frame.store.setCell c (frame.store.unwrap v)).1 }
    else frame.setSlot i v
  | _ => frame.setSlot i v

/-- What may have lost its last reference when one frame became another. -/
def Frame.lost (before after : Frame) : List Entity :=
  references before.slots.toList ++ before.store.lost after.store

/-- Makes a change, and lets go of what it has left without a reference. -/
def replacing (change : Evaluation Unit) : Evaluation Unit := do
  let before ← get
  change
  letGo (before.lost (← get))

/-- Fills a slot. -/
def fillSlot (i : Nat) (v : Value) : Evaluation Unit :=
  replacing (modify fun frame => frame.setSlot i v)

/-- Writes a place. -/
def writePlace (place : Place) (v : Value) : Evaluation Unit :=
  replacing <|
    match place with
    | .slot i => modify fun frame => frame.writeSlot i v
    | .unbound name => fail (.notDefined name)
    | .property object key => attempt fun s => setMember s object key v

/-- The value of a builtin global. -/
def globalValue : Global → Value
  | .math => .object mathObject
  | .function f => .function (.builtin f)
  | .nan => .number Number.nan
  | .infinity => .number Number.infinity

/-- How messages name what was called. -/
def calleeName : Expr → String
  | .param _ name | .declared _ name | .unbound name => name
  | .global g => g.name
  | _ => "expression"

/-- Calls a value that is not a member. -/
def callValue (callee : Expr) (f : Value) (args : List Value) : Evaluation Value :=
  match f with
  | .function f => attempt fun s => s.callFunction f args
  | _ => fail (.notCallable (calleeName callee))

/-- Whether a logical operator leaves its right operand alone. -/
def stopsAt (s : Store) (op : LogicalOp) (left : Value) : Bool :=
  match op with
  | .and => !s.isTruthy left
  | .or => s.isTruthy left
  | .nullish => !holdsNullish s left

/-- The number after an update. -/
def updated (op : UpdateOp) (x : Float) : Float :=
  match op with
  | .increment => x + 1.0
  | .decrement => x - 1.0

/-- Which of the two numbers an update gives. -/
def UpdateResult.choose (result : UpdateResult) (old new : Float) : Float :=
  match result with
  | .new => new
  | .old => old

/-- Whether `typeof` is applied to a name that is bound to nothing. -/
def isUnboundTypeOf (op : UnaryOp) (operand : Expr) : Bool :=
  match op, operand with
  | .typeOf, .unbound _ => true
  | _, _ => false

/-! ### Expressions -/

mutual

/-- Evaluates an expression. -/
def evalExpr : Expr → Evaluation Value
  | .literal l => return l.value
  | .array items => do
    let items ← evalList [] items
    act fun s => s.newArrayValue items
  | .object properties => do
    let properties ← evalProperties .empty properties
    act fun s =>
      let (s, r) := s.newObject properties
      (s, .object r)
  | .param slot _ => readSlot slot
  | .declared slot _ => readSlot slot
  | .global g => return globalValue g
  | .unbound name => fail (.notDefined name)
  | .member object property optional => do
    let target ← evalExpr object
    holding target.entity?.toList do
      checkLink optional target
      memberOf target property
  | .index object key optional => do
    let target ← evalExpr object
    holding target.entity?.toList do
      checkLink optional target
      let key ← evalExpr key
      memberOf target (← askOf key Store.propertyKey)
  | .call callee args optional => do
    match evalReceiver callee with
    | some receiver =>
      let (receiver, name) ← receiver
      holding receiver.entity?.toList do
        let args ← evalList [] args
        holding (references args) (callMemberOf receiver name args optional)
    | none =>
      let f ← evalExpr callee
      let f ← askOf f Store.unwrap
      holding f.entity?.toList do
        if optional && f.isNullish then throw .shortCircuit
        let args ← evalList [] args
        holding (references args) (callValue callee f args)
  | .optionalChain chain => do
    tryCatch (evalExpr chain) fun
      | .shortCircuit => return .undefined
      | interrupt => throw interrupt
  | .unary op operand => do
    if isUnboundTypeOf op operand then return .string "undefined"
    let v ← evalExpr operand
    askOf v fun s v => unary s op v
  | .binary op left right => do
    let left ← evalExpr left
    holding left.entity?.toList do
      let right ← evalExpr right
      askOf right fun s right => binary s op left right
  | .logical op left right => do
    let left ← evalExpr left
    if ← ask fun s => stopsAt s op left then return left
    holding left.entity?.toList (evalExpr right)
  | .conditional test consequent alternate => do
    let test ← evalExpr test
    if ← askOf test Store.isTruthy then evalExpr consequent else evalExpr alternate
  | .assign op target value => do
    let place ← evalPlace target
    let v ← keeping place.entities <|
      match op with
      | .assign => evalExpr value
      | .compound op => do
        let current ← readPlace place
        holding current.entity?.toList do
          let operand ← evalExpr value
          askOf operand fun s operand => binary s op current operand
    keeping v.entity?.toList (holding place.entities (writePlace place v))
    return v
  | .update op result target => do
    let place ← evalPlace target
    let old ← keeping place.entities do
      let current ← readPlace place
      askOf current Store.toNumber
    holding place.entities (writePlace place (.number (updated op old)))
    return .number (UpdateResult.choose result old (updated op old))

/-- Evaluates expressions from left to right, after those that are `done`. -/
def evalList (done : List Value) : List Expr → Evaluation (List Value)
  | [] => return done
  | e :: rest => do
    let v ← keeping (references done) (evalExpr e)
    evalList (done ++ [v]) rest

/-- Evaluates the properties of an object literal from left to right, after those that are
`done`. -/
def evalProperties (done : Bindings Value) :
    List (String × Expr) → Evaluation (Bindings Value)
  | [] => return done
  | (key, e) :: rest => do
    let v ← keeping (references done.values) (evalExpr e)
    let next := done.insert key v
    keeping (references next.values) (letGo (references (done.find? key).toList))
    evalProperties next rest

/-- Finds the place that an assignment target stands for. -/
def evalPlace : Expr → Evaluation Place
  | .param slot _ => return .slot slot
  | .declared slot _ => return .slot slot
  | .unbound name => return .unbound name
  | .member object property _ => return .property (← evalExpr object) property
  | .index object key _ => do
    let object ← evalExpr object
    let key ← keeping object.entity?.toList do
      let key ← evalExpr key
      askOf key Store.propertyKey
    return .property object key
  | _ => fail (.type .invalidTarget)

/-- Evaluates the receiver of a member call and the name of the member; nothing for other calls. -/
def evalReceiver : Expr → Option (Evaluation (Value × String))
  | .member object property optional => some do
    let receiver ← evalExpr object
    keeping receiver.entity?.toList (checkLink optional receiver)
    return (receiver, property)
  | .index object key optional => some do
    let receiver ← evalExpr object
    let name ← keeping receiver.entity?.toList do
      checkLink optional receiver
      let key ← evalExpr key
      askOf key Store.propertyKey
    return (receiver, name)
  | _ => none

end

/-! ### Statements -/

/-- Fills the slots of a declaration. -/
def declareAll : List (Nat × Option Expr) → Evaluation Unit
  | [] => return ()
  | (slot, init) :: rest => do
    let v ← match init with
      | some e => evalExpr e
      | none => pure .undefined
    fillSlot slot v
    declareAll rest

mutual

/-- Executes a statement. -/
def execStmt : Stmt → Evaluation Unit
  | .empty => return ()
  | .expression e => do
    let v ← evalExpr e
    letGo v.entity?.toList
  | .block statements => execList statements
  | .declare declarators => declareAll declarators
  | .conditional test consequent alternate => do
    let test ← evalExpr test
    if ← askOf test Store.isTruthy then execStmt consequent else execOption alternate
  | .returns value => do
    let v ← match value with
      | some e => evalExpr e
      | none => pure .undefined
    throw (.returned v)

/-- Executes statements one after another. -/
def execList : List Stmt → Evaluation Unit
  | [] => return ()
  | s :: rest => do
    execStmt s
    execList rest

/-- Executes a statement if there is one. -/
def execOption : Option Stmt → Evaluation Unit
  | none => return ()
  | some s => execStmt s

end

/-! ### Functions -/

/-- A compiled function: what to do, and for which parameters. -/
structure Code where
  mode : Mode
  params : List String
  body : Body
  slotCount : Nat
  deriving Inhabited

/-- Compiles a text. -/
def Code.compile (source : String) (params : List String) (mode : Mode) :
    Except SyntaxError Code := do
  let program ← parse source params mode
  return { mode, params, body := program.body, slotCount := program.slotCount }

/-- The frame in which a function starts: arguments by position, then empty slots. -/
def Code.frame (code : Code) (args : List Value) (store : Store) : Frame where
  slots := (resized (args.take code.params.length) code.slotCount).toArray
  params := code.params.length
  store := store

/-- Evaluates what a function says to do. -/
def evalBody : Body → Evaluation Value
  | .expression e => evalExpr e
  | .statements statements => do
    execList statements
    return .undefined

/-- The result of a function, from how its evaluation ended. -/
def finished : Except Interrupt Value → Except EvalError Value
  | .ok v | .error (.returned v) => .ok v
  | .error .shortCircuit => .ok .undefined
  | .error (.failed e) => .error e

/-- Calls a function.  Missing arguments are `undefined`, and there may be too many.  The arguments
are held by the caller; at the end the slots are let go in order. -/
def Code.call (code : Code) (args : List Value) (store : Store) : Outcome Value :=
  let held := references args
  let (outcome, frame) := ((evalBody code.body) held).run.run (code.frame args store)
  let kept := Referring.entities outcome ++ held
  (frame.store.letGo kept (references frame.slots.toList), finished outcome)

end LiveMarkup.Eval
