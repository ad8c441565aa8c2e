import LiveMarkup.Builtin.Method
import LiveMarkup.Store.Cell

/-!
# Members

Reading, writing and calling members of values.  A cell answers `value`, `previousValue` and
`hasPreviousValue` itself and passes everything else on to what it holds.  Writing through a cell
notifies, and so does writing an object's property that holds a cell.

## Main definitions

* `getMember`, `setMember` — reading and writing.
* `callMember` — calling, with `none` for a nullish optional call.
-/

namespace LiveMarkup.Eval

/-- Reads a member of a value that is not a cell. -/
def plainMember (s : Store) (target : Value) (key : String) : Except EvalError Value :=
  match target.nullishName? with
  | some base => .error (.nullishRead base key)
  | none =>
    match target with
    | .function f => .ok (if key = "name" then .string f.name else .undefined)
    | v => .ok (s.ownProperty v key)

/-- Reads a member. -/
def getMember (s : Store) (target : Value) (key : String) : Except EvalError Value :=
  match target with
  | .cell c =>
    match key with
    | "value" => .ok (s.held c)
    | "previousValue" => .ok ((s.cellState c).previous.getD .undefined)
    | "hasPreviousValue" => .ok (.bool (s.cellState c).previous.isSome)
    | _ => plainMember s (s.resolve target) key
  | v => plainMember s v key

/-- The failure that a refused write on a value gives. -/
def refusal (s : Store) (error : PropertyError) (key : String) (on : Value) : EvalError :=
  match error with
  | .notWritable _ typeName => .type (.cannotCreate key typeName (s.display on))
  | error => .type (.arrayBounds error)

/-- Writes a property in place, in a given way. -/
def tryWrite (s : Store) (key : String) (on : Value) (write : Except PropertyError Store) :
    Outcome Unit :=
  match write with
  | .ok s => (s, .ok ())
  | .error error => (s, .error (refusal s error key on))

/-- Writes a member. -/
def setMember (s : Store) (target : Value) (key : String) (v : Value) : Outcome Unit :=
  match target.nullishName? with
  | some base => (s, .error (.nullishWrite base key))
  | none =>
    match target with
    | .cell c =>
      if key = "value" then ((s.setCell c (s.unwrap v)).1, .ok ())
      else
        match (s.held c).nullishName? with
        | some base => (s, .error (.nullishWrite base key))
        | none => tryWrite s key (s.held c) (s.setCellProperty c key v)
    | .object r =>
      match (s.properties r).find? key with
      | some (.cell c) => ((s.setCell c (s.unwrap v)).1, .ok ())
      | _ => tryWrite s key target (s.setProperty target key v)
    | target => tryWrite s key target (s.setProperty target key v)

/-- The own property of an object that a call would use. -/
def ownMember? (s : Store) (held : Value) (name : String) : Option Value :=
  match held with
  | .object r => (s.properties r).find? name
  | _ => none

/-- Requests a pass of the cell through which an array was changed. -/
def afterMethod (s : Store) (receiver held : Value) (name : String) : Store :=
  match receiver, held with
  | .cell c, .array _ => if Store.mutatesArray name then s.trigger c else s
  | _, _ => s

/-- Calls a builtin method of what a receiver holds. -/
def callBuiltinMember (s : Store) (receiver : Value) (name : String) (args : List Value)
    (optional : Bool) : Outcome (Option Value) :=
  let held := s.unwrap receiver
  match s.callBuiltin held name args with
  | some (s, .ok v) => (afterMethod s receiver held name, .ok (some v))
  | some (s, .error e) => (s, .error e)
  | none =>
    if optional then (s, .ok none)
    else (s, .error (.notCallable (s.typeName held ++ "." ++ name)))

/-- Calls a function and gives its result as the result of a call. -/
def callMemberFunction (s : Store) (f : Function) (args : List Value) : Outcome (Option Value) :=
  match s.callFunction f args with
  | (s, .ok v) => (s, .ok (some v))
  | (s, .error e) => (s, .error e)

/-- Calls a member: a function that is a property of an object, else a builtin method.  The result
is `none` if the call is optional and there is nothing to call. -/
def callMember (s : Store) (receiver : Value) (name : String) (args : List Value)
    (optional : Bool) : Outcome (Option Value) :=
  let held := s.unwrap receiver
  match held.nullishName? with
  | some base => (s, .error (.nullishRead base name))
  | none =>
    match ownMember? s held name with
    | none => callBuiltinMember s receiver name args optional
    | some member =>
      match s.unwrap member with
      | .function f => callMemberFunction s f args
      | member =>
        if optional && member.isNullish then (s, .ok none)
        else (s, .error (.notCallable name))

end LiveMarkup.Eval
