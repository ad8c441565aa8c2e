import LiveMarkup.Interpreter

/-!
# Expressions and state in markup

Markup holds expressions between braces, and the state of a unit as an object literal.

## Main definitions

* `bracedExpression?` — what stands between the braces of a text.
* `Interpreter.parseState` — the scope that a state literal describes.
-/

namespace LiveMarkup

open Text

/-- The characters between a brace at the front and one at the end; there has to be one. -/
def betweenBraces? : List Char → Option (List Char)
  | '{' :: rest =>
    match rest.reverse with
    | '}' :: c :: inner => some (c :: inner).reverse
    | _ => none
  | _ => none

/-- The expression in a text that is, but for white space around it, a pair of braces with something
between them. -/
def bracedExpression? (text : String) : Option String :=
  (betweenBraces? (trim text.toList)).map fun inner => String.ofList (trim inner)

/-- Why a text is no state literal. -/
inductive StateLiteralError
  | interpreter (error : InterpreterError)
  /-- Its value is not an object. -/
  | notAnObject (typeName : String)
  deriving Inhabited

/-- The wording of the error. -/
def StateLiteralError.message : StateLiteralError → String
  | .interpreter error => error.message
  | .notAnObject typeName => "state literal must evaluate to an object, found " ++ typeName

/-- The scope for the value of a state literal. -/
def scopeOfState (s : Store) : Value → Store × Except StateLiteralError Scope
  | .object r =>
    let (s, scope) := Scope.ofObject s r
    (s, .ok scope)
  | v => (s, .error (.notAnObject (s.typeName v)))

/-- The scope that a state literal describes, with a new cell for each property.  A blank text is a
scope without cells. -/
def Interpreter.parseState (i : Interpreter) (s : Store) (text : String) :
    Interpreter × Store × Except StateLiteralError Scope :=
  match trimmed text with
  | "" => (i, s, .ok .empty)
  | text =>
    match i.evaluate s text .empty with
    | (i, s, .ok v) => (i, scopeOfState s v)
    | (i, s, .error e) => (i, s, .error (.interpreter e))

end LiveMarkup
