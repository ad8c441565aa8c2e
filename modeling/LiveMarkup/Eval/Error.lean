import LiveMarkup.Store.Property

/-!
# Failures of evaluation

What can go wrong while an expression is evaluated, with the wording.
-/

namespace LiveMarkup.Eval

/-- An operation on a value that does not allow it. -/
inductive TypeFault
  | invalidTarget
  /-- A property of something that cannot hold it, which is shown. -/
  | cannotCreate (key typeName shown : String)
  /-- A length or an index that an array cannot have. -/
  | arrayBounds (error : PropertyError)
  | invalidStringLength
  | invalidCount (shown : String)
  | fixedDigits
  | radix
  deriving DecidableEq, Repr, Inhabited

/-- The wording of a type fault. -/
def TypeFault.message : TypeFault → String
  | .invalidTarget => "invalid assignment target"
  | .cannotCreate key typeName shown =>
    "cannot create property '" ++ key ++ "' on " ++ typeName ++ " '" ++ shown ++ "'"
  | .arrayBounds error => error.message
  | .invalidStringLength => "invalid string length"
  | .invalidCount shown => "invalid count value: " ++ shown
  | .fixedDigits => "toFixed() digits argument must be between 0 and 100"
  | .radix => "toString() radix must be between 2 and 36"

/-- A failure of evaluation. -/
inductive EvalError
  /-- A name that is bound to nothing is read or written. -/
  | notDefined (name : String)
  /-- A property of nothing is read. -/
  | nullishRead (base property : String)
  /-- A property of nothing is written. -/
  | nullishWrite (base property : String)
  /-- Something that is not a function is called. -/
  | notCallable (described : String)
  | type (fault : TypeFault)
  /-- A host function fails. -/
  | native (message : String)
  deriving DecidableEq, Repr, Inhabited

/-- The wording of a failure. -/
def EvalError.message : EvalError → String
  | .notDefined name => name ++ " is not defined"
  | .nullishRead base property =>
    "cannot read properties of " ++ base ++ " (reading '" ++ property ++ "')"
  | .nullishWrite base property =>
    "cannot set properties of " ++ base ++ " (setting '" ++ property ++ "')"
  | .notCallable described => described ++ " is not a function"
  | .type fault => fault.message
  | .native message => message

/-- What an operation on the store gives: the store after it, and a result or a failure. -/
abbrev Outcome (α : Type) := Store × Except EvalError α

end LiveMarkup.Eval
