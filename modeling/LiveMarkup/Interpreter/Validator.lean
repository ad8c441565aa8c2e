import LiveMarkup.Syntax.Name
import LiveMarkup.Text.Blank
import LiveMarkup.Text.Quoted
import LiveMarkup.Text.Words

/-!
# Denied calls

Before a text is compiled it is searched for calls of denied names.  The search is textual: a denied
name at the start of the text, or after a character that is neither a word character nor a dollar
sign, with an opening parenthesis after it, is refused wherever it stands, in a string literal too.

## Main definitions

* `Validator`, `Validator.ofNames` — the denied names; each must be a name of the language.
* `Validator.firstDenied?` — the name of the leftmost denied call.
* `Validator.check` — refuses a text with a denied call.
-/

namespace LiveMarkup

open Text Syntax

/-- A call that was refused. -/
structure DeniedCall where
  /-- The text that has the call. -/
  text : String
  /-- The name that is called. -/
  name : String
  deriving DecidableEq, Repr, Inhabited

/-- The wording of a refusal. -/
def DeniedCall.message (call : DeniedCall) : String :=
  "code blocked by validator: call to " ++ ticked call.name ++ " in " ++ ticked call.text

/-- An entry that cannot be denied, since it is no name. -/
structure InvalidName where
  entry : String
  deriving DecidableEq, Repr, Inhabited

/-- The wording of the error. -/
def InvalidName.message (e : InvalidName) : String :=
  "denylist entry " ++ ticked e.entry ++ " is not an identifier"

/-- Names that may not be called. -/
structure Validator where
  names : List String
  deriving DecidableEq, Repr, Inhabited

/-- The names that are denied unless others are given. -/
def defaultDenylist : List String := [
  "eval", "Function", "setTimeout", "setInterval", "setImmediate", "queueMicrotask",
  "requestAnimationFrame"]

/-- Whether the characters begin, perhaps after white space, with an opening parenthesis. -/
def opensCall (cs : List Char) : Bool := (trimStart cs).head? == some '('

/-- Whether the characters begin with a call of `name`. -/
def beginsWithCall (cs : List Char) (name : String) : Bool :=
  name.toList.isPrefixOf cs && opensCall (cs.drop name.toList.length)

/-- Whether a denied name is recognised after `c`. -/
def endsWord (c : Char) : Bool := !isWord c && c != '$'

namespace Validator

/-- The validator that denies the default names. -/
def standard : Validator := ⟨defaultDenylist⟩

/-- Adds names, without white space around them, each once. -/
def addNames (denied : List String) : List String → Except InvalidName (List String)
  | [] => .ok denied
  | entry :: rest =>
    let name := trimmed entry
    if isName name then addNames (if denied.contains name then denied else denied ++ [name]) rest
    else .error ⟨name⟩

/-- The validator that denies the given names. -/
def ofNames (entries : List String) : Except InvalidName Validator :=
  (addNames [] entries).map Validator.mk

/-- The denied name whose call the characters begin with. -/
def deniedHere? (v : Validator) (cs : List Char) : Option String :=
  v.names.find? (beginsWithCall cs)

/-- The name of the first denied call after a character that ends a word. -/
def deniedLater? (v : Validator) : List Char → Option String
  | [] => none
  | c :: cs => (if endsWord c then v.deniedHere? cs else none).or (v.deniedLater? cs)

/-- The name of the leftmost denied call of a text. -/
def firstDenied? (v : Validator) (text : String) : Option String :=
  (v.deniedHere? text.toList).or (v.deniedLater? text.toList)

/-- Refuses a text with a denied call. -/
def check (v : Validator) (text : String) : Except DeniedCall Unit :=
  match v.firstDenied? text with
  | some name => .error { text, name }
  | none => .ok ()

end Validator

end LiveMarkup
