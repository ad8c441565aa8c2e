import LiveMarkup.Syntax.Tree

/-!
# Compiled shapes

A text compiled twice in the same way for the same parameters is compiled to the same function.  The
key of a compilation says how and for which parameters; the values given to them play no part.

## Main definitions

* `CompileKey`, `CompileKey.of` — the key of a compilation.
* `CompileKey.text` — how messages show it.
-/

namespace LiveMarkup

open Syntax

/-- What a text is compiled as. -/
structure CompileKey where
  mode : Mode
  source : String
  /-- The names of the parameters with commas between them. -/
  params : String
  deriving DecidableEq, Repr, Inhabited

/-- The key for a text with its parameters. -/
def CompileKey.of (source : String) (params : List String) (mode : Mode) : CompileKey where
  mode := mode
  source := source
  params := String.intercalate "," params

/-- The key as messages show it. -/
def CompileKey.text (key : CompileKey) : String :=
  match key.mode with
  | .expression => "return (" ++ key.source ++ ");|" ++ key.params
  | .statement => key.source ++ "|" ++ key.params

end LiveMarkup
