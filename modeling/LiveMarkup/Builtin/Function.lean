import LiveMarkup.Eval.Error
import LiveMarkup.Store.Snapshot

/-!
# Functions

What the builtin functions and the functions of a host do.

## Main definitions

* `MathFunction.apply`, `BuiltinFunction.apply` — the builtin functions.
* `Store.callFunction` — any function.
* `mathObject`, `Store.initial` — the `Math` object, which every store begins with.
-/

namespace LiveMarkup

open Number

/-- The argument at a position; `undefined` if there is none. -/
def argument (args : List Value) (i : Nat) : Value := args.getD i .undefined

/-- The greatest or least of numbers, starting from `start`; not a number if one of them is not. -/
def extremum (better : Float → Float → Bool) (start : Float) (xs : List Float) : Float :=
  xs.foldl (fun best x => if x.isNaN || best.isNaN then nan else if better x best then x else best)
    start

/-- The sign of a number, as a number. -/
def signOf (x : Float) : Float :=
  if x.isNaN || isZero x then x else if 0.0 < x then 1.0 else -1.0

/-- What a function of `Math` makes of numbers. -/
def MathFunction.apply (f : MathFunction) (xs : List Float) : Float :=
  let x := xs.getD 0 nan
  match f with
  | .abs => x.abs
  | .ceil => ceiling x
  | .floor => Number.floor x
  | .round => Number.floor (x + 0.5)
  | .trunc => truncate x
  | .sign => signOf x
  | .sqrt => x.sqrt
  | .log => x.log
  | .exp => x.exp
  | .pow => x.pow (xs.getD 1 nan)
  | .min => extremum (fun x best => x < best) infinity xs
  | .max => extremum (fun x best => best < x) (-infinity) xs

/-- What a builtin function makes of its arguments. -/
def BuiltinFunction.apply (f : BuiltinFunction) (s : Store) (args : List Value) : Value :=
  let first := argument args 0
  match f with
  | .string => .string (s.display first)
  | .number => .number (match args with | [] => 0.0 | v :: _ => s.toNumber v)
  | .boolean => .bool (s.isTruthy first)
  | .parseInt => .number (leadingInteger (s.display first) ((args[1]?).map s.toNumber))
  | .parseFloat => .number (leadingNumber (s.display first))
  | .isNaN => .bool (s.toNumber first).isNaN
  | .math f => .number (f.apply (args.map s.toNumber))

namespace Store

/-- Calls a host function. -/
def callHost (s : Store) (f : HostFunction) (args : List Value) : Eval.Outcome Value :=
  match f with
  | .echo => (s, .ok (argument args 0))
  | .argc => (s, .ok (.number (ofNat args.length)))
  | .sum => (s, .ok (.number ((args.map s.toNumber).foldl (· + ·) 0.0)))
  | .fail => (s, .error (.native ("failed: " ++ s.display (argument args 0))))
  | .record => (s.notice [.recorded (args.map s.snapshot)], .ok .undefined)

/-- Calls a function. -/
def callFunction (s : Store) (f : Function) (args : List Value) : Eval.Outcome Value :=
  match f with
  | .builtin f => (s, .ok (f.apply s args))
  | .host f _ => s.callHost f args

end Store

/-! ### The `Math` object -/

/-- The properties of `Math`, in order. -/
def mathEntries : List (String × Value) :=
  [("PI", .number (Float.ofBits 0x400921fb54442d18)),
    ("E", .number (Float.ofBits 0x4005bf0a8b145769))] ++
  ([MathFunction.abs, .ceil, .floor, .round, .trunc, .sign, .sqrt, .log, .exp, .pow, .min,
    .max].map fun f => (f.name, .function (.builtin (.math f))))

/-- The `Math` object, which expressions share. -/
def mathObject : ObjectRef := ⟨0⟩

/-- The store that holds nothing but the `Math` object, which stays. -/
def Store.initial : Store where
  objects := #[Bindings.ofList mathEntries]
  pinned := [.object mathObject]

end LiveMarkup
