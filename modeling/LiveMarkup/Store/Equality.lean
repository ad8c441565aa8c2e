import LiveMarkup.Store.Coercion

/-!
# Equalities

Besides `===` there are three relations between values that depend on the store: `==`, the change
policy that decides whether a write counts, and comparison element by element.

## Main definitions

* `Store.looseEquals` — `==`, with coercions between numbers, texts and truth values.
* `Store.hasChanged` — strict identity plus one level of elements or properties.
* `Store.structurallyEqual` — arrays and objects compared all the way down.
-/

namespace LiveMarkup

namespace Store

/-- The relation `==` between values that may be cells, unwrapping each side once at every step.  A
side is coerced at most once from a truth value and once from an array or object. -/
def looseEqualsWithin (s : Store) : Nat → Value → Value → Bool
  | 0, _, _ => false
  | fuel + 1, x, y =>
    let a := s.unwrap x
    let b := s.unwrap y
    if a.isNullish || b.isNullish then a.isNullish && b.isNullish
    else
      match a, b with
      | .number _, .string _ | .string _, .number _ => s.toNumber a == s.toNumber b
      | .bool _, _ => s.looseEqualsWithin fuel (.number (s.toNumber a)) b
      | _, .bool _ => s.looseEqualsWithin fuel a (.number (s.toNumber b))
      | .array _, .number _ | .array _, .string _ | .object _, .number _ | .object _, .string _ =>
        s.looseEqualsWithin fuel (.string (s.display a)) b
      | .number _, .array _ | .string _, .array _ | .number _, .object _ | .string _, .object _ =>
        s.looseEqualsWithin fuel a (.string (s.display b))
      | _, _ => a.strictEquals b

/-- The relation `==`. -/
def looseEquals (s : Store) (x y : Value) : Bool := s.looseEqualsWithin 4 x y

/-- Whether two lists of elements differ at some place. -/
def someDiffer (current next : List Value) : Bool :=
  (current.zip next).any fun (a, b) => !a.strictEquals b

/-- Whether writing `next` over `current` counts as a change: two arrays are compared element by
element and two objects property by property, once; a property that is missing counts as
`undefined`. -/
def hasChanged (s : Store) (current next : Value) : Bool :=
  if current.strictEquals next then false
  else if current.isNullish || next.isNullish then true
  else
    match current, next with
    | .array a, .array b =>
      (s.items a).length != (s.items b).length || someDiffer (s.items a) (s.items b)
    | .object a, .object b =>
      (s.properties a).size != (s.properties b).size ||
        (s.properties b).entries.any fun (name, v) =>
          !(((s.properties a).find? name).getD .undefined).strictEquals v
    | _, _ => true

/-- Whether two lists have the same length and related elements. -/
def listsRelated (related : Value → Value → Bool) (xs ys : List Value) : Bool :=
  xs.length == ys.length && (xs.zip ys).all fun (x, y) => related x y

/-- Comparison of arrays and objects element by element, down to the given depth. -/
def structurallyEqualWithin (s : Store) : Nat → Value → Value → Bool
  | 0, x, y => x.strictEquals y
  | fuel + 1, x, y =>
    match x, y with
    | .array a, .array b =>
      a == b || listsRelated (s.structurallyEqualWithin fuel) (s.items a) (s.items b)
    | .object a, .object b =>
      a == b || ((s.properties a).names == (s.properties b).names &&
        listsRelated (s.structurallyEqualWithin fuel) (s.properties a).values
          (s.properties b).values)
    | x, y => x.strictEquals y

/-- Whether two values have equal structure; cells and functions count by identity. -/
def structurallyEqual (s : Store) (x y : Value) : Bool :=
  s.structurallyEqualWithin (s.arrays.size + s.objects.size + 1) x y

end Store

end LiveMarkup
