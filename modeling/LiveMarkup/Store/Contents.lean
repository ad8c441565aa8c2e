import LiveMarkup.Store

/-!
# Arrays and objects as containers

What a host does with the contents of an array or object: taking elements in and out at either end,
and binding and unbinding properties.

## Main definitions

* `Store.push`, `Store.unshift`, `Store.pop`, `Store.shift` — elements at the ends of an array.
* `Store.insertProperty`, `Store.removeProperty` — properties of an object.
-/

namespace LiveMarkup.Store

/-! ### Arrays -/

/-- Adds elements at the end; gives the number of elements after. -/
def push (s : Store) (r : ArrayRef) (vs : List Value) : Store × Nat :=
  (s.setItems r (s.items r ++ vs), (s.items r ++ vs).length)

/-- Adds elements at the front; gives the number of elements after. -/
def unshift (s : Store) (r : ArrayRef) (vs : List Value) : Store × Nat :=
  (s.setItems r (vs ++ s.items r), (vs ++ s.items r).length)

/-- Takes out the last element. -/
def pop (s : Store) (r : ArrayRef) : Store × Option Value :=
  (s.setItems r (s.items r).dropLast, (s.items r).getLast?)

/-- Takes out the first element. -/
def shift (s : Store) (r : ArrayRef) : Store × Option Value :=
  (s.setItems r (s.items r).tail, (s.items r).head?)

/-- Turns the order of the elements around. -/
def reverseItems (s : Store) (r : ArrayRef) : Store := s.setItems r (s.items r).reverse

/-! ### Objects -/

/-- Binds a property; gives what it was bound to before. -/
def insertProperty (s : Store) (r : ObjectRef) (name : String) (v : Value) :
    Store × Option Value :=
  (s.setProperties r ((s.properties r).insert name v), (s.properties r).find? name)

/-- Takes a property out; gives what it was bound to. -/
def removeProperty (s : Store) (r : ObjectRef) (name : String) : Store × Option Value :=
  (s.setProperties r ((s.properties r).erase name), (s.properties r).find? name)

/-- Turns the order of the properties around. -/
def reverseProperties (s : Store) (r : ObjectRef) : Store :=
  s.setProperties r (s.properties r).reverse

end LiveMarkup.Store
