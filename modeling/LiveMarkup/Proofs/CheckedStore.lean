import LiveMarkup.Eval.Member
import LiveMarkup.Proofs.LeadingNumber
import LiveMarkup.Proofs.Writing

/-!
# Methods and writes with checked positions

The methods of strings and arrays and the writes of elements compute positions, read and cut lists
at them, and subtract them from lengths.  Here each such step is one that can fail: reading past the
end, cutting where the ends cross or lie outside, taking more from a number than it is.  Whatever
the arguments, none of them does, and the outcome is the same as without the checks.

## Main definitions

* `sub?`, `slice?`, `cut?`, `splice?`, `removeAt?`, `set?` — the steps that can fail.
* `StringMethod.call?`, `ArrayMethod.call?` — the methods made of them.
* `checkGrowth?`, `Store.setItem?`, `Store.setLength?` — the writes made of them.
* `Eval.setMember?`, `Eval.callMember?` — members.

## Main results

* `StringMethod.call?_eq`, `ArrayMethod.call?_eq`, `Store.setProperty?_eq` — no step fails.
* `Eval.setMember?_eq`, `Eval.callMember?_eq` — and so none fails behind a member.
-/

namespace LiveMarkup

open Number Text Eval

variable {α : Type}

/-! ### Steps that can fail -/

/-- Subtraction; fails below zero. -/
def sub? (a b : Nat) : Option Nat := if b ≤ a then some (a - b) else none

/-- The part of a list from one position up to another; fails if they cross or lie outside. -/
def slice? (xs : List α) (start stop : Nat) : Option (List α) :=
  if start ≤ stop ∧ stop ≤ xs.length then some ((xs.take stop).drop start) else none

/-- The part of a list between two positions, none if they cross; fails if they lie outside. -/
def cut? (xs : List α) (start stop : Nat) : Option (List α) :=
  if start < stop then slice? xs start stop else some []

/-- The list with another part in place of that between two positions, and the part taken out; fails
if the positions cross or lie outside. -/
def splice? (xs : List α) (start stop : Nat) (new : List α) : Option (List α × List α) := do
  let removed ← slice? xs start stop
  return (xs.take start ++ new ++ xs.drop stop, removed)

/-- The list without the element at a position, and that element; fails outside. -/
def removeAt? (xs : List α) (i : Nat) : Option (List α × α) := do
  let x ← xs[i]?
  return (xs.eraseIdx i, x)

/-- The list with another element at a position; fails outside. -/
def set? (xs : List α) (i : Nat) (x : α) : Option (List α) :=
  if i < xs.length then some (xs.set i x) else none

theorem sub?_eq {a b : Nat} (h : b ≤ a) : sub? a b = some (a - b) := if_pos h

theorem slice?_eq {xs : List α} {start stop : Nat} (h : start ≤ stop) (hstop : stop ≤ xs.length) :
    slice? xs start stop = some (between xs start stop) :=
  if_pos ⟨h, hstop⟩

theorem cut?_eq {xs : List α} {start stop : Nat} (h : stop ≤ xs.length) :
    cut? xs start stop = some (between xs start stop) := by
  unfold cut?
  split
  · next hlt => exact slice?_eq (Nat.le_of_lt hlt) h
  · next hle =>
    have hlength := (List.length_take_le stop xs).trans (Nat.le_of_not_lt hle)
    exact congrArg some (List.drop_eq_nil_of_le hlength).symm

theorem splice?_eq {xs : List α} {start stop : Nat} (h : start ≤ stop) (hstop : stop ≤ xs.length)
    (new : List α) : splice? xs start stop new =
      some (xs.take start ++ new ++ xs.drop stop, between xs start stop) := by
  rw [splice?, slice?_eq h hstop]
  rfl

theorem set?_eq {xs : List α} {i : Nat} (h : i < xs.length) (x : α) :
    set? xs i x = some (xs.set i x) := if_pos h

/-! ### Positions that are computed -/

theorem relativeIndex_le (s : Store) (v : Value) {length default : Nat} (h : default ≤ length) :
    s.relativeIndex v length default ≤ length := by
  unfold Store.relativeIndex
  split
  · exact h
  · dsimp only
    split <;> omega

theorem clampedIndex_le (s : Store) (v : Value) {length default : Nat} (h : default ≤ length) :
    s.clampedIndex v length default ≤ length := by
  unfold Store.clampedIndex
  split
  · exact h
  · exact Nat.min_le_right _ _

theorem elementIndex?_lt {s : Store} {v : Value} {length i : Nat}
    (h : s.elementIndex? v length = some i) : i < length := by
  unfold Store.elementIndex? at h
  dsimp only at h
  generalize (if toInteger (s.toNumber v) < 0 then (length : Int) + toInteger (s.toNumber v)
    else toInteger (s.toNumber v)) = position at h
  obtain ⟨hrange, hi⟩ := Option.ite_none_right_eq_some.1 h
  obtain rfl := Option.some.inj hi
  omega

/-- A text up to where another occurs in it has that many characters. -/
theorem position?_le {needle cs : List Char} {i : Nat} (h : position? needle cs = some i) :
    i ≤ cs.length := by
  induction cs generalizing i with
  | nil =>
    unfold position? at h
    split at h <;> cases h
    exact Nat.le_refl 0
  | cons c cs ih =>
    unfold position? at h
    split at h
    · cases h
      exact Nat.zero_le _
    · obtain ⟨j, hj, rfl⟩ := Option.map_eq_some_iff.1 h
      exact Nat.succ_le_succ (ih hj)

/-! ### Methods of strings -/

namespace StringMethod

/-- How many characters stand before the byte at which a text first occurs. -/
def charactersBefore? (needle cs : List Char) : Option Float :=
  match position? needle cs with
  | some i => do
    let (front, _) ← cutBytes? (byteLength (cs.take i)) cs
    return Number.ofNat front.length
  | none => some (-1.0)

/-- What fills a text up to the wanted length. -/
def padding? (cs fill : List Char) (target : Nat) : Option (Except EvalError (List Char)) :=
  if target ≤ cs.length || fill.isEmpty then some (.ok [])
  else if maxStringLength < target then some (.error (.type .invalidStringLength))
  else (sub? target cs.length).map fun missing => .ok (cycled missing fill)

/-- Calls a method of the string `text`. -/
def call? (m : StringMethod) (text : String) (args : List Value) (s : Store) :
    Option (Outcome Value) :=
  let cs := text.toList
  match m with
  | .indexOf => do
    let x ← charactersBefore? (s.display (argument args 0)).toList cs
    return (s, .ok (.number x))
  | .slice => do
    let start := s.relativeIndex (argument args 0) cs.length 0
    let stop := s.relativeIndex (argument args 1) cs.length cs.length
    let piece ← cut? cs start stop
    return (s, .ok (.ofChars piece))
  | .substring => do
    let a := s.clampedIndex (argument args 0) cs.length 0
    let b := s.clampedIndex (argument args 1) cs.length cs.length
    let piece ← if a ≤ b then slice? cs a b else slice? cs b a
    return (s, .ok (.ofChars piece))
  | .padStart => do
    let fill := (textOr s " " args[1]?).toList
    let padding ← padding? cs fill (toIndex (s.toNumber (argument args 0)))
    return (s, padding.map fun p => .ofChars (p ++ cs))
  | .padEnd => do
    let fill := (textOr s " " args[1]?).toList
    let padding ← padding? cs fill (toIndex (s.toNumber (argument args 0)))
    return (s, padding.map fun p => .ofChars (cs ++ p))
  | .at =>
    match s.elementIndex? (argument args 0) cs.length with
    | some i => do
      let c ← cs[i]?
      return (s, .ok (.ofChars [c]))
    | none => some (s, .ok .undefined)
  | m => some (m.apply text args s)

theorem charactersBefore?_eq (needle cs : List Char) :
    charactersBefore? needle cs = some (match position? needle cs with
      | some i => Number.ofNat i
      | none => -1.0) := by
  unfold charactersBefore?
  split
  · next i hi =>
    have hcut := cutBytes?_append (cs.take i) (cs.drop i)
    rw [List.take_append_drop] at hcut
    rw [hcut]
    simp [List.length_take_of_le (position?_le hi)]
  · rfl

theorem padding?_eq (cs fill : List Char) (target : Nat) :
    padding? cs fill target = some (padding cs fill target) := by
  unfold padding? padding
  split
  · rfl
  · next hlong =>
    split
    · rfl
    · rw [sub?_eq (by simp at hlong; omega), Option.map_some]

/-- No step of a method of strings fails. -/
theorem call?_eq (m : StringMethod) (text : String) (args : List Value) (s : Store) :
    m.call? text args s = some (m.apply text args s) := by
  cases m with
  | indexOf =>
    rw [call?, charactersBefore?_eq]
    rfl
  | slice =>
    rw [call?, cut?_eq (relativeIndex_le s _ (Nat.le_refl _))]
    rfl
  | substring =>
    have ha := clampedIndex_le s (argument args 0) (Nat.zero_le text.toList.length)
    have hb := clampedIndex_le s (argument args 1) (Nat.le_refl text.toList.length)
    unfold call? apply
    dsimp only
    -- the positions may cross: the part goes from the lower to the higher
    split
    · next hle =>
      rw [slice?_eq hle hb, Nat.min_eq_left hle, Nat.max_eq_right hle]
      rfl
    · next hlt =>
      have hle := Nat.le_of_not_le hlt
      rw [slice?_eq hle ha, Nat.min_eq_right hle, Nat.max_eq_left hle]
      rfl
  | padStart =>
    rw [call?, padding?_eq]
    rfl
  | padEnd =>
    rw [call?, padding?_eq]
    rfl
  | «at» =>
    unfold call? apply
    dsimp only
    cases helement : s.elementIndex? (argument args 0) text.toList.length with
    | none => rfl
    | some i =>
      have hi := List.getElem?_eq_getElem (elementIndex?_lt helement)
      simp only [Option.bind_some, hi]
      rfl
  | _ => rfl

end StringMethod

/-! ### Methods of arrays -/

namespace ArrayMethod

/-- The elements without the first, and the first if there is one. -/
def shifted? : List Value → Option (List Value × Option Value)
  | [] => some ([], none)
  | items => do
    let (rest, v) ← removeAt? items 0
    return (rest, some v)

/-- How many elements `splice` removes from a position on. -/
def removedCount? (s : Store) (count : Option Value) (length start : Nat) : Option Nat :=
  match count with
  | none => sub? length start
  | some v => (sub? length start).map fun remaining => min (toIndex (s.toNumber v)) remaining

/-- Calls a method of an array. -/
def call? (m : ArrayMethod) (r : ArrayRef) (args : List Value) (s : Store) :
    Option (Store × Value) :=
  let items := s.items r
  let first := argument args 0
  match m with
  | .shift => do
    let (rest, v) ← shifted? items
    return taken (s.setItems r rest, v)
  | .unshift => do
    let (all, _) ← splice? items 0 0 args
    return counted (s.setItems r all, all.length)
  | .slice => do
    let start := s.relativeIndex first items.length 0
    let stop := s.relativeIndex (argument args 1) items.length items.length
    let piece ← cut? items start stop
    return s.newArrayValue piece
  | .splice => do
    let start := s.relativeIndex first items.length 0
    let count ← removedCount? s args[1]? items.length start
    let (rest, removed) ← splice? items start (start + count) (args.drop 2)
    return (s.setItems r rest).newArrayValue removed
  | m => some (m.apply r args s)

theorem shifted?_eq (items : List Value) : shifted? items = some (items.tail, items.head?) := by
  cases items <;> rfl

theorem removedCount?_eq (s : Store) (count : Option Value) {length start : Nat}
    (h : start ≤ length) :
    removedCount? s count length start = some (removedCount s count (length - start)) := by
  unfold removedCount? removedCount
  rw [sub?_eq h]
  cases count <;> rfl

theorem removedCount_le (s : Store) (count : Option Value) (remaining : Nat) :
    removedCount s count remaining ≤ remaining := by
  cases count with
  | none => exact Nat.le_refl _
  | some v => exact Nat.min_le_right _ _

/-- No step of a method of arrays fails. -/
theorem call?_eq (m : ArrayMethod) (r : ArrayRef) (args : List Value) (s : Store) :
    m.call? r args s = some (m.apply r args s) := by
  cases m with
  | shift =>
    rw [call?, shifted?_eq]
    rfl
  | unshift =>
    rw [call?, splice?_eq (Nat.le_refl 0) (Nat.zero_le _)]
    rfl
  | slice =>
    rw [call?, cut?_eq (relativeIndex_le s _ (Nat.le_refl _))]
    rfl
  | splice =>
    have hstart := relativeIndex_le s (argument args 0) (Nat.zero_le (s.items r).length)
    have hcount := removedCount_le s args[1]?
      ((s.items r).length - s.relativeIndex (argument args 0) (s.items r).length 0)
    rw [call?]
    simp only [removedCount?_eq s args[1]? hstart, Option.bind_eq_bind, Option.bind_some]
    -- not more is removed than there is from the start on
    rw [splice?_eq (Nat.le_add_right _ _) (by omega), between, ← List.take_drop]
    rfl
  | _ => rfl

end ArrayMethod

/-! ### Writing elements -/

/-- Whether an array may grow to hold an element at `index`. -/
def checkGrowth? (length index : Nat) : Option (Except PropertyError Unit) :=
  if maxArrayIndex < index then some (.error (.outOfRange index length))
  else (sub? index length).map fun growth =>
    if maxArrayGrowth < growth then .error (.outOfRange index length) else .ok ()

theorem checkGrowth?_eq {length index : Nat} (h : length ≤ index) :
    checkGrowth? length index = some (checkGrowth length index) := by
  unfold checkGrowth? checkGrowth
  rw [sub?_eq h, Option.map_some]
  by_cases hindex : maxArrayIndex < index <;> simp [hindex]

/-- The elements, made long enough to have one at `index`. -/
def roomed? (items : List Value) (index : Nat) : Option (Except PropertyError (List Value)) :=
  if items.length ≤ index then do
    let growth ← checkGrowth? items.length index
    return growth.map fun _ => resized items (index + 1)
  else some (.ok items)

/-- Filling up an array before an element is put at the end, or for it and then writing it. -/
theorem set_resized {items : List Value} {index : Nat} (h : items.length ≤ index) (v : Value) :
    (resized items (index + 1)).set index v = resized items index ++ [v] := by
  have hlength := length_resized items index
  have hroom : resized items (index + 1) = resized items index ++ [.undefined] := by
    unfold resized
    rw [List.take_of_length_le h, List.take_of_length_le (Nat.le_succ_of_le h),
      Nat.succ_sub h, List.replicate_succ', List.append_assoc]
  rw [hroom, List.set_append_right _ _ (Nat.le_of_eq hlength), hlength, Nat.sub_self]
  rfl

namespace Store

/-- Writes an element, filling up with `undefined` if it lies past the end. -/
def setItem? (s : Store) (r : ArrayRef) (index : Nat) (v : Value) :
    Option (Except PropertyError Store) := do
  match ← roomed? (s.items r) index with
  | .ok items => return .ok (s.setItems r (← set? items index v))
  | .error error => return .error error

/-- Cuts an array or fills it up with `undefined`. -/
def setLength? (s : Store) (r : ArrayRef) (length : Nat) : Option (Except PropertyError Store) := do
  let items := s.items r
  let growth ← if items.length < length then (sub? length 1).bind (checkGrowth? items.length)
    else some (.ok ())
  return growth.map fun _ => s.setItems r (resized items length)

/-- Writes a property in place. -/
def setProperty? (s : Store) (target : Value) (key : String) (v : Value) :
    Option (Except PropertyError Store) :=
  match target with
  | .array r =>
    if key = "length" then
      match s.lengthAsked? v with
      | some n => s.setLength? r n
      | none => some (.error (.invalidLength (s.display v)))
    else
      match indexOfKey? key with
      | some i => s.setItem? r i v
      | none => some (.error (.notWritable key "array"))
  | target => some (s.setProperty target key v)

/-- Writes a property of the held value in place and requests a pass. -/
def setCellProperty? (s : Store) (c : CellRef) (key : String) (v : Value) :
    Option (Except PropertyError Store) := do
  let written ← s.setProperty? (s.held c) key v
  return written.map (trigger · c)

theorem setItem?_eq (s : Store) (r : ArrayRef) (index : Nat) (v : Value) :
    s.setItem? r index v = some (s.setItem r index v) := by
  unfold setItem? setItem roomed?
  dsimp only
  by_cases hlt : index < (s.items r).length
  · rw [if_neg (Nat.not_le_of_lt hlt), if_pos hlt]
    simp [set?_eq hlt]
  · have hle := Nat.le_of_not_lt hlt
    rw [if_pos hle, if_neg hlt, checkGrowth?_eq hle]
    cases checkGrowth (s.items r).length index with
    | error error => rfl
    | ok _ =>
      have hlength := length_resized (s.items r) (index + 1)
      have hset := set?_eq ((Nat.lt_succ_self index).trans_eq hlength.symm) v
      rw [set_resized hle] at hset
      simp [Except.map, hset]

theorem setLength?_eq (s : Store) (r : ArrayRef) (length : Nat) :
    s.setLength? r length = some (s.setLength r length) := by
  unfold setLength? setLength
  dsimp only
  split
  · next hlt =>
    rw [sub?_eq (by omega), Option.bind_some, checkGrowth?_eq (by omega)]
    cases checkGrowth (s.items r).length (length - 1) <;> rfl
  · rfl

theorem setProperty?_eq (s : Store) (target : Value) (key : String) (v : Value) :
    s.setProperty? target key v = some (s.setProperty target key v) := by
  cases target with
  | array r =>
    unfold setProperty? setProperty
    dsimp only
    split
    · cases s.lengthAsked? v with
      | some n => exact setLength?_eq s r n
      | none => rfl
    · cases indexOfKey? key with
      | some i => exact setItem?_eq s r i v
      | none => rfl
  | _ => rfl

theorem setCellProperty?_eq (s : Store) (c : CellRef) (key : String) (v : Value) :
    s.setCellProperty? c key v = some (s.setCellProperty c key v) := by
  unfold setCellProperty? setCellProperty
  rw [setProperty?_eq]
  cases s.setProperty (s.held c) key v <;> rfl

end Store

/-! ### Functions -/

/-- What a builtin function makes of its arguments. -/
def BuiltinFunction.call? (f : BuiltinFunction) (s : Store) (args : List Value) : Option Value :=
  match f with
  | .parseFloat => (leadingNumber? (s.display (argument args 0))).map .number
  | f => some (f.apply s args)

theorem BuiltinFunction.call?_eq (f : BuiltinFunction) (s : Store) (args : List Value) :
    f.call? s args = some (f.apply s args) := by
  cases f with
  | parseFloat =>
    rw [call?, leadingNumber?_eq]
    rfl
  | _ => rfl

namespace Store

/-- Calls a function. -/
def callFunction? (s : Store) (f : Function) (args : List Value) : Option (Outcome Value) :=
  match f with
  | .builtin f => (f.call? s args).map fun v => (s, .ok v)
  | f => some (s.callFunction f args)

theorem callFunction?_eq (s : Store) (f : Function) (args : List Value) :
    s.callFunction? f args = some (s.callFunction f args) := by
  cases f with
  | builtin f =>
    rw [callFunction?, f.call?_eq]
    rfl
  | host => rfl

/-- The method of a value that depends on its type, none if there is none of that name. -/
def typeMethod? (s : Store) (receiver : Value) (name : String) (args : List Value) :
    Option (Option (Outcome Value)) :=
  match receiver with
  | .string t => (StringMethod.named.lookup name).mapM fun m => m.call? t args s
  | .array r =>
    (ArrayMethod.named.lookup name).mapM fun m => do
      let (s, v) ← m.call? r args s
      return (s, .ok v)
  | receiver => some (s.ownMethod? receiver name args)

/-- Calls a builtin method of a value that is not a cell, if there is one of that name. -/
def callBuiltin? (s : Store) (receiver : Value) (name : String) (args : List Value) :
    Option (Option (Outcome Value)) := do
  let own ← s.typeMethod? receiver name args
  return own.or ((s.commonMethod? receiver name).map fun v => (s, .ok v))

theorem typeMethod?_eq (s : Store) (receiver : Value) (name : String) (args : List Value) :
    s.typeMethod? receiver name args = some (s.ownMethod? receiver name args) := by
  cases receiver with
  | string t =>
    unfold typeMethod? ownMethod?
    cases StringMethod.named.lookup name with
    | none => rfl
    | some m => simp [m.call?_eq]
  | array r =>
    unfold typeMethod? ownMethod?
    cases ArrayMethod.named.lookup name with
    | none => rfl
    | some m => simp [m.call?_eq]
  | _ => rfl

theorem callBuiltin?_eq (s : Store) (receiver : Value) (name : String) (args : List Value) :
    s.callBuiltin? receiver name args = some (s.callBuiltin receiver name args) := by
  rw [callBuiltin?, typeMethod?_eq]
  rfl

end Store

/-! ### Members -/

namespace Eval

/-- Writes a member. -/
def setMember? (s : Store) (target : Value) (key : String) (v : Value) : Option (Outcome Unit) :=
  match target with
  | .cell c =>
    if key = "value" then some (setMember s target key v)
    else
      match (s.held c).nullishName? with
      | some base => some (s, .error (.nullishWrite base key))
      | none => (s.setCellProperty? c key v).map (tryWrite s key (s.held c))
  | .array _ => (s.setProperty? target key v).map (tryWrite s key target)
  | target => some (setMember s target key v)

/-- Calls a builtin method of what a receiver holds. -/
def callBuiltinMember? (s : Store) (receiver : Value) (name : String) (args : List Value)
    (optional : Bool) : Option (Outcome (Option Value)) := do
  let held := s.unwrap receiver
  match ← s.callBuiltin? held name args with
  | some (s, .ok v) => return (afterMethod s receiver held name, .ok (some v))
  | some (s, .error e) => return (s, .error e)
  | none =>
    if optional then return (s, .ok none)
    else return (s, .error (.notCallable (s.typeName held ++ "." ++ name)))

/-- Calls a function and gives its result as the result of a call. -/
def callMemberFunction? (s : Store) (f : Function) (args : List Value) :
    Option (Outcome (Option Value)) := do
  let (s, result) ← s.callFunction? f args
  return (s, result.map some)

/-- Calls a member: a function that is a property of an object, else a builtin method. -/
def callMember? (s : Store) (receiver : Value) (name : String) (args : List Value)
    (optional : Bool) : Option (Outcome (Option Value)) :=
  let held := s.unwrap receiver
  match held.nullishName? with
  | some base => some (s, .error (.nullishRead base name))
  | none =>
    match ownMember? s held name with
    | none => callBuiltinMember? s receiver name args optional
    | some member =>
      match s.unwrap member with
      | .function f => callMemberFunction? s f args
      | member =>
        if optional && member.isNullish then some (s, .ok none)
        else some (s, .error (.notCallable name))

/-- No step behind the write of a member fails. -/
theorem setMember?_eq (s : Store) (target : Value) (key : String) (v : Value) :
    setMember? s target key v = some (setMember s target key v) := by
  cases target with
  | cell c =>
    have hcell : (Value.cell c).nullishName? = none := rfl
    simp only [setMember?, setMember, Store.setCellProperty?_eq, Option.map_some, hcell]
    split
    · rfl
    · cases (s.held c).nullishName? <;> rfl
  | array r =>
    rw [setMember?, Store.setProperty?_eq]
    rfl
  | _ => rfl

theorem callBuiltinMember?_eq (s : Store) (receiver : Value) (name : String) (args : List Value)
    (optional : Bool) : callBuiltinMember? s receiver name args optional =
      some (callBuiltinMember s receiver name args optional) := by
  unfold callBuiltinMember? callBuiltinMember
  dsimp only
  rw [Store.callBuiltin?_eq]
  rcases s.callBuiltin (s.unwrap receiver) name args with _ | ⟨t, e | v⟩
  · cases optional <;> rfl
  · rfl
  · rfl

theorem callMemberFunction?_eq (s : Store) (f : Function) (args : List Value) :
    callMemberFunction? s f args = some (callMemberFunction s f args) := by
  unfold callMemberFunction? callMemberFunction
  rw [Store.callFunction?_eq]
  rcases s.callFunction f args with ⟨t, e | v⟩ <;> rfl

/-- No step behind the call of a member fails. -/
theorem callMember?_eq (s : Store) (receiver : Value) (name : String) (args : List Value)
    (optional : Bool) : callMember? s receiver name args optional =
      some (callMember s receiver name args optional) := by
  unfold callMember? callMember
  simp only [callBuiltinMember?_eq, callMemberFunction?_eq]
  cases (s.unwrap receiver).nullishName? with
  | some base => rfl
  | none =>
    cases ownMember? s (s.unwrap receiver) name with
    | none => rfl
    | some member =>
      dsimp only
      cases s.unwrap member with
      | function f => rfl
      | _ => exact (apply_ite some ..).symm

end Eval

end LiveMarkup
