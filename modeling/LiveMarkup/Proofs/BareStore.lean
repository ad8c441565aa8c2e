import LiveMarkup.Eval.Member
import LiveMarkup.Eval.Operator
import LiveMarkup.Store.Lifetime

/-!
# A text sees contents only

What is gone, which streams have ended and who has been woken depends on who holds what, and shows
in nothing that a text computes.  Without these a store is bare.  Every reading of a text gives the
same in the bare store, and every change that a text makes is the same change there.

## Main definitions

* `Store.bare` — the store without what depends on who holds what.
* `Store.Blind` — an operation that does not depend on it.

## Main results

* `Store.bare_letGo` — giving up references does nothing else.
* `Store.display_bare`, `Store.toNumber_bare`, `binary_bare`, `getMember_bare` — readings.
* `blind_setMember`, `blind_callMember`, `blind_callFunction` — changes.
-/

namespace LiveMarkup

open Eval Number Syntax

variable {α : Type}

/-- Whether it was taken down by a host function. -/
def Notice.isRecorded : Notice → Bool
  | .recorded _ => true
  | .woken _ => false

namespace Store

/-- The store without what depends on who holds what: streams, what is gone, and who was woken. -/
def bare (s : Store) : Store :=
  { s with streams := #[], gone := [], notices := s.notices.filter Notice.isRecorded }

/-- In the bare store the operation gives the same, and leaves the bare store. -/
def Blind (f : Store → Store × α) : Prop := ∀ s, f s.bare = ((f s).1.bare, (f s).2)

/-- Where the bare stores are the same, the operation does the same. -/
theorem Blind.same {f : Store → Store × α} (hf : Blind f) {s t : Store} (h : s.bare = t.bare) :
    (f s).1.bare = (f t).1.bare ∧ (f s).2 = (f t).2 := by
  have heq := (hf s).symm.trans ((congrArg f h).trans (hf t))
  exact Prod.mk.inj heq

/-! ### Giving up references -/

theorem bare_detach (s : Store) (r : StreamRef) : (s.detach r).bare = s.bare := by
  have hwoken : ∀ wakers : List String,
      (wakers.map Notice.woken).filter Notice.isRecorded = [] := by
    intro wakers
    refine List.filter_eq_nil_iff.2 fun n hn => ?_
    obtain ⟨w, -, rfl⟩ := List.mem_map.1 hn
    exact Bool.false_ne_true
  unfold detach wake notice modifyStream bare
  simp only [List.filter_append, hwoken, List.append_nil]

theorem bare_foldl_detach (rs : List StreamRef) (s : Store) :
    (rs.foldl detach s).bare = s.bare := by
  induction rs generalizing s with
  | nil => rfl
  | cons r rs ih => exact (ih (s.detach r)).trans (bare_detach s r)

theorem bare_letGoWithin (kept : List Entity) (fuel : Nat) (pending : List Loss) (s : Store) :
    (s.letGoWithin kept fuel pending).bare = s.bare := by
  induction fuel generalizing s pending with
  | zero => rfl
  | succ fuel ih =>
    -- one loss ends streams or takes something away, and may put other losses before the rest
    match pending with
    | [] => rfl
    | .streams c :: rest => exact (ih rest (s.endStreams c)).trans (bare_foldl_detach _ s)
    | .reference e :: rest =>
      unfold letGoWithin
      split
      · exact ih rest s
      · exact ih _ { s with gone := e :: s.gone }

/-- Giving up references changes nothing but what is gone, and what follows from that. -/
theorem bare_letGo (s : Store) (kept lost : List Entity) : (s.letGo kept lost).bare = s.bare := by
  unfold letGo
  split
  · rfl
  · exact bare_letGoWithin kept _ _ s

/-! ### Readings -/

variable (s : Store)

@[simp] theorem items_bare (r : ArrayRef) : s.bare.items r = s.items r := rfl

@[simp] theorem properties_bare (r : ObjectRef) : s.bare.properties r = s.properties r := rfl

@[simp] theorem cellState_bare (c : CellRef) : s.bare.cellState c = s.cellState c := rfl

@[simp] theorem held_bare (c : CellRef) : s.bare.held c = s.held c := rfl

@[simp] theorem unwrap_bare (v : Value) : s.bare.unwrap v = s.unwrap v := by cases v <;> rfl

theorem followCells_bare (fuel : Nat) (v : Value) :
    s.bare.followCells fuel v = s.followCells fuel v := by
  induction fuel generalizing v with
  | zero => rfl
  | succ fuel ih =>
    cases v with
    | cell c => exact ih (s.held c)
    | _ => rfl

@[simp] theorem resolve_bare (v : Value) : s.bare.resolve v = s.resolve v :=
  s.followCells_bare (s.cells.size + 1) v

@[simp] theorem typeName_bare (v : Value) : s.bare.typeName v = s.typeName v := by simp [typeName]

@[simp] theorem isTruthy_bare (v : Value) : s.bare.isTruthy v = s.isTruthy v := by simp [isTruthy]

theorem displayWithin_bare (fuel : Nat) (joining : List ArrayRef) (v : Value) :
    s.bare.displayWithin fuel joining v = s.displayWithin fuel joining v := by
  induction fuel generalizing joining v with
  | zero => rfl
  | succ fuel ih =>
    cases v with
    | array r => simp [displayWithin, ih]
    | cell c => exact ih joining (s.held c)
    | _ => rfl

@[simp] theorem display_bare (v : Value) : s.bare.display v = s.display v :=
  s.displayWithin_bare s.displayDepth [] v

@[simp] theorem toNumber_bare (v : Value) : s.bare.toNumber v = s.toNumber v := by
  simp [toNumber]

@[simp] theorem toPrimitive_bare (v : Value) : s.bare.toPrimitive v = s.toPrimitive v := by
  simp [toPrimitive]

@[simp] theorem propertyKey_bare (v : Value) : s.bare.propertyKey v = s.propertyKey v := by
  simp [propertyKey]

theorem looseEqualsWithin_bare (fuel : Nat) (v w : Value) :
    s.bare.looseEqualsWithin fuel v w = s.looseEqualsWithin fuel v w := by
  induction fuel generalizing v w with
  | zero => rfl
  | succ fuel ih => simp [looseEqualsWithin, ih]

@[simp] theorem looseEquals_bare (v w : Value) : s.bare.looseEquals v w = s.looseEquals v w :=
  s.looseEqualsWithin_bare 4 v w

@[simp] theorem hasChanged_bare (v w : Value) : s.bare.hasChanged v w = s.hasChanged v w := by
  simp [hasChanged]

theorem snapshotWithin_bare (fuel : Nat) (path : List Entity) (v : Value) :
    s.bare.snapshotWithin fuel path v = s.snapshotWithin fuel path v := by
  induction fuel generalizing path v with
  | zero => rfl
  | succ fuel ih =>
    have hsame : s.bare.snapshotWithin fuel = s.snapshotWithin fuel :=
      funext fun path => funext (ih path)
    unfold snapshotWithin
    rw [hsame]
    rfl

@[simp] theorem snapshot_bare (v : Value) : s.bare.snapshot v = s.snapshot v :=
  s.snapshotWithin_bare _ [] v

@[simp] theorem ownProperty_bare (v : Value) (key : String) :
    s.bare.ownProperty v key = s.ownProperty v key := by
  cases v <;> simp [ownProperty]

@[simp] theorem relativeIndex_bare (v : Value) (length default : Nat) :
    s.bare.relativeIndex v length default = s.relativeIndex v length default := by
  simp [relativeIndex]

@[simp] theorem clampedIndex_bare (v : Value) (length default : Nat) :
    s.bare.clampedIndex v length default = s.clampedIndex v length default := by
  simp [clampedIndex]

@[simp] theorem elementIndex?_bare (v : Value) (length : Nat) :
    s.bare.elementIndex? v length = s.elementIndex? v length := by
  simp [elementIndex?]

/-! ### Changes -/

@[simp] theorem setItems_bare (r : ArrayRef) (items : List Value) :
    s.bare.setItems r items = (s.setItems r items).bare := rfl

@[simp] theorem setProperties_bare (r : ObjectRef) (properties : Bindings Value) :
    s.bare.setProperties r properties = (s.setProperties r properties).bare := rfl

theorem notice_recorded_bare (args : List Snapshot) :
    s.bare.notice [.recorded args] = (s.notice [.recorded args]).bare := by
  unfold notice bare
  rw [List.filter_append]
  rfl

theorem blind_newArrayValue (items : List Value) : Blind (newArrayValue · items) := fun _ => rfl

@[simp] theorem trigger_bare (c : CellRef) : s.bare.trigger c = (s.trigger c).bare := by
  unfold trigger
  rw [show s.bare.cells = s.cells from rfl]
  split
  · rfl
  · next state _ =>
    dsimp only
    split
    · rfl
    · cases state.scheduler <;> rfl

theorem commit_bare (c : CellRef) (v : Value) : s.bare.commit c v = (s.commit c v).bare := rfl

@[simp] theorem setCell_bare (c : CellRef) (v : Value) :
    s.bare.setCell c v = ((s.setCell c v).1.bare, (s.setCell c v).2) := by
  simp only [setCell, held_bare, hasChanged_bare, commit_bare, trigger_bare]
  split <;> rfl

theorem blind_setCell (c : CellRef) (v : Value) : Blind fun s => s.setCell c (s.unwrap v) := by
  intro s
  dsimp only
  rw [unwrap_bare, setCell_bare]

@[simp] theorem setItem_bare (r : ArrayRef) (i : Nat) (v : Value) :
    s.bare.setItem r i v = (s.setItem r i v).map bare := by
  unfold setItem
  rw [items_bare]
  dsimp only
  split
  · rfl
  · cases checkGrowth (s.items r).length i <;> rfl

@[simp] theorem setLength_bare (r : ArrayRef) (n : Nat) :
    s.bare.setLength r n = (s.setLength r n).map bare := by
  unfold setLength
  rw [items_bare]
  dsimp only
  split
  · cases checkGrowth (s.items r).length (n - 1) <;> rfl
  · rfl

@[simp] theorem setProperty_bare (target : Value) (key : String) (v : Value) :
    s.bare.setProperty target key v = (s.setProperty target key v).map bare := by
  cases target with
  | array r =>
    simp only [setProperty, lengthAsked?, toNumber_bare, display_bare, setLength_bare, setItem_bare]
    split
    · split <;> rfl
    · split <;> rfl
  | object r => rfl
  | _ => simp [setProperty, Except.map]

@[simp] theorem setCellProperty_bare (c : CellRef) (key : String) (v : Value) :
    s.bare.setCellProperty c key v = (s.setCellProperty c key v).map bare := by
  simp only [setCellProperty, held_bare, setProperty_bare]
  cases s.setProperty (s.held c) key v with
  | error e => rfl
  | ok t => exact congrArg Except.ok (t.trigger_bare c)

end Store

/-! ### Methods and functions -/

open Store

@[simp] theorem textOr_bare (s : Store) (default : String) (v : Option Value) :
    StringMethod.textOr s.bare default v = StringMethod.textOr s default v := by
  unfold StringMethod.textOr
  split <;> simp

@[simp] theorem pieces_bare (s : Store) (text : List Char) (v : Option Value) :
    StringMethod.pieces s.bare text v = StringMethod.pieces s text v := by
  unfold StringMethod.pieces
  split <;> simp

theorem blind_stringMethod (m : StringMethod) (text : String) (args : List Value) :
    Blind (m.apply text args) := by
  intro s
  cases m with
  | split =>
    simp only [StringMethod.apply, pieces_bare]
    rfl
  | _ => simp [StringMethod.apply]

@[simp] theorem added_bare (s : Store) : ArrayMethod.added s.bare = ArrayMethod.added s := by
  funext v
  simp [ArrayMethod.added]

@[simp] theorem joined_bare (s : Store) (separator : String) (items : List Value) :
    ArrayMethod.joined s.bare separator items = ArrayMethod.joined s separator items := by
  simp [ArrayMethod.joined]

@[simp] theorem removedCount_bare (s : Store) (count : Option Value) (remaining : Nat) :
    ArrayMethod.removedCount s.bare count remaining =
      ArrayMethod.removedCount s count remaining := by
  simp [ArrayMethod.removedCount]

theorem blind_arrayMethod (m : ArrayMethod) (r : ArrayRef) (args : List Value) :
    Blind (m.apply r args) := by
  intro s
  cases m with
  | push | pop | shift | unshift | reverse => rfl
  | slice | concat | splice =>
    simp only [ArrayMethod.apply, items_bare, relativeIndex_bare, added_bare, removedCount_bare]
    rfl
  | _ => simp [ArrayMethod.apply]

theorem numberMethod_bare (s : Store) (x : Float) (name : String) (args : List Value) :
    NumberMethod.call? s.bare x name args = NumberMethod.call? s x name args := by
  simp [NumberMethod.call?, NumberMethod.fixedText, NumberMethod.radixText]

/-- A builtin method depends on the bare store only. -/
theorem callBuiltin_bare (s : Store) (receiver : Value) (name : String) (args : List Value) :
    s.bare.callBuiltin receiver name args =
      (s.callBuiltin receiver name args).map fun o => (o.1.bare, o.2) := by
  have hown : s.bare.ownMethod? receiver name args =
      (s.ownMethod? receiver name args).map fun o => (o.1.bare, o.2) := by
    cases receiver with
    | string t =>
      unfold ownMethod?
      cases StringMethod.named.lookup name with
      | none => rfl
      | some m => exact congrArg some (blind_stringMethod m t args s)
    | array r =>
      unfold ownMethod?
      cases ArrayMethod.named.lookup name with
      | none => rfl
      | some m =>
        simp only [Option.map_some, blind_arrayMethod m r args s]
    | number x =>
      simp only [ownMethod?, numberMethod_bare]
      cases NumberMethod.call? s x name args <;> rfl
    | _ => rfl
  have hcommon : s.bare.commonMethod? receiver name = s.commonMethod? receiver name := by
    simp [commonMethod?]
  unfold callBuiltin
  rw [hown, hcommon]
  cases s.ownMethod? receiver name args with
  | some o => rfl
  | none => cases s.commonMethod? receiver name <;> rfl

theorem builtinFunction_bare (f : BuiltinFunction) (s : Store) (args : List Value) :
    f.apply s.bare args = f.apply s args := by
  have hnumber : s.bare.toNumber = s.toNumber := funext s.toNumber_bare
  cases f <;> simp [BuiltinFunction.apply, hnumber]

theorem blind_callFunction (f : Function) (args : List Value) :
    Blind (callFunction · f args) := by
  intro s
  cases f with
  | builtin f => exact congrArg (s.bare, Except.ok ·) (builtinFunction_bare f s args)
  | host f id =>
    have hnumber : s.bare.toNumber = s.toNumber := funext s.toNumber_bare
    have hsnapshot : s.bare.snapshot = s.snapshot := funext s.snapshot_bare
    cases f with
    | record => simp only [callFunction, callHost, hsnapshot, notice_recorded_bare]
    | _ => simp [callFunction, callHost, hnumber]

/-! ### Members and operators -/

namespace Eval

theorem getMember_bare (s : Store) (target : Value) (key : String) :
    getMember s.bare target key = getMember s target key := by
  have hplain : ∀ v, plainMember s.bare v key = plainMember s v key := by
    intro v
    simp [plainMember]
  cases target <;> simp [getMember, hplain]

theorem tryWrite_bare (s : Store) (key : String) (on : Value)
    (written : Except PropertyError Store) :
    tryWrite s.bare key on (written.map bare) =
      ((tryWrite s key on written).1.bare, (tryWrite s key on written).2) := by
  cases written with
  | ok t => rfl
  | error e => cases e <;> simp [tryWrite, refusal, Except.map]

/-- Writing a member depends on the bare store only. -/
theorem blind_setMember (target : Value) (key : String) (v : Value) :
    Blind (setMember · target key v) := by
  intro s
  cases target with
  | cell c =>
    simp only [setMember, setCell_bare, held_bare, unwrap_bare, setCellProperty_bare, tryWrite_bare,
      Value.nullishName?]
    split
    · rfl
    · cases s.held c <;> rfl
  | object r =>
    simp only [setMember, setCell_bare, properties_bare, unwrap_bare, setProperty_bare,
      tryWrite_bare, Value.nullishName?]
    cases (s.properties r).find? key with
    | none => rfl
    | some v => cases v <;> rfl
  | _ => simp [setMember, tryWrite_bare, Value.nullishName?]

theorem afterMethod_bare (s : Store) (receiver held : Value) (name : String) :
    afterMethod s.bare receiver held name = (afterMethod s receiver held name).bare := by
  unfold afterMethod
  split
  · split
    · exact s.trigger_bare _
    · rfl
  · rfl

theorem blind_callBuiltinMember (receiver : Value) (name : String) (args : List Value)
    (optional : Bool) : Blind (callBuiltinMember · receiver name args optional) := by
  intro s
  unfold callBuiltinMember
  dsimp only
  rw [unwrap_bare, callBuiltin_bare]
  rcases s.callBuiltin (s.unwrap receiver) name args with _ | ⟨t, e | v⟩
  · simp only [Option.map_none, typeName_bare]
    split <;> rfl
  · rfl
  · simp only [Option.map_some, afterMethod_bare]

/-- Calling a member depends on the bare store only. -/
theorem blind_callMember (receiver : Value) (name : String) (args : List Value) (optional : Bool) :
    Blind (callMember · receiver name args optional) := by
  intro s
  have hown : ∀ held, ownMember? s.bare held name = ownMember? s held name := by
    intro held
    cases held <;> rfl
  have hfunction : ∀ f, callMemberFunction s.bare f args =
      ((callMemberFunction s f args).1.bare, (callMemberFunction s f args).2) := by
    intro f
    have hcall := blind_callFunction f args s
    unfold callMemberFunction
    dsimp only at hcall
    rw [hcall]
    rcases s.callFunction f args with ⟨t, e | v⟩ <;> rfl
  have hbuiltin := blind_callBuiltinMember receiver name args optional s
  simp only [callMember, unwrap_bare, hown, hfunction, hbuiltin]
  cases (s.unwrap receiver).nullishName? with
  | some base => rfl
  | none =>
    cases ownMember? s (s.unwrap receiver) name with
    | none => rfl
    | some member =>
      dsimp only
      cases s.unwrap member with
      | function f => rfl
      | _ =>
        dsimp only
        split <;> rfl

theorem unary_bare (s : Store) (op : UnaryOp) (v : Value) : unary s.bare op v = unary s op v := by
  cases op <;> simp [unary]

theorem binary_bare (s : Store) (op : BinaryOp) (v w : Value) :
    binary s.bare op v w = binary s op v w := by
  cases op <;> simp [binary, add, compareValues]

end Eval

end LiveMarkup
