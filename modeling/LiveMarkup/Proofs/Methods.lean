import LiveMarkup.Builtin.Method
import LiveMarkup.Proofs.Reading

/-!
# Methods and functions up to names

A builtin method or function that is called in two stores with a naming between them gives results
that are the same up to the naming, or fails with the same failure, and leaves stores that a naming
with more pairs fits: one more if an array has been made.

## Main results

* `Naming.Between.stringMethod`, `Naming.Between.arrayMethod` — methods of texts and arrays.
* `Naming.Between.callBuiltin` — any builtin method.
* `Naming.Between.callFunction` — any function.
-/

namespace LiveMarkup

open Named (Same)
open Number

/-! ### Arguments -/

theorem Named.Same.argument {ρ : Naming} {args args' : List Value} (hargs : Same ρ args args')
    (i : Nat) : Same ρ (LiveMarkup.argument args i) (LiveMarkup.argument args' i) := by
  unfold LiveMarkup.argument
  rw [List.getD_eq_getElem?_getD, List.getD_eq_getElem?_getD]
  exact (hargs.getElem? i).getD (.plain rfl)

/-- An argument if it is given: `undefined` stands for one that is left out. -/
def given? : Option Value → Option Value
  | none | some .undefined => none
  | some v => some v

theorem textOr_eq (s : Store) (default : String) (o : Option Value) :
    StringMethod.textOr s default o = (given? o).elim default s.display := by
  rcases o with _ | v
  · rfl
  · cases v <;> rfl

/-- The pieces of a text at a separator that is given. -/
def splitText (text : List Char) (separator : String) : List Value :=
  match separator.toList with
  | [] => text.map fun c => .ofChars [c]
  | separator => (Text.splitAt separator text).map .ofChars

theorem pieces_eq (s : Store) (text : List Char) (o : Option Value) :
    StringMethod.pieces s text o =
      (given? o).elim [.ofChars text] fun v => splitText text (s.display v) := by
  rcases o with _ | v
  · rfl
  · cases v <;> rfl

theorem fixedText_eq (s : Store) (x : Float) (o : Option Value) :
    NumberMethod.fixedText s x o =
      let places := (given? o).elim 0 fun v => toInteger (s.toNumber v)
      if 0 ≤ places ∧ places ≤ 100 then .ok (.string (writtenFixed x places.toNat))
      else .error (.type .fixedDigits) := by
  rcases o with _ | v
  · rfl
  · cases v <;> rfl

theorem Named.Same.given? {ρ : Naming} {o o' : Option Value} (ho : Same ρ o o') :
    Same ρ (LiveMarkup.given? o) (LiveMarkup.given? o') := by
  cases ho with
  | none => exact .none
  | @some v w hv =>
    cases hv with
    | plain hplain =>
      cases v with
      | undefined => exact .none
      | _ => exact .some (.plain hplain)
    | array hab => exact .some (.array hab)
    | object hab => exact .some (.object hab)
    | cell hcd => exact .some (.cell hcd)

/-! ### Results that refer to nothing -/

theorem plain_of_mem_pieces {s : Store} {v : Value} {text : List Char} {o : Option Value}
    (hv : v ∈ StringMethod.pieces s text o) : v.entity? = none := by
  unfold StringMethod.pieces at hv
  split at hv
  · rw [List.mem_singleton.1 hv]; rfl
  · rw [List.mem_singleton.1 hv]; rfl
  · split at hv <;>
    · obtain ⟨_, -, rfl⟩ := List.mem_map.1 hv
      rfl

theorem same_repeatText (ρ : Naming) (text : List Char) (count : Float) :
    Same ρ (StringMethod.repeatText text count) (StringMethod.repeatText text count) := by
  unfold StringMethod.repeatText
  split
  · exact .error rfl
  · dsimp only
    split
    · exact .ok (.plain rfl)
    · split
      · exact .ok (.plain rfl)
      · exact .error rfl

theorem same_map_ofChars (ρ : Naming) (result : Except Eval.EvalError (List Char))
    (f : List Char → List Char) :
    Same ρ (result.map fun cs => Value.ofChars (f cs)) (result.map fun cs => .ofChars (f cs)) := by
  cases result with
  | ok cs => exact .ok (.plain rfl)
  | error e => exact .error rfl

theorem plain_builtinFunction (f : BuiltinFunction) (s : Store) (args : List Value) :
    (f.apply s args).entity? = none := by
  cases f <;> rfl

namespace Naming.Between

variable {ρ : Naming} {s t : Store} {v w : Value} {args args' : List Value} (h : ρ.Between s t)

include h

/-! ### Positions and texts asked for -/

theorem relativeIndex (hv : Same ρ v w) (length default : Nat) :
    s.relativeIndex v length default = t.relativeIndex w length default := by
  unfold Store.relativeIndex
  rw [hv.isNullish, h.toNumber hv]

theorem elementIndex? (hv : Same ρ v w) (length : Nat) :
    s.elementIndex? v length = t.elementIndex? w length := by
  unfold Store.elementIndex?
  rw [h.toNumber hv]

theorem clampedIndex (hv : Same ρ v w) (length default : Nat) :
    s.clampedIndex v length default = t.clampedIndex w length default := by
  unfold Store.clampedIndex
  rw [hv.isNullish, h.toNumber hv]

theorem textOr {o o' : Option Value} (ho : Same ρ o o') (default : String) :
    StringMethod.textOr s default o = StringMethod.textOr t default o' := by
  rw [textOr_eq, textOr_eq]
  exact ho.given?.elim_eq (fun _ _ hv => h.display hv) default

theorem pieces {o o' : Option Value} (ho : Same ρ o o') (text : List Char) :
    StringMethod.pieces s text o = StringMethod.pieces t text o' := by
  rw [pieces_eq, pieces_eq]
  exact ho.given?.elim_eq (fun _ _ hv => congrArg (splitText text) (h.display hv)) _

/-! ### Methods of texts -/

/-- A method of a text gives the same. -/
theorem stringMethod (m : StringMethod) (text : String) (hargs : Same ρ args args') :
    ρ.Yields (m.apply text args s) (m.apply text args' t) := by
  have hargument := hargs.argument
  have htext : ∀ i, s.display (argument args i) = t.display (argument args' i) :=
    fun i => h.display (hargument i)
  have hnumber : ∀ i, s.toNumber (argument args i) = t.toNumber (argument args' i) :=
    fun i => h.toNumber (hargument i)
  cases m with
  | toUpperCase | toLowerCase | trim | trimStart | trimEnd => exact .of_between h (.ok (.plain rfl))
  | includes | startsWith | endsWith | indexOf | replace | replaceAll =>
    simp only [StringMethod.apply, htext]
    exact .of_between h (.ok (.plain rfl))
  | slice =>
    simp only [StringMethod.apply, h.relativeIndex (hargument _)]
    exact .of_between h (.ok (.plain rfl))
  | substring =>
    simp only [StringMethod.apply, h.clampedIndex (hargument _)]
    exact .of_between h (.ok (.plain rfl))
  | split =>
    simp only [StringMethod.apply, h.pieces hargs.head?]
    refine (h.newArrayValue (List.forall₂_same.2 fun v hv => ?_)).map fun _ _ hv => .ok hv
    exact .plain (plain_of_mem_pieces hv)
  | repeated =>
    simp only [StringMethod.apply, hnumber]
    exact .of_between h (same_repeatText _ _ _)
  | padStart =>
    simp only [StringMethod.apply, hnumber, h.textOr (hargs.getElem? 1)]
    exact .of_between h (same_map_ofChars _ _ _)
  | padEnd =>
    simp only [StringMethod.apply, hnumber, h.textOr (hargs.getElem? 1)]
    exact .of_between h (same_map_ofChars _ _ _)
  | charAt =>
    simp only [StringMethod.apply, hnumber]
    exact .of_between h (.ok (.plain rfl))
  | «at» =>
    simp only [StringMethod.apply, h.elementIndex? (hargument 0)]
    refine .of_between h (.ok ?_)
    split <;> exact .plain rfl
  | concat =>
    have hjoined := hargs.foldl_eq (f := fun x v => x ++ s.display v)
      (g := fun x v => x ++ t.display v) (fun x _ _ hv => congrArg (x ++ ·) (h.display hv)) text
    simp only [StringMethod.apply, hjoined]
    exact .of_between h (.ok (.plain rfl))

/-! ### Methods of arrays and numbers -/

theorem sameElement {v' w' : Value} (hv : Same ρ v w) (hv' : Same ρ v' w') :
    ArrayMethod.sameElement v v' = ArrayMethod.sameElement w w' := by
  unfold ArrayMethod.sameElement
  rw [h.strictEquals hv hv']
  congr 1
  cases hv <;> cases hv' <;> first | rfl | (cases v <;> rfl)

theorem joined {xs ys : List Value} (hxs : Same ρ xs ys) (separator : String) :
    ArrayMethod.joined s separator xs = ArrayMethod.joined t separator ys := by
  refine congrArg (String.intercalate separator) (hxs.map_eq fun v w hv => ?_)
  rw [hv.isNullish, h.display hv]

theorem added (hv : Same ρ v w) : Same ρ (ArrayMethod.added s v) (ArrayMethod.added t w) := by
  unfold ArrayMethod.added
  have hheld := h.unwrap hv
  generalize s.unwrap v = x, t.unwrap w = y at hheld
  cases hheld with
  | plain hplain =>
    cases x with
    | array => cases hplain
    | _ => exact .cons (.plain hplain) .nil
  | array hab => exact h.items hab
  | object hab => exact .cons (.object hab) .nil
  | cell hcd => exact .cons (.cell hcd) .nil

theorem removedCount {o o' : Option Value} (ho : Same ρ o o') (remaining : Nat) :
    ArrayMethod.removedCount s o remaining = ArrayMethod.removedCount t o' remaining := by
  cases ho with
  | none => rfl
  | some hv => simp only [ArrayMethod.removedCount, h.toNumber hv]

/-- A method of an array gives the same and changes the array alike. -/
theorem arrayMethod (m : ArrayMethod) {a b : ArrayRef} (hab : ρ (.array a) (.array b))
    (hargs : Same ρ args args') : ρ.Yields (m.apply a args s) (m.apply b args' t) := by
  have hitems := h.items hab
  have hlength := hitems.length_eq
  have hargument := hargs.argument
  cases m with
  | push =>
    refine ⟨ρ, le_rfl, h.setItems hab (hitems.append hargs), ?_⟩
    simp only [ArrayMethod.apply, ArrayMethod.counted, Store.push, List.length_append, hlength,
      hargs.length_eq]
    exact .plain rfl
  | pop => exact ⟨ρ, le_rfl, h.setItems hab hitems.dropLast, hitems.getLast?.getD (.plain rfl)⟩
  | shift => exact ⟨ρ, le_rfl, h.setItems hab hitems.tail, hitems.head?.getD (.plain rfl)⟩
  | unshift =>
    refine ⟨ρ, le_rfl, h.setItems hab (hargs.append hitems), ?_⟩
    simp only [ArrayMethod.apply, ArrayMethod.counted, Store.unshift, List.length_append, hlength,
      hargs.length_eq]
    exact .plain rfl
  | reverse => exact ⟨ρ, le_rfl, h.setItems hab hitems.reverse, .array hab⟩
  | includes =>
    have hany := hitems.any_eq fun v w hv => h.sameElement hv (hargument 0)
    simp only [ArrayMethod.apply, hany]
    exact .of_between h (.plain rfl)
  | indexOf =>
    have hfind := hitems.findIdx?_eq fun v w hv => h.strictEquals hv (hargument 0)
    simp only [ArrayMethod.apply, hfind]
    exact .of_between h (.plain rfl)
  | join =>
    simp only [ArrayMethod.apply, h.textOr hargs.head?, h.joined hitems]
    exact .of_between h (.plain rfl)
  | slice =>
    simp only [ArrayMethod.apply, hlength, h.relativeIndex (hargument _)]
    exact h.newArrayValue ((hitems.take _).drop _)
  | concat => exact h.newArrayValue (hitems.append (hargs.flatMap fun _ _ hv => h.added hv))
  | «at» =>
    simp only [ArrayMethod.apply, hlength, h.elementIndex? (hargument 0)]
    refine .of_between h ?_
    cases t.elementIndex? (argument args' 0) (t.items b).length with
    | none => exact .plain rfl
    | some i => exact (hitems.getElem? i).getD (.plain rfl)
  | splice =>
    -- what is taken out comes back as an array of its own
    simp only [ArrayMethod.apply, hlength, h.relativeIndex (hargument 0),
      h.removedCount (hargs.getElem? 1)]
    exact (h.setItems hab (((hitems.take _).append (hargs.drop 2)).append
      (hitems.drop _))).newArrayValue ((hitems.drop _).take _)

theorem fixedText {o o' : Option Value} (ho : Same ρ o o') (x : Float) :
    Same ρ (NumberMethod.fixedText s x o) (NumberMethod.fixedText t x o') := by
  rw [fixedText_eq, fixedText_eq,
    ho.given?.elim_eq (fun _ _ hv => congrArg toInteger (h.toNumber hv)) 0]
  dsimp only
  split
  · exact .ok (.plain rfl)
  · exact .error rfl

theorem radixText (hv : Same ρ v w) (x : Float) :
    Same ρ (NumberMethod.radixText s x v) (NumberMethod.radixText t x w) := by
  simp only [NumberMethod.radixText, h.toNumber hv]
  split
  · exact .ok (.plain rfl)
  · exact .error rfl

theorem numberMethod (hargs : Same ρ args args') (x : Float) (name : String) :
    Same ρ (NumberMethod.call? s x name args) (NumberMethod.call? t x name args') := by
  unfold NumberMethod.call?
  split
  · exact .some (h.fixedText hargs.head? x)
  · have hfirst := hargs.head?
    generalize args.head? = o, args'.head? = o' at hfirst
    cases hfirst with
    | none => exact .none
    | some hv =>
      dsimp only
      rw [hv.isNullish]
      split
      · exact .none
      · exact .some (h.radixText hv x)
  · exact .none

/-! ### Methods of values -/

theorem ownMethod? (hv : Same ρ v w) (name : String) (hargs : Same ρ args args') :
    Option.Rel ρ.Yields (s.ownMethod? v name args) (t.ownMethod? w name args') := by
  cases hv with
  | plain hplain =>
    cases v with
    | array => cases hplain
    | string text =>
      unfold Store.ownMethod?
      cases StringMethod.named.lookup name with
      | none => exact .none
      | some m => exact .some (h.stringMethod m text hargs)
    | number x =>
      have hresult := h.numberMethod hargs x name
      unfold Store.ownMethod?
      dsimp only
      generalize NumberMethod.call? s x name args = o, NumberMethod.call? t x name args' = o'
        at hresult
      cases hresult with
      | none => exact .none
      | some hresult => exact .some (.of_between h hresult)
    | _ => exact .none
  | array hab =>
    unfold Store.ownMethod?
    cases ArrayMethod.named.lookup name with
    | none => exact .none
    | some m => exact .some ((h.arrayMethod m hab hargs).map fun _ _ hv => .ok hv)
  | object hab => exact .none
  | cell hcd => exact .none

theorem commonMethod? (hv : Same ρ v w) (name : String) :
    Same ρ (s.commonMethod? v name) (t.commonMethod? w name) := by
  unfold Store.commonMethod?
  split
  · rw [h.display hv]
    exact .some (.plain rfl)
  · exact .some hv
  · exact .none

/-- There is the same builtin method, and it gives the same. -/
theorem callBuiltin (hv : Same ρ v w) (name : String) (hargs : Same ρ args args') :
    Option.Rel ρ.Yields (s.callBuiltin v name args) (t.callBuiltin w name args') := by
  have hown := h.ownMethod? hv name hargs
  have hcommon := h.commonMethod? hv name
  unfold Store.callBuiltin
  generalize s.ownMethod? v name args = own, t.ownMethod? w name args' = own' at hown
  generalize s.commonMethod? v name = common, t.commonMethod? w name = common' at hcommon
  cases hown with
  | some hyields => exact .some hyields
  | none =>
    cases hcommon with
    | none => exact .none
    | some hv => exact .some (.of_between h (.ok hv))

/-! ### Functions -/

theorem builtinFunction (f : BuiltinFunction) (hargs : Same ρ args args') :
    f.apply s args = f.apply t args' := by
  have hfirst := hargs.argument 0
  have hnumbers : args.map s.toNumber = args'.map t.toNumber :=
    hargs.map_eq fun _ _ hv => h.toNumber hv
  cases f with
  | string => exact congrArg Value.string (h.display hfirst)
  | number =>
    cases hargs with
    | nil => rfl
    | cons hv _ => exact congrArg Value.number (h.toNumber hv)
  | boolean => exact congrArg Value.bool (h.isTruthy hfirst)
  | parseInt =>
    have hradix := congrArg (·[1]?) hnumbers
    simp only [List.getElem?_map] at hradix
    simp only [BuiltinFunction.apply, h.display hfirst, hradix]
  | parseFloat => simp only [BuiltinFunction.apply, h.display hfirst]
  | isNaN => simp only [BuiltinFunction.apply, h.toNumber hfirst]
  | math f => simp only [BuiltinFunction.apply, hnumbers]

theorem callHost (f : HostFunction) (hargs : Same ρ args args') :
    ρ.Yields (s.callHost f args) (t.callHost f args') := by
  have hargument := hargs.argument 0
  cases f with
  | echo => exact .of_between h (.ok hargument)
  | argc =>
    simp only [Store.callHost, hargs.length_eq]
    exact .of_between h (.ok (.plain rfl))
  | sum =>
    simp only [Store.callHost, hargs.map_eq fun _ _ hv => h.toNumber hv]
    exact .of_between h (.ok (.plain rfl))
  | fail =>
    simp only [Store.callHost, h.display hargument]
    exact .of_between h (.error rfl)
  | record =>
    refine .of_between (h.kept ?_ ?_) (.ok (.plain rfl)) <;>
    exact Store.keeps_of_eq rfl rfl rfl

/-- A function gives the same. -/
theorem callFunction (f : Function) (hargs : Same ρ args args') :
    ρ.Yields (s.callFunction f args) (t.callFunction f args') := by
  cases f with
  | builtin f =>
    refine .of_between h (.ok ?_)
    rw [h.builtinFunction f hargs]
    exact .plain (plain_builtinFunction f t args')
  | host f id => exact h.callHost f hargs

end Naming.Between

end LiveMarkup
