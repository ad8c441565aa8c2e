import LiveMarkup.Eval.Member
import LiveMarkup.Proofs.Methods

/-!
# Writing up to names

Writing a cell, a property or a member in two stores with a naming between them is refused in both
or in neither, with the same failure, and the naming still fits.  So does calling a member, with a
naming that has more pairs.

## Main definitions

* `Naming.Writes` — the stores after writes that may be refused.

## Main results

* `Naming.Between.setCell` — cells.
* `Naming.Between.setProperty` — properties.
* `Naming.Between.setMember`, `Naming.Between.callMember` — members.
-/

namespace LiveMarkup

open Named (Same)
open Eval

/-- Stores after writes that may be refused. -/
inductive Naming.Writes (ρ : Naming) :
    Except PropertyError Store → Except PropertyError Store → Prop
  | ok {s t : Store} (h : ρ.Between s t) : ρ.Writes (.ok s) (.ok t)
  | error (e : PropertyError) : ρ.Writes (.error e) (.error e)

theorem Named.Same.resized {ρ : Naming} {xs ys : List Value} (hxs : Same ρ xs ys) (n : Nat) :
    Same ρ (LiveMarkup.resized xs n) (LiveMarkup.resized ys n) := by
  unfold LiveMarkup.resized
  rw [hxs.length_eq]
  exact (hxs.take n).append (Named.Same.replicate (SameValue.plain rfl) _)

/-- The request that follows a method shows in no value. -/
theorem keeps_afterMethod (s : Store) (receiver held : Value) (name : String) :
    s.Keeps [] (afterMethod s receiver held name) := by
  unfold afterMethod
  split
  · split
    · exact s.keeps_trigger _
    · exact .refl s
  · exact .refl s

namespace Naming.Between

variable {ρ : Naming} {s t : Store} {v w v' w' : Value} {args args' : List Value}
  (h : ρ.Between s t)

include h

/-! ### Cells -/

/-- A write to a cell counts in both stores or in neither. -/
theorem setCell {c d : CellRef} (hcd : ρ (.cell c) (.cell d)) (hv : Same ρ v w) :
    ρ.Between (s.setCell c v).1 (t.setCell d w).1 := by
  unfold Store.setCell
  rw [h.hasChanged (h.held hcd) hv]
  split
  · exact (h.commit hcd hv).trigger c d
  · exact h

/-! ### Properties -/

theorem setItem {a b : ArrayRef} (hab : ρ (.array a) (.array b)) (index : Nat) (hv : Same ρ v w) :
    ρ.Writes (s.setItem a index v) (t.setItem b index w) := by
  have hitems := h.items hab
  unfold Store.setItem
  dsimp only
  rw [hitems.length_eq]
  split
  · exact .ok (h.setItems hab (hitems.set hv index))
  · cases checkGrowth (t.items b).length index with
    | error e => exact .error e
    | ok => exact .ok (h.setItems hab ((hitems.resized index).append (.cons hv .nil)))

theorem setLength {a b : ArrayRef} (hab : ρ (.array a) (.array b)) (length : Nat) :
    ρ.Writes (s.setLength a length) (t.setLength b length) := by
  have hitems := h.items hab
  unfold Store.setLength
  dsimp only
  rw [hitems.length_eq]
  split
  · cases checkGrowth (t.items b).length (length - 1) with
    | error e => exact .error e
    | ok => exact .ok (h.setItems hab (hitems.resized length))
  · exact .ok (h.setItems hab (hitems.resized length))

theorem lengthAsked? (hv : Same ρ v w) : s.lengthAsked? v = t.lengthAsked? w := by
  unfold Store.lengthAsked?
  rw [h.toNumber hv]

theorem setProperty (hv : Same ρ v w) (key : String) (hv' : Same ρ v' w') :
    ρ.Writes (s.setProperty v key v') (t.setProperty w key w') := by
  cases hv with
  | plain hplain =>
    cases v with
    | array | object | cell => cases hplain
    | _ =>
      simp only [Store.setProperty, h.typeName (.plain hplain)]
      exact .error _
  | array hab =>
    simp only [Store.setProperty, h.lengthAsked? hv', h.display hv']
    split
    · split
      · exact h.setLength hab _
      · exact .error _
    · split
      · exact h.setItem hab _ hv'
      · exact .error _
  | object hab => exact .ok (h.setProperties hab ((h.properties hab).insert key hv'))
  | cell hcd =>
    simp only [Store.setProperty, h.typeName (.cell hcd)]
    exact .error _

theorem setCellProperty {c d : CellRef} (hcd : ρ (.cell c) (.cell d)) (key : String)
    (hv : Same ρ v w) : ρ.Writes (s.setCellProperty c key v) (t.setCellProperty d key w) := by
  have hwrites := h.setProperty (h.held hcd) key hv
  unfold Store.setCellProperty
  generalize s.setProperty (s.held c) key v = r, t.setProperty (t.held d) key w = r' at hwrites
  cases hwrites with
  | ok h => exact .ok (h.trigger c d)
  | error e => exact .error e

/-! ### Members -/

theorem tryWrite (key : String) {on on' : Value} (hon : Same ρ on on')
    {write write' : Except PropertyError Store} (hwrites : ρ.Writes write write') :
    ρ.Yields (Eval.tryWrite s key on write) (Eval.tryWrite t key on' write') := by
  cases hwrites with
  | ok h => exact .of_between h (.ok rfl)
  | error e =>
    refine .of_between h (.error ?_)
    cases e with
    | notWritable key' typeName =>
      exact congrArg (fun shown => EvalError.type (.cannotCreate key typeName shown))
        (h.display hon)
    | _ => rfl

/-- A member is written in both stores, or refused with the same failure. -/
theorem setMember (hv : Same ρ v w) (key : String) (hv' : Same ρ v' w') :
    ρ.Yields (Eval.setMember s v key v') (Eval.setMember t w key w') := by
  unfold Eval.setMember
  rw [hv.nullishName?]
  split
  · exact .of_between h (.error rfl)
  · cases hv with
    | plain hplain =>
      cases v with
      | array | object | cell => cases hplain
      | _ => exact h.tryWrite key (.plain hplain) (h.setProperty (.plain hplain) key hv')
    | array hab => exact h.tryWrite key (.array hab) (h.setProperty (.array hab) key hv')
    | object hab =>
      -- a property that holds a cell is written through to the cell
      have hwrite := h.tryWrite key (.object hab) (h.setProperty (.object hab) key hv')
      have hfind := (h.properties hab).find? key
      dsimp only
      generalize (s.properties _).find? key = o, (t.properties _).find? key = o' at hfind
      cases hfind with
      | none => exact hwrite
      | @some x y hx =>
        cases hx with
        | plain hplain =>
          cases x with
          | cell => cases hplain
          | _ => exact hwrite
        | array => exact hwrite
        | object => exact hwrite
        | cell hcd => exact .of_between (h.setCell hcd (h.unwrap hv')) (.ok rfl)
    | cell hcd =>
      have hheld := h.held hcd
      dsimp only
      rw [hheld.nullishName?]
      split
      · exact .of_between (h.setCell hcd (h.unwrap hv')) (.ok rfl)
      · split
        · exact .of_between h (.error rfl)
        · exact h.tryWrite key hheld (h.setCellProperty hcd key hv')

theorem ownMember? (hv : Same ρ v w) (name : String) :
    Same ρ (Eval.ownMember? s v name) (Eval.ownMember? t w name) := by
  cases hv with
  | plain hplain =>
    cases v with
    | object => cases hplain
    | _ => exact .none
  | array hab => exact .none
  | object hab => exact (h.properties hab).find? name
  | cell hcd => exact .none

/-- Where there is nothing to call, an optional call gives nothing and any other fails. -/
theorem nothingToCall (name : String) (optional : Bool) :
    ρ.Yields
      (if optional then (s, .ok none) else (s, .error (.notCallable name)) : Outcome (Option Value))
      (if optional then (t, .ok none) else (t, .error (.notCallable name))) := by
  split
  · exact .of_between h (.ok .none)
  · exact .of_between h (.error rfl)

theorem callBuiltinMember (hv : Same ρ v w) (name : String) (hargs : Same ρ args args')
    (optional : Bool) :
    ρ.Yields (Eval.callBuiltinMember s v name args optional)
      (Eval.callBuiltinMember t w name args' optional) := by
  have hheld := h.unwrap hv
  have hcall := h.callBuiltin hheld name hargs
  simp only [Eval.callBuiltinMember, h.typeName hheld]
  generalize s.callBuiltin (s.unwrap v) name args = o, t.callBuiltin (t.unwrap w) name args' = o'
    at hcall
  cases hcall with
  | none => exact h.nothingToCall _ optional
  | @some x y hyields =>
    obtain ⟨ρ', hle, hstores, hresult⟩ := hyields
    obtain ⟨s', r⟩ := x
    obtain ⟨t', r'⟩ := y
    cases hresult with
    | ok hv' =>
      exact ⟨ρ', hle, hstores.kept (keeps_afterMethod _ _ _ _) (keeps_afterMethod _ _ _ _),
        .ok (.some hv')⟩
    | error he => exact ⟨ρ', hle, hstores, .error he⟩

theorem callMemberFunction (f : Function) (hargs : Same ρ args args') :
    ρ.Yields (Eval.callMemberFunction s f args) (Eval.callMemberFunction t f args') := by
  obtain ⟨ρ', hle, hstores, hresult⟩ := h.callFunction f hargs
  unfold Eval.callMemberFunction
  generalize s.callFunction f args = o, t.callFunction f args' = o' at hstores hresult
  obtain ⟨s', r⟩ := o
  obtain ⟨t', r'⟩ := o'
  cases hresult with
  | ok hv => exact ⟨ρ', hle, hstores, .ok (.some hv)⟩
  | error he => exact ⟨ρ', hle, hstores, .error he⟩

/-- A member is called in both stores, or there is nothing to call in either. -/
theorem callMember (hv : Same ρ v w) (name : String) (hargs : Same ρ args args')
    (optional : Bool) :
    ρ.Yields (Eval.callMember s v name args optional)
      (Eval.callMember t w name args' optional) := by
  have hheld := h.unwrap hv
  have hmember := h.ownMember? hheld name
  simp only [Eval.callMember, hheld.nullishName?]
  split
  · exact .of_between h (.error rfl)
  · generalize Eval.ownMember? s (s.unwrap v) name = o, Eval.ownMember? t (t.unwrap w) name = o'
      at hmember
    cases hmember with
    | none => exact h.callBuiltinMember hv name hargs optional
    | @some x y hx =>
      have hfunction := h.unwrap hx
      dsimp only
      generalize s.unwrap x = a, t.unwrap y = b at hfunction
      cases hfunction with
      | plain hplain =>
        cases a with
        | function f => exact h.callMemberFunction f hargs
        | _ => exact h.nothingToCall name _
      | array => exact h.nothingToCall name _
      | object => exact h.nothingToCall name _
      | cell => exact h.nothingToCall name _

end Naming.Between

end LiveMarkup
