import LiveMarkup.Eval.Member
import LiveMarkup.Eval.Operator
import LiveMarkup.Proofs.Chains
import LiveMarkup.Proofs.Naming

/-!
# Reading up to names

Whatever an expression asks of a value is the same in two stores with a naming between them: the
texts, numbers and truth values it is taken for, what operators make of it, whether writing it would
count as a change, and, up to the naming, the properties it has.

## Main results

* `Naming.Between.display`, `Naming.Between.toNumber` — coercions.
* `Naming.Between.unary`, `Naming.Between.binary` — operators.
* `Naming.Between.hasChanged` — the change policy.
* `Naming.Between.getMember` — members.
-/

namespace LiveMarkup

open Named (Same)
open Syntax Number

/-- Operators compute values that refer to nothing. -/
theorem plain_unary (s : Store) (op : UnaryOp) (v : Value) :
    (Eval.unary s op v).entity? = none := by
  cases op <;> rfl

theorem plain_binary (s : Store) (op : BinaryOp) (v w : Value) :
    (Eval.binary s op v w).entity? = none := by
  cases op with
  | add =>
    show (Eval.add s v w).entity? = none
    unfold Eval.add
    split <;> rfl
  | _ => rfl

namespace Naming.Between

variable {ρ : Naming} {s t : Store} {v w v' w' : Value} (h : ρ.Between s t)

include h

/-! ### Cells and texts -/

theorem followCells (hv : Same ρ v w) (n : Nat) :
    Same ρ (s.followCells n v) (t.followCells n w) := by
  induction n generalizing v w with
  | zero => exact .plain rfl
  | succ n ih =>
    cases hv with
    | plain hplain =>
      cases v with
      | array | object | cell => cases hplain
      | _ => exact .plain rfl
    | array hab => exact .array hab
    | object hab => exact .object hab
    | cell hcd => exact ih (h.held hcd)

theorem resolve (hv : Same ρ v w) : Same ρ (s.resolve v) (t.resolve w) := by
  -- the stores have different numbers of cells; the larger bound serves for both
  have hs := s.followCells_eq_resolve (n := max s.cells.size t.cells.size + 1) (by omega) v
  have ht := t.followCells_eq_resolve (n := max s.cells.size t.cells.size + 1) (by omega) w
  rw [← hs, ← ht]
  exact h.followCells hv _

theorem mem_iff {a b : ArrayRef} {joining joining' : List ArrayRef}
    (hjoining : List.Forall₂ (fun a b => ρ (.array a) (.array b)) joining joining')
    (hab : ρ (.array a) (.array b)) : a ∈ joining ↔ b ∈ joining' := by
  induction hjoining with
  | nil => simp
  | cons hhead _ ih =>
    have heq := h.one_to_one hab hhead
    simp only [Entity.array.injEq] at heq
    rw [List.mem_cons, List.mem_cons, heq, ih]

theorem displayWithin (hv : Same ρ v w) (n : Nat) {joining joining' : List ArrayRef}
    (hjoining : List.Forall₂ (fun a b => ρ (.array a) (.array b)) joining joining') :
    s.displayWithin n joining v = t.displayWithin n joining' w := by
  induction n generalizing v w joining joining' with
  | zero => rfl
  | succ n ih =>
    cases hv with
    | plain hplain =>
      cases v with
      | array | object | cell => cases hplain
      | _ => rfl
    | array hab =>
      have hitems := (h.items hab).map_eq fun x y hxy =>
        show (if x.isNullish then "" else s.displayWithin n (_ :: joining) x) =
            if y.isNullish then "" else t.displayWithin n (_ :: joining') y by
          rw [hxy.isNullish, ih hxy (.cons hab hjoining)]
      simp only [Store.displayWithin, h.mem_iff hjoining hab, hitems]
    | object hab => rfl
    | cell hcd => exact ih (h.held hcd) hjoining

/-- Values that are the same have the same text. -/
theorem display (hv : Same ρ v w) : s.display v = t.display w := by
  rw [← s.displayWithin_eq_display (Nat.le_max_left _ t.displayDepth),
    ← t.displayWithin_eq_display (Nat.le_max_right s.displayDepth _)]
  exact h.displayWithin hv _ .nil

/-! ### Coercions -/

theorem typeName (hv : Same ρ v w) : s.typeName v = t.typeName w := (h.resolve hv).typeName

theorem isTruthy (hv : Same ρ v w) : s.isTruthy v = t.isTruthy w :=
  (h.resolve hv).isTruthy

theorem toNumber (hv : Same ρ v w) : s.toNumber v = t.toNumber w := by
  unfold Store.toNumber
  have hend := h.resolve hv
  generalize s.resolve v = x, t.resolve w = y at hend
  cases hend with
  | plain hplain =>
    cases x with
    | array => cases hplain
    | _ => rfl
  | array hab => exact congrArg ofText (h.display (.array hab))
  | object hab => rfl
  | cell hcd => rfl

/-- What operators work with is the same, and no reference. -/
theorem toPrimitive (hv : Same ρ v w) :
    s.toPrimitive v = t.toPrimitive w ∧ (s.toPrimitive v).entity? = none := by
  unfold Store.toPrimitive
  have hend := h.resolve hv
  have hcell := s.not_isCell_resolve v
  generalize s.resolve v = x, t.resolve w = y at hend hcell
  cases hend with
  | plain hplain =>
    cases x with
    | array | object | cell => cases hplain
    | _ => exact ⟨rfl, rfl⟩
  | array hab => exact ⟨congrArg Value.string (h.display (.array hab)), rfl⟩
  | object hab => exact ⟨congrArg Value.string (h.display (.object hab)), rfl⟩
  | cell hcd => exact absurd ⟨_, rfl⟩ hcell

theorem propertyKey (hv : Same ρ v w) : s.propertyKey v = t.propertyKey w :=
  h.display (h.resolve hv)

/-! ### Equalities -/

theorem looseEqualsWithin (n : Nat) (hv : Same ρ v w) (hv' : Same ρ v' w') :
    s.looseEqualsWithin n v v' = t.looseEqualsWithin n w w' := by
  induction n generalizing v w v' w' with
  | zero => rfl
  | succ n ih =>
    simp only [Store.looseEqualsWithin]
    have ha := h.unwrap hv
    have hb := h.unwrap hv'
    generalize s.unwrap v = a, t.unwrap w = c at ha
    generalize s.unwrap v' = b, t.unwrap w' = d at hb
    rw [ha.isNullish, hb.isNullish]
    split
    · rfl
    · have hnumber := h.toNumber ha
      have hnumber' := h.toNumber hb
      have htext := h.display ha
      have htext' := h.display hb
      rw [hnumber, hnumber', htext, htext', h.strictEquals ha hb]
      have hleft : ∀ x : Value, x.entity? = none →
          s.looseEqualsWithin n x b = t.looseEqualsWithin n x d := fun x hx => ih (.plain hx) hb
      have hright : ∀ x : Value, x.entity? = none →
          s.looseEqualsWithin n a x = t.looseEqualsWithin n c x := fun x hx => ih ha (.plain hx)
      -- how to go on is chosen by the kinds of the values, and those are the same
      cases ha <;> cases hb
      case plain.plain =>
        cases a <;> cases b <;> first | rfl | exact hleft _ rfl | exact hright _ rfl
      case plain.array | plain.object | plain.cell =>
        cases a <;> first | rfl | exact hleft _ rfl | exact hright _ rfl
      case array.plain | object.plain | cell.plain =>
        cases b <;> first | rfl | exact hleft _ rfl | exact hright _ rfl
      all_goals rfl

theorem someDiffer {xs ys xs' ys' : List Value} (hx : Same ρ xs ys) (hx' : Same ρ xs' ys') :
    Store.someDiffer xs xs' = Store.someDiffer ys ys' :=
  (hx.zip hx').any_eq fun _ _ hpq => congrArg Bool.not (h.strictEquals hpq.1 hpq.2)

/-- Whether writing a value counts as a change is the same. -/
theorem hasChanged (hv : Same ρ v w) (hv' : Same ρ v' w') :
    s.hasChanged v v' = t.hasChanged w w' := by
  unfold Store.hasChanged
  rw [h.strictEquals hv hv', hv.isNullish, hv'.isNullish]
  split
  · rfl
  · split
    · rfl
    · cases hv with
      | plain hplain =>
        cases v with
        | array | object => cases hplain
        | _ => rfl
      | array hab =>
        cases hv' with
        | plain hplain' =>
          cases v' with
          | array => cases hplain'
          | _ => rfl
        | array hab' =>
          have hx := h.items hab
          have hx' := h.items hab'
          show (_ || _) = (_ || _)
          rw [hx.length_eq, hx'.length_eq, h.someDiffer hx hx']
        | _ => rfl
      | object hab =>
        cases hv' with
        | plain hplain' =>
          cases v' with
          | object => cases hplain'
          | _ => rfl
        | object hab' =>
          have hp := h.properties hab
          have hp' := h.properties hab'
          show (_ || _) = (_ || _)
          rw [hp.size_eq, hp'.size_eq]
          congr 1
          refine Named.Same.any_eq (α := String × Value) hp' fun p q hpq => congrArg Bool.not ?_
          rw [show p.1 = q.1 from hpq.1]
          exact h.strictEquals ((hp.find? q.1).getD (.plain rfl)) hpq.2
        | _ => rfl
      | cell hcd => rfl

/-! ### Operators -/

theorem compareValues (hv : Same ρ v w) (hv' : Same ρ v' w') :
    Eval.compareValues s v v' = Eval.compareValues t w w' := by
  obtain ⟨heq, hplain⟩ := h.toPrimitive hv
  obtain ⟨heq', hplain'⟩ := h.toPrimitive hv'
  unfold Eval.compareValues
  rw [← heq, ← heq']
  generalize s.toPrimitive v = a at hplain
  generalize s.toPrimitive v' = b at hplain'
  cases a with
  | string x =>
    cases b with
    | string y => rfl
    | _ =>
      exact congrArg₂ Eval.compareNumbers (h.toNumber (.plain hplain)) (h.toNumber (.plain hplain'))
  | _ =>
    exact congrArg₂ Eval.compareNumbers (h.toNumber (.plain hplain)) (h.toNumber (.plain hplain'))

theorem add_eq (hv : Same ρ v w) (hv' : Same ρ v' w') : Eval.add s v v' = Eval.add t w w' := by
  obtain ⟨heq, hplain⟩ := h.toPrimitive hv
  obtain ⟨heq', hplain'⟩ := h.toPrimitive hv'
  unfold Eval.add
  rw [← heq, ← heq']
  generalize s.toPrimitive v = a at hplain
  generalize s.toPrimitive v' = b at hplain'
  cases a with
  | string x => exact congrArg (fun y => Value.string (x ++ y)) (h.display (.plain hplain'))
  | _ =>
    cases b with
    | string y => exact congrArg (fun x => Value.string (x ++ y)) (h.display (.plain hplain))
    | _ =>
      exact congrArg₂ (fun x y => Value.number (x + y)) (h.toNumber (.plain hplain))
        (h.toNumber (.plain hplain'))

/-- Unary operators compute the same. -/
theorem unary (op : UnaryOp) (hv : Same ρ v w) : Eval.unary s op v = Eval.unary t op w := by
  unfold Eval.unary
  rw [h.isTruthy hv, h.toNumber hv, h.typeName hv]

/-- Binary operators compute the same. -/
theorem binary (op : BinaryOp) (hv : Same ρ v w) (hv' : Same ρ v' w') :
    Eval.binary s op v v' = Eval.binary t op w w' := by
  unfold Eval.binary
  rw [h.add_eq hv hv', h.toNumber hv, h.toNumber hv', h.compareValues hv hv',
    Store.looseEquals, Store.looseEquals, h.looseEqualsWithin 4 hv hv',
    h.strictEquals (h.unwrap hv) (h.unwrap hv')]

theorem same_unary (op : UnaryOp) (hv : Same ρ v w) :
    Same ρ (Eval.unary s op v) (Eval.unary t op w) := by
  rw [h.unary op hv]
  exact .plain (plain_unary t op w)

theorem same_binary (op : BinaryOp) (hv : Same ρ v w) (hv' : Same ρ v' w') :
    Same ρ (Eval.binary s op v v') (Eval.binary t op w w') := by
  rw [h.binary op hv hv']
  exact .plain (plain_binary t op w w')

/-! ### Properties -/

theorem ownProperty (hv : Same ρ v w) (key : String) :
    Same ρ (s.ownProperty v key) (t.ownProperty w key) := by
  cases hv with
  | plain hplain =>
    cases v with
    | array | object | cell => cases hplain
    | string x =>
      simp only [Store.ownProperty]
      split
      · exact .plain rfl
      · split <;> exact .plain rfl
    | _ => exact .plain rfl
  | array hab =>
    have hitems := h.items hab
    simp only [Store.ownProperty, hitems.length_eq]
    split
    · exact .plain rfl
    · cases indexOfKey? key with
      | none => exact .plain rfl
      | some i => exact (hitems.getElem? i).getD (.plain rfl)
  | object hab => exact ((h.properties hab).find? key).getD (.plain rfl)
  | cell hcd => exact .plain rfl

theorem plainMember (hv : Same ρ v w) (key : String) :
    Same ρ (Eval.plainMember s v key) (Eval.plainMember t w key) := by
  unfold Eval.plainMember
  rw [hv.nullishName?]
  split
  · exact .error rfl
  · cases hv with
    | plain hplain =>
      cases v with
      | function f =>
        refine .ok ?_
        split <;> exact .plain rfl
      | _ => exact .ok (h.ownProperty (.plain hplain) key)
    | array hab => exact .ok (h.ownProperty (.array hab) key)
    | object hab => exact .ok (h.ownProperty (.object hab) key)
    | cell hcd => exact .ok (h.ownProperty (.cell hcd) key)

/-- A member of a value is the same, or there is the same failure. -/
theorem getMember (hv : Same ρ v w) (key : String) :
    Same ρ (Eval.getMember s v key) (Eval.getMember t w key) := by
  cases hv with
  | plain hplain =>
    cases v with
    | array | object | cell => cases hplain
    | _ => exact h.plainMember (.plain hplain) key
  | array hab => exact h.plainMember (.array hab) key
  | object hab => exact h.plainMember (.object hab) key
  | cell hcd =>
    have hprevious := h.previous hcd
    simp only [Eval.getMember]
    split
    · exact .ok (h.held hcd)
    · exact .ok (hprevious.getD (.plain rfl))
    · refine .ok ?_
      rw [hprevious.isSome_eq]
      exact .plain rfl
    · exact h.plainMember (h.resolve (.cell hcd)) key

end Naming.Between

end LiveMarkup
