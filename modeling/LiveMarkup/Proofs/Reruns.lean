import LiveMarkup.Proofs.Agreement
import LiveMarkup.Proofs.Variables

/-!
# Expressions evaluated twice

An expression agrees with itself: evaluated in two frames that hold the same in the slots it uses,
it ends the same way.  The proof is by induction on the expression, and follows the evaluator step
by step.

## Main definitions

* `UsesSlots` — a part of an expression that is no slot but one that is used.

## Main results

* `agree_evalExpr` — an expression agrees with itself.
* `yields_call` — so a function gives the same, called with arguments that are the same where they
  are used.
-/

namespace LiveMarkup.Eval

open Syntax
open Named (Same)

variable {uses : Nat → Prop}

open Evaluation

/-! ### Expressions -/

/-- A part of an expression that is no slot but one that is used. -/
def UsesSlots (uses : Nat → Prop) : Expr → Prop
  | .param slot _ | .declared slot _ => uses slot
  | _ => True

mutual

/-- An expression agrees with itself. -/
theorem agree_evalExpr {ρ : Naming} (hmath : ρ (.object mathObject) (.object mathObject))
    (e : Expr) (he : e.All (UsesSlots uses)) :
    Agree uses ρ Same (evalExpr e) (evalExpr e) := by
  cases e with
  | literal l =>
    rw [evalExpr]
    exact agree_pure (.plain (by cases l <;> rfl))
  | array items =>
    rw [evalExpr]
    exact (agree_evalList hmath .nil items (all_array.1 he).2).bind fun ρ' _ _ _ hitems =>
      agree_act fun _ hle _ _ hstores => hstores.newArrayValue (Named.mono hle hitems)
  | object properties =>
    rw [evalExpr]
    exact (agree_evalProperties hmath .nil properties (all_object.1 he).2).bind
      fun ρ' _ _ _ hproperties =>
        agree_act fun _ hle _ _ hstores => hstores.newObject (Named.mono hle hproperties)
  | param slot name =>
    rw [evalExpr]
    exact agree_readSlot (all_param.1 he)
  | declared slot name =>
    rw [evalExpr]
    exact agree_readSlot (all_declared.1 he)
  | global g =>
    rw [evalExpr]
    cases g with
    | math => exact agree_pure (.object hmath)
    | _ => exact agree_pure (.plain rfl)
  | unbound name =>
    rw [evalExpr]
    exact agree_fail _
  | member object property optional =>
    rw [evalExpr]
    refine (agree_evalExpr hmath object (all_member.1 he).2).bind fun ρ₁ _ _ _ htarget =>
      Agree.holding _ _ ?_
    exact (agree_checkLink optional htarget).bind fun _ hle _ _ _ =>
      agree_memberOf (Named.mono hle htarget) property
  | index object key optional =>
    rw [evalExpr]
    obtain ⟨-, hobject, hkey⟩ := all_index.1 he
    refine (agree_evalExpr hmath object hobject).bind fun ρ₁ hle₁ _ _ htarget =>
      Agree.holding _ _ ?_
    refine (agree_checkLink optional htarget).bind fun ρ₂ hle₂ _ _ _ => ?_
    refine (agree_evalExpr (hle₂ _ _ (hle₁ _ _ hmath)) key hkey).bind fun ρ₃ hle₃ _ _ hkey => ?_
    refine (agree_propertyKey hkey).bind fun ρ₄ hle₄ name name' hname => ?_
    obtain rfl : name = name' := hname
    exact agree_memberOf (Named.mono (hle₂.trans (hle₃.trans hle₄)) htarget) name
  | call callee args optional =>
    rw [evalExpr]
    obtain ⟨-, hcallee, hargs⟩ := all_call.1 he
    -- a member call evaluates its receiver first, any other call its callee
    cases hreceiver : evalReceiver callee with
    | some receiver =>
      refine (agree_evalReceiver hmath callee hcallee receiver hreceiver).bind
        fun ρ₁ hle₁ p q hpq => ?_
      obtain ⟨v, name⟩ := p
      obtain ⟨w, name'⟩ := q
      obtain ⟨hv, rfl⟩ : Same ρ₁ v w ∧ name = name' := hpq
      refine Agree.holding _ _ ?_
      exact (agree_evalList (hle₁ _ _ hmath) .nil args hargs).bind fun ρ₂ hle₂ _ _ hxs =>
        (agree_callMemberOf (Named.mono hle₂ hv) name hxs optional).holding _ _
    | none =>
      refine (agree_evalExpr hmath callee hcallee).bind fun ρ₁ hle₁ _ _ hf => ?_
      refine (agree_askOf hf fun _ _ _ _ hstores hf => hstores.unwrap hf).bind
        fun ρ₂ hle₂ f f' hf => Agree.holding _ _ ?_
      have hcall : ∀ ρ₃, ρ₂ ≤ ρ₃ → Agree uses ρ₃ Same
          (do
            let args ← evalList [] args
            holding (references args) (callValue callee f args))
          (do
            let args ← evalList [] args
            holding (references args) (callValue callee f' args)) := fun ρ₃ hle₃ =>
        (agree_evalList (hle₃ _ _ (hle₂ _ _ (hle₁ _ _ hmath))) .nil args hargs).bind
          fun ρ₄ hle₄ _ _ hxs =>
            (agree_callValue callee (Named.mono (hle₃.trans hle₄) hf) hxs).holding _ _
      rw [hf.isNullish]
      split
      · exact Agree.bind (R := Same) (agree_throw .shortCircuit) fun ρ₃ hle₃ _ _ _ => hcall ρ₃ hle₃
      · exact hcall ρ₂ le_rfl
  | optionalChain chain =>
    rw [evalExpr]
    refine (agree_evalExpr hmath chain (all_optionalChain.1 he).2).tryCatch fun _ _ i j hij => ?_
    cases hij with
    | shortCircuit => exact agree_pure (.plain rfl)
    | failed e => exact agree_throw (.failed e)
    | returned hv => exact agree_throw (.returned hv)
  | unary op operand =>
    rw [evalExpr]
    split
    · exact agree_pure (.plain rfl)
    · refine (agree_evalExpr hmath operand (all_unary.1 he).2).bind fun _ _ _ _ hv => ?_
      exact agree_askOf hv fun _ _ _ _ hstores hv => hstores.same_unary op hv
  | binary op left right =>
    rw [evalExpr]
    obtain ⟨-, hleft, hright⟩ := all_binary.1 he
    refine (agree_evalExpr hmath left hleft).bind fun ρ₁ hle₁ _ _ hv => Agree.holding _ _ ?_
    refine (agree_evalExpr (hle₁ _ _ hmath) right hright).bind fun ρ₂ hle₂ _ _ hw => ?_
    exact agree_askOf hw fun _ hle _ _ hstores hw =>
      hstores.same_binary op (Named.mono (hle₂.trans hle) hv) hw
  | logical op left right =>
    rw [evalExpr]
    obtain ⟨-, hleft, hright⟩ := all_logical.1 he
    refine (agree_evalExpr hmath left hleft).bind fun ρ₁ hle₁ _ _ hv => ?_
    refine (agree_stopsAt op hv).bind fun ρ₂ hle₂ stops stops' hstops => ?_
    obtain rfl : stops = stops' := hstops
    split
    · exact agree_pure (Named.mono hle₂ hv)
    · exact (agree_evalExpr (hle₂ _ _ (hle₁ _ _ hmath)) right hright).holding _ _
  | conditional test consequent alternate =>
    rw [evalExpr]
    obtain ⟨-, htest, hconsequent, halternate⟩ := all_conditional.1 he
    refine (agree_evalExpr hmath test htest).bind fun ρ₁ hle₁ _ _ hv => ?_
    refine (agree_isTruthy hv).bind fun ρ₂ hle₂ holds holds' hholds => ?_
    obtain rfl : holds = holds' := hholds
    split
    · exact agree_evalExpr (hle₂ _ _ (hle₁ _ _ hmath)) consequent hconsequent
    · exact agree_evalExpr (hle₂ _ _ (hle₁ _ _ hmath)) alternate halternate
  | assign op target value =>
    rw [evalExpr]
    obtain ⟨-, htarget, hvalue⟩ := all_assign.1 he
    refine (agree_evalPlace hmath target htarget).bind fun ρ₁ hle₁ place place' hplace => ?_
    -- whichever operand is computed, it is written and then given
    refine Agree.bind (R := Same) (Agree.keeping _ _ ?_) fun ρ₂ hle₂ v w hv => ?_
    · cases op with
      | assign => exact agree_evalExpr (hle₁ _ _ hmath) value hvalue
      | compound op =>
        refine (agree_readPlace hplace).bind fun ρ₂ hle₂ _ _ hv => Agree.holding _ _ ?_
        refine (agree_evalExpr (hle₂ _ _ (hle₁ _ _ hmath)) value hvalue).bind
          fun ρ₃ hle₃ _ _ hw => ?_
        exact agree_askOf hw fun _ hle _ _ hstores hw =>
          hstores.same_binary op (Named.mono (hle₃.trans hle) hv) hw
    · exact (((agree_writePlace (hplace.mono hle₂) hv).holding _ _).keeping _ _).bind
        fun _ hle _ _ _ => agree_pure (Named.mono hle hv)
  | update op result target =>
    rw [evalExpr]
    -- what is written and what is given are numbers, computed from the same number
    refine (agree_evalPlace hmath target (all_update.1 he).2).bind fun ρ₁ hle₁ _ _ hplace => ?_
    have hold : Agree uses ρ₁ Same
        (do
          let current ← readPlace _
          askOf current Store.toNumber)
        (do
          let current ← readPlace _
          askOf current Store.toNumber) :=
      (agree_readPlace hplace).bind fun _ _ _ _ hv =>
        agree_askOf hv fun _ _ _ _ hstores hv => hstores.toNumber hv
    refine (hold.keeping _ _).bind fun ρ₂ hle₂ old old' heq => ?_
    obtain rfl : old = old' := heq
    exact ((agree_writePlace (hplace.mono hle₂) (.plain rfl)).holding _ _).bind
      fun _ _ _ _ _ => agree_pure (.plain rfl)

theorem agree_evalList {ρ : Naming} (hmath : ρ (.object mathObject) (.object mathObject))
    {done done' : List Value} (hdone : Same ρ done done') (es : List Expr)
    (hes : ∀ e ∈ es, e.All (UsesSlots uses)) :
    Agree uses ρ Same (evalList done es) (evalList done' es) := by
  cases es with
  | nil => exact agree_pure hdone
  | cons e rest =>
    rw [evalList, evalList]
    obtain ⟨he, hrest⟩ := List.forall_mem_cons.1 hes
    exact ((agree_evalExpr hmath e he).keeping _ _).bind fun ρ₁ hle₁ _ _ hv =>
      agree_evalList (hle₁ _ _ hmath) ((Named.mono hle₁ hdone).append (.cons hv .nil)) rest hrest

theorem agree_evalProperties {ρ : Naming} (hmath : ρ (.object mathObject) (.object mathObject))
    {done done' : Bindings Value} (hdone : Same ρ done done') (es : List (String × Expr))
    (hes : ∀ p ∈ es, p.2.All (UsesSlots uses)) :
    Agree uses ρ Same (evalProperties done es) (evalProperties done' es) := by
  match es with
  | [] => exact agree_pure hdone
  | (key, e) :: rest =>
    rw [evalProperties, evalProperties]
    obtain ⟨he, hrest⟩ := List.forall_mem_cons.1 hes
    refine ((agree_evalExpr hmath e he).keeping _ _).bind fun ρ₁ hle₁ _ _ hv => ?_
    have hnext := (Named.mono hle₁ hdone).insert key hv
    exact ((agree_letGo _ _).keeping _ _).bind fun ρ₂ hle₂ _ _ _ =>
      agree_evalProperties (hle₂ _ _ (hle₁ _ _ hmath)) (Named.mono hle₂ hnext) rest hrest

theorem agree_evalPlace {ρ : Naming} (hmath : ρ (.object mathObject) (.object mathObject))
    (e : Expr) (he : e.All (UsesSlots uses)) :
    Agree uses ρ (SamePlace uses) (evalPlace e) (evalPlace e) := by
  cases e with
  | param slot name =>
    rw [evalPlace]
    exact agree_pure_of fun _ _ => .slot (all_param.1 he)
  | declared slot name =>
    rw [evalPlace]
    exact agree_pure_of fun _ _ => .slot (all_declared.1 he)
  | unbound name =>
    rw [evalPlace]
    exact agree_pure_of fun _ _ => .unbound name
  | member object property optional =>
    rw [evalPlace]
    exact (agree_evalExpr hmath object (all_member.1 he).2).bind fun _ _ _ _ hv =>
      agree_pure_of fun _ hle => .property (Named.mono hle hv) property
  | index object key optional =>
    rw [evalPlace]
    obtain ⟨-, hobject, hkey⟩ := all_index.1 he
    refine (agree_evalExpr hmath object hobject).bind fun ρ₁ hle₁ _ _ hv => ?_
    have hname : Agree uses ρ₁ Same
        (do
          let key ← evalExpr key
          askOf key Store.propertyKey)
        (do
          let key ← evalExpr key
          askOf key Store.propertyKey) :=
      (agree_evalExpr (hle₁ _ _ hmath) key hkey).bind fun _ _ _ _ hkey => agree_propertyKey hkey
    refine (hname.keeping _ _).bind fun ρ₂ hle₂ name name' heq => ?_
    obtain rfl : name = name' := heq
    exact agree_pure_of fun _ hle => .property (Named.mono (hle₂.trans hle) hv) name
  | _ => exact agree_fail _

theorem agree_evalReceiver {ρ : Naming} (hmath : ρ (.object mathObject) (.object mathObject))
    (e : Expr) (he : e.All (UsesSlots uses)) (receiver : Evaluation (Value × String))
    (h : evalReceiver e = some receiver) : Agree uses ρ Same receiver receiver := by
  cases e with
  | member object property optional =>
    rw [evalReceiver] at h
    cases h
    refine (agree_evalExpr hmath object (all_member.1 he).2).bind fun ρ₁ hle₁ _ _ hv => ?_
    exact ((agree_checkLink optional hv).keeping _ _).bind fun _ hle _ _ _ =>
      agree_pure ⟨Named.mono hle hv, rfl⟩
  | index object key optional =>
    rw [evalReceiver] at h
    cases h
    obtain ⟨-, hobject, hkey⟩ := all_index.1 he
    refine (agree_evalExpr hmath object hobject).bind fun ρ₁ hle₁ _ _ hv => ?_
    refine Agree.bind (R := Same) (Agree.keeping _ _ ?_) fun ρ₂ hle₂ name name' heq => ?_
    · refine (agree_checkLink optional hv).bind fun ρ₂ hle₂ _ _ _ => ?_
      exact (agree_evalExpr (hle₂ _ _ (hle₁ _ _ hmath)) key hkey).bind fun _ _ _ _ hkey =>
        agree_propertyKey hkey
    · exact agree_pure ⟨Named.mono hle₂ hv, heq⟩
  | _ => cases h

end

/-! ### Functions -/

theorem same_finished {ρ : Naming} {r r' : Except Interrupt Value} (h : SameEnd Same ρ r r') :
    Same ρ (finished r) (finished r') := by
  cases h with
  | ok hv => exact .ok hv
  | error h =>
    cases h with
    | failed e => exact .error rfl
    | returned hv => exact .ok hv
    | shortCircuit => exact .ok (.plain rfl)

/-- A function that is an expression gives the same, called with arguments that are the same where
they are used. -/
theorem yields_call {ρ : Naming} (hmath : ρ (.object mathObject) (.object mathObject)) {code : Code}
    {e : Expr} (hbody : code.body = .expression e) (he : e.All (UsesSlots uses))
    {args args' : List Value} {s t : Store}
    (hframes : (code.frame args s).Agrees uses ρ (code.frame args' t)) :
    ρ.Yields (code.call args s) (code.call args' t) := by
  obtain ⟨ρ', hle, hafter, hend⟩ :=
    agree_evalExpr hmath e he ρ le_rfl (references args) (references args') _ _ hframes
  rw [Code.call, Code.call, hbody]
  exact ⟨ρ', hle, hafter.store.kept (Store.keeps_letGo _ _ _) (Store.keeps_letGo _ _ _),
    same_finished hend⟩

end LiveMarkup.Eval
