import LiveMarkup.Proofs.BareStore
import LiveMarkup.Proofs.Evaluation
import LiveMarkup.Proofs.Renumbering
import LiveMarkup.Proofs.Reruns

/-!
# Evaluation with other slots

A tree whose slots are renumbered does the same, in a frame that holds the same in the renumbered
slots: it ends the same way, with the same result or failure, and makes the same changes.  The other
slots may hold anything.

What is held around a computation, and when it is let go, differs between the two frames; it shows
in nothing but in what is gone.

## Main definitions

* `Frame.Rebound` — a frame that holds in the renumbered slots what another holds in the slots.
* `Evaluation.Alike` — two computations end the same way in such frames.

## Main results

* `Evaluation.Alike.bind`, `Evaluation.Alike.tryCatch` — computations one after another.
* `alike_evalExpr`, `alike_execStmt` — expressions and statements with other slots.
-/

namespace LiveMarkup.Eval

open Syntax

variable {α β : Type} {uses : Nat → Prop} {σ : Nat → Nat}

/-! ### Frames -/

/-- The second frame holds in the renumbered slots what the first holds in the slots that are used;
the stores are the same but for what is gone. -/
structure Frame.Rebound (uses : Nat → Prop) (σ : Nat → Nat) (f g : Frame) : Prop where
  store : f.store.bare = g.store.bare
  slot {i : Nat} : uses i → f.slot i = g.slot (σ i)
  bound {i : Nat} : uses i → i < f.slots.size ∧ σ i < g.slots.size
  /-- Parameters are renumbered to parameters, and variables to variables. -/
  params {i : Nat} : uses i → (i < f.params ↔ σ i < g.params)
  /-- Different slots are renumbered to different ones. -/
  inj {i j : Nat} : uses i → uses j → σ i = σ j → i = j

namespace Frame.Rebound

variable {f g : Frame} (h : f.Rebound uses σ g)

include h

/-- Other stores that are the same but for what is gone. -/
theorem withStore {s t : Store} (hstore : s.bare = t.bare) :
    ({ f with store := s } : Frame).Rebound uses σ { g with store := t } :=
  ⟨hstore, h.slot, h.bound, h.params, h.inj⟩

theorem letGo (kept kept' lost lost' : List Entity) :
    (f.letGo kept lost).Rebound uses σ (g.letGo kept' lost') := by
  have hbare : ∀ (frame : Frame) (kept lost : List Entity),
      (frame.letGo kept lost).store.bare = frame.store.bare ∧
        frame.letGo kept lost = { frame with store := (frame.letGo kept lost).store } := by
    intro frame kept lost
    unfold Frame.letGo
    split
    · exact ⟨rfl, rfl⟩
    · exact ⟨Store.bare_letGo _ _ _, rfl⟩
  obtain ⟨hf, heq⟩ := hbare f kept lost
  obtain ⟨hg, heq'⟩ := hbare g kept' lost'
  rw [heq, heq']
  exact h.withStore (hf.trans (h.store.trans hg.symm))

theorem setSlot {i : Nat} (hi : uses i) (v : Value) :
    (f.setSlot i v).Rebound uses σ (g.setSlot (σ i) v) where
  store := h.store
  slot {j} hj := by
    rw [slot_setSlot, slot_setSlot]
    by_cases heq : i = j
    · subst heq
      rw [if_pos ⟨rfl, (h.bound hi).1⟩, if_pos ⟨rfl, (h.bound hi).2⟩]
    · rw [if_neg fun hand => heq hand.1, if_neg fun hand => heq (h.inj hi hj hand.1)]
      exact h.slot hj
  bound hj := by
    simp only [Frame.setSlot, Array.size_setIfInBounds]
    exact h.bound hj
  params := h.params
  inj := h.inj

theorem writeSlot {i : Nat} (hi : uses i) (v : Value) :
    (f.writeSlot i v).Rebound uses σ (g.writeSlot (σ i) v) := by
  have hset := h.setSlot hi v
  unfold Frame.writeSlot
  rw [← h.slot hi]
  cases f.slot i with
  | cell c =>
    dsimp only
    -- a cell in the slot of a parameter is written; a variable that holds a cell is replaced
    by_cases hlt : i < f.params
    · rw [if_pos hlt, if_pos ((h.params hi).1 hlt)]
      exact h.withStore ((Store.blind_setCell c v).same h.store).1
    · rw [if_neg hlt, if_neg (mt (h.params hi).2 hlt)]
      exact hset
  | _ => exact hset

end Frame.Rebound

/-! ### Computations -/

namespace Evaluation

/-- In frames with renumbered slots the computations end the same way, and leave such frames. -/
def Alike (uses : Nat → Prop) (σ : Nat → Nat) (k k' : Evaluation α) : Prop :=
  ∀ (held held' : List Entity) (f g : Frame), f.Rebound uses σ g →
    ((k held).run.run f).1 = ((k' held').run.run g).1 ∧
      ((k held).run.run f).2.Rebound uses σ ((k' held').run.run g).2

variable {k k' : Evaluation α}

theorem alike_pure (x : α) : Alike uses σ (pure x) (pure x) := fun _ _ _ _ h => ⟨rfl, h⟩

theorem alike_throw (i : Interrupt) : Alike uses σ (throw i : Evaluation α) (throw i) :=
  fun _ _ _ _ h => ⟨rfl, h⟩

theorem alike_fail (e : EvalError) : Alike uses σ (fail e : Evaluation α) (fail e) := alike_throw _

theorem Alike.bind {l l' : α → Evaluation β} (hk : Alike uses σ k k')
    (hl : ∀ x, Alike uses σ (l x) (l' x)) : Alike uses σ (k >>= l) (k' >>= l') := by
  intro held held' f g h
  obtain ⟨hend, hafter⟩ := hk held held' f g h
  rw [run_bind, run_bind]
  revert hend hafter
  rcases (k held).run.run f with ⟨r, f'⟩
  rcases (k' held').run.run g with ⟨r', g'⟩
  rintro ⟨⟩ hafter
  cases r with
  | error i => exact ⟨rfl, hafter⟩
  | ok x => exact hl x held held' f' g' hafter

theorem Alike.tryCatch {l l' : Interrupt → Evaluation α} (hk : Alike uses σ k k')
    (hl : ∀ i, Alike uses σ (l i) (l' i)) : Alike uses σ (tryCatch k l) (tryCatch k' l') := by
  intro held held' f g h
  obtain ⟨hend, hafter⟩ := hk held held' f g h
  rw [run_tryCatch, run_tryCatch]
  revert hend hafter
  rcases (k held).run.run f with ⟨r, f'⟩
  rcases (k' held').run.run g with ⟨r', g'⟩
  rintro ⟨⟩ hafter
  cases r with
  | error i => exact hl i held held' f' g' hafter
  | ok x => exact ⟨rfl, hafter⟩

theorem alike_modify {change change' : Frame → Frame}
    (h : ∀ f g : Frame, f.Rebound uses σ g → (change f).Rebound uses σ (change' g)) :
    Alike uses σ (modify change : Evaluation Unit) (modify change') :=
  fun _ _ f g hframes => ⟨rfl, h f g hframes⟩

/-- A reading of the store that gives the same in the bare store. -/
theorem alike_ask {ask' : Store → α} (h : ∀ s : Store, ask' s.bare = ask' s) :
    Alike uses σ (ask ask') (ask ask') := by
  intro _ _ f g hframes
  refine ⟨congrArg Except.ok ?_, hframes⟩
  exact (h _).symm.trans ((congrArg ask' hframes.store).trans (h _))

theorem alike_act {change : Store → Store × α} (h : Store.Blind change) :
    Alike uses σ (act change) (act change) :=
  fun _ _ _ _ hframes =>
    ⟨congrArg Except.ok (h.same hframes.store).2, hframes.withStore (h.same hframes.store).1⟩

theorem alike_ofExcept (result : Except EvalError α) :
    Alike uses σ (ofExcept result) (ofExcept result) := by
  cases result with
  | ok x => exact alike_pure x
  | error e => exact alike_fail e

theorem alike_attempt {change : Store → Outcome α} (h : Store.Blind change) :
    Alike uses σ (attempt change) (attempt change) :=
  (alike_act h).bind alike_ofExcept

/-! ### Held values -/

theorem alike_letGo (lost lost' : List Entity) : Alike uses σ (letGo lost) (letGo lost') :=
  fun _ _ _ _ hframes => ⟨rfl, hframes.letGo _ _ _ _⟩

theorem Alike.holding [Referring α] (es : List Entity) (hk : Alike uses σ k k') :
    Alike uses σ (holding es k) (holding es k') := by
  intro held held' f g h
  -- what is let go in the end may differ, since what else is held differs
  obtain ⟨hend, hafter⟩ := hk (es ++ held) (es ++ held') f g h
  exact ⟨hend, hafter.letGo _ _ _ _⟩

theorem Alike.keeping (es : List Entity) (hk : Alike uses σ k k') :
    Alike uses σ (keeping es k) (keeping es k') := by
  intro held held' f g h
  obtain ⟨hend, hafter⟩ := hk (es ++ held) (es ++ held') f g h
  rw [run_keeping, run_keeping]
  revert hend hafter
  rcases (k (es ++ held)).run.run f with ⟨r, f'⟩
  rcases (k' (es ++ held')).run.run g with ⟨r', g'⟩
  rintro ⟨⟩ hafter
  cases r with
  | ok x => exact ⟨rfl, hafter⟩
  | error i => exact ⟨rfl, hafter.letGo _ _ _ _⟩

theorem alike_askOf [Referring α] (v : Value) {ask' : Store → Value → α}
    (h : ∀ s : Store, ask' s.bare v = ask' s v) : Alike uses σ (askOf v ask') (askOf v ask') :=
  (alike_ask h).holding _

theorem Alike.replacing {change change' : Evaluation Unit} (h : Alike uses σ change change') :
    Alike uses σ (replacing change) (replacing change') := by
  intro held held' f g hframes
  obtain ⟨hend, hafter⟩ := h held held' f g hframes
  rw [run_replacing, run_replacing]
  revert hend hafter
  rcases (change held).run.run f with ⟨r, f'⟩
  rcases (change' held').run.run g with ⟨r', g'⟩
  rintro ⟨⟩ hafter
  cases r with
  | error i => exact ⟨rfl, hafter⟩
  | ok x => exact ⟨rfl, hafter.letGo _ _ _ _⟩

/-! ### Steps -/

theorem alike_readSlot {i : Nat} (hi : uses i) : Alike uses σ (readSlot i) (readSlot (σ i)) :=
  fun _ _ _ _ hframes => ⟨congrArg Except.ok (hframes.slot hi), hframes⟩

theorem alike_checkLink (optional : Bool) (target : Value) :
    Alike uses σ (checkLink optional target) (checkLink optional target) := by
  unfold checkLink
  refine (alike_ask fun s => ?_).bind fun nullish => ?_
  · rw [holdsNullish, Store.unwrap_bare, holdsNullish]
  · split
    · exact alike_throw _
    · exact alike_pure ()

theorem alike_memberOf (target : Value) (key : String) :
    Alike uses σ (memberOf target key) (memberOf target key) :=
  (alike_ask fun s => getMember_bare s target key).bind alike_ofExcept

theorem alike_callMemberOf (receiver : Value) (name : String) (args : List Value)
    (optional : Bool) :
    Alike uses σ (callMemberOf receiver name args optional)
      (callMemberOf receiver name args optional) := by
  refine (alike_attempt (blind_callMember receiver name args optional)).bind fun result => ?_
  cases result with
  | none => exact alike_throw _
  | some v => exact alike_pure v

theorem alike_callValue (callee : Expr) (f : Value) (args : List Value) :
    Alike uses σ (callValue callee f args) (callValue (callee.renumber σ) f args) := by
  cases f with
  | function f => exact alike_attempt (blind_callFunction f args)
  | _ =>
    have hname : calleeName (callee.renumber σ) = calleeName callee := by cases callee <;> rfl
    unfold callValue
    rw [hname]
    exact alike_fail _

/-- The place with another slot. -/
def Place.renumber (σ : Nat → Nat) : Place → Place
  | .slot i => .slot (σ i)
  | place => place

/-- The slot of a place is one that is used. -/
def Place.Used (uses : Nat → Prop) : Place → Prop
  | .slot i => uses i
  | _ => True

theorem entities_renumber (place : Place) :
    (Place.renumber σ place).entities = place.entities := by
  cases place <;> rfl

theorem alike_readPlace {place : Place} (h : Place.Used uses place) :
    Alike uses σ (readPlace place) (readPlace (Place.renumber σ place)) := by
  cases place with
  | slot i => exact alike_readSlot h
  | unbound name => exact alike_fail _
  | property object key => exact alike_memberOf object key

theorem alike_writePlace {place : Place} (h : Place.Used uses place) (v : Value) :
    Alike uses σ (writePlace place v) (writePlace (Place.renumber σ place) v) := by
  refine Alike.replacing ?_
  cases place with
  | slot i => exact alike_modify fun _ _ hframes => hframes.writeSlot h v
  | unbound name => exact alike_fail _
  | property object key => exact alike_attempt (blind_setMember object key v)

theorem alike_fillSlot {i : Nat} (hi : uses i) (v : Value) :
    Alike uses σ (fillSlot i v) (fillSlot (σ i) v) :=
  (alike_modify fun _ _ hframes => hframes.setSlot hi v).replacing

theorem alike_unary (op : UnaryOp) (v : Value) :
    Alike uses σ (askOf v fun s v => unary s op v) (askOf v fun s v => unary s op v) :=
  alike_askOf v fun s => unary_bare s op v

theorem alike_binary (op : BinaryOp) (left right : Value) :
    Alike uses σ (askOf right fun s right => binary s op left right)
      (askOf right fun s right => binary s op left right) :=
  alike_askOf right fun s => binary_bare s op left right

theorem alike_stopsAt (op : LogicalOp) (left : Value) :
    Alike uses σ (ask fun s => stopsAt s op left) (ask fun s => stopsAt s op left) := by
  refine alike_ask fun s => ?_
  unfold stopsAt holdsNullish
  rw [Store.isTruthy_bare, Store.unwrap_bare]

end Evaluation

open Evaluation

/-! ### Expressions -/

mutual

/-- An expression with other slots does the same. -/
theorem alike_evalExpr (e : Expr) (he : e.All (UsesSlots uses)) :
    Alike uses σ (evalExpr e) (evalExpr (e.renumber σ)) := by
  cases e with
  | literal l =>
    rw [Expr.renumber, evalExpr]
    exact alike_pure _
  | array items =>
    rw [Expr.renumber, evalExpr, evalExpr]
    exact (alike_evalList [] items (all_array.1 he).2).bind fun items =>
      alike_act (Store.blind_newArrayValue items)
  | object properties =>
    rw [Expr.renumber, evalExpr, evalExpr]
    exact (alike_evalProperties .empty properties (all_object.1 he).2).bind fun _ =>
      alike_act fun _ => rfl
  | param slot name =>
    rw [Expr.renumber, evalExpr, evalExpr]
    exact alike_readSlot (all_param.1 he)
  | declared slot name =>
    rw [Expr.renumber, evalExpr, evalExpr]
    exact alike_readSlot (all_declared.1 he)
  | global g =>
    rw [Expr.renumber, evalExpr]
    exact alike_pure _
  | unbound name =>
    rw [Expr.renumber, evalExpr]
    exact alike_fail _
  | member object property optional =>
    rw [Expr.renumber, evalExpr, evalExpr]
    exact (alike_evalExpr object (all_member.1 he).2).bind fun target =>
      ((alike_checkLink optional target).bind fun _ => alike_memberOf target property).holding _
  | index object key optional =>
    rw [Expr.renumber, evalExpr, evalExpr]
    obtain ⟨-, hobject, hkey⟩ := all_index.1 he
    exact (alike_evalExpr object hobject).bind fun target =>
      ((alike_checkLink optional target).bind fun _ => (alike_evalExpr key hkey).bind fun key =>
        (alike_askOf key fun s => s.propertyKey_bare key).bind fun key =>
          alike_memberOf target key).holding _
  | call callee args optional =>
    rw [Expr.renumber, evalExpr, evalExpr]
    obtain ⟨-, hcallee, hargs⟩ := all_call.1 he
    have hreceiver := alike_evalReceiver callee hcallee
    -- a member call evaluates its receiver first, any other call its callee
    generalize evalReceiver callee = receiver, evalReceiver (callee.renumber σ) = receiver'
      at hreceiver ⊢
    cases hreceiver with
    | some hreceiver =>
      exact hreceiver.bind fun receiver => ((alike_evalList [] args hargs).bind fun args =>
        (alike_callMemberOf receiver.1 receiver.2 args optional).holding _).holding _
    | none =>
      refine (alike_evalExpr callee hcallee).bind fun f =>
        (alike_askOf f fun s => s.unwrap_bare f).bind fun f => Alike.holding _ ?_
      have hcall : Alike uses σ
          (do
            let args ← evalList [] args
            holding (references args) (callValue callee f args))
          (do
            let args ← evalList [] (renumberList σ args)
            holding (references args) (callValue (callee.renumber σ) f args)) :=
        (alike_evalList [] args hargs).bind fun args => (alike_callValue callee f args).holding _
      split
      · exact (alike_throw _).bind fun _ => hcall
      · exact hcall
  | optionalChain chain =>
    rw [Expr.renumber, evalExpr, evalExpr]
    refine (alike_evalExpr chain (all_optionalChain.1 he).2).tryCatch fun i => ?_
    cases i
    case shortCircuit => exact alike_pure _
    all_goals exact alike_throw _
  | unary op operand =>
    rw [Expr.renumber, evalExpr, evalExpr]
    have hunbound : isUnboundTypeOf op (operand.renumber σ) = isUnboundTypeOf op operand := by
      cases op <;> cases operand <;> rfl
    rw [hunbound]
    split
    · exact alike_pure _
    · exact (alike_evalExpr operand (all_unary.1 he).2).bind fun v => alike_unary op v
  | binary op left right =>
    rw [Expr.renumber, evalExpr, evalExpr]
    obtain ⟨-, hleft, hright⟩ := all_binary.1 he
    exact (alike_evalExpr left hleft).bind fun left =>
      ((alike_evalExpr right hright).bind fun right => alike_binary op left right).holding _
  | logical op left right =>
    rw [Expr.renumber, evalExpr, evalExpr]
    obtain ⟨-, hleft, hright⟩ := all_logical.1 he
    refine (alike_evalExpr left hleft).bind fun left => (alike_stopsAt op left).bind fun stops => ?_
    split
    · exact alike_pure left
    · exact (alike_evalExpr right hright).holding _
  | conditional test consequent alternate =>
    rw [Expr.renumber, evalExpr, evalExpr]
    obtain ⟨-, htest, hconsequent, halternate⟩ := all_conditional.1 he
    refine (alike_evalExpr test htest).bind fun test =>
      (alike_askOf test fun s => s.isTruthy_bare test).bind fun holds => ?_
    split
    · exact alike_evalExpr consequent hconsequent
    · exact alike_evalExpr alternate halternate
  | assign op target value =>
    rw [Expr.renumber, evalExpr, evalExpr]
    obtain ⟨-, htarget, hvalue⟩ := all_assign.1 he
    refine alike_evalPlace target htarget fun place hplace => ?_
    simp only [entities_renumber]
    refine Alike.bind (Alike.keeping _ ?_) fun v =>
      (((alike_writePlace hplace v).holding _).keeping _).bind fun _ => alike_pure v
    cases op with
    | assign => exact alike_evalExpr value hvalue
    | compound op =>
      refine (alike_readPlace hplace).bind fun current => Alike.holding _ ?_
      exact (alike_evalExpr value hvalue).bind fun operand => alike_binary op current operand
  | update op result target =>
    rw [Expr.renumber, evalExpr, evalExpr]
    refine alike_evalPlace target (all_update.1 he).2 fun place hplace => ?_
    simp only [entities_renumber]
    exact (((alike_readPlace hplace).bind fun current =>
      alike_askOf current fun s => s.toNumber_bare current).keeping _).bind fun old =>
        ((alike_writePlace hplace _).holding _).bind fun _ => alike_pure _

theorem alike_evalList (done : List Value) (es : List Expr)
    (hes : ∀ e ∈ es, e.All (UsesSlots uses)) :
    Alike uses σ (evalList done es) (evalList done (renumberList σ es)) := by
  cases es with
  | nil =>
    rw [renumberList, evalList]
    exact alike_pure done
  | cons e rest =>
    rw [renumberList, evalList, evalList]
    obtain ⟨he, hrest⟩ := List.forall_mem_cons.1 hes
    exact ((alike_evalExpr e he).keeping _).bind fun v => alike_evalList (done ++ [v]) rest hrest

theorem alike_evalProperties (done : Bindings Value) (es : List (String × Expr))
    (hes : ∀ p ∈ es, p.2.All (UsesSlots uses)) :
    Alike uses σ (evalProperties done es) (evalProperties done (renumberProperties σ es)) := by
  match es with
  | [] =>
    rw [renumberProperties, evalProperties]
    exact alike_pure done
  | (key, e) :: rest =>
    rw [renumberProperties, evalProperties, evalProperties]
    obtain ⟨he, hrest⟩ := List.forall_mem_cons.1 hes
    exact ((alike_evalExpr e he).keeping _).bind fun v => ((alike_letGo _ _).keeping _).bind
      fun _ => alike_evalProperties _ rest hrest

/-- What follows the search for a place begins with the same place, but for the slot. -/
theorem alike_evalPlace (e : Expr) (he : e.All (UsesSlots uses)) {l l' : Place → Evaluation Value}
    (hl : ∀ place, Place.Used uses place → Alike uses σ (l place) (l' (Place.renumber σ place))) :
    Alike uses σ (evalPlace e >>= l) (evalPlace (e.renumber σ) >>= l') := by
  cases e with
  | param slot name =>
    rw [Expr.renumber, evalPlace, evalPlace]
    exact hl (.slot slot) (all_param.1 he)
  | declared slot name =>
    rw [Expr.renumber, evalPlace, evalPlace]
    exact hl (.slot slot) (all_declared.1 he)
  | unbound name =>
    rw [Expr.renumber, evalPlace]
    exact hl (.unbound name) trivial
  | member object property optional =>
    rw [Expr.renumber, evalPlace, evalPlace]
    simp only [bind_assoc, pure_bind]
    exact (alike_evalExpr object (all_member.1 he).2).bind fun object =>
      hl (.property object property) trivial
  | index object key optional =>
    rw [Expr.renumber, evalPlace, evalPlace]
    obtain ⟨-, hobject, hkey⟩ := all_index.1 he
    simp only [bind_assoc, pure_bind]
    exact (alike_evalExpr object hobject).bind fun object =>
      (((alike_evalExpr key hkey).bind fun key =>
        alike_askOf key fun s => s.propertyKey_bare key).keeping _).bind fun key =>
          hl (.property object key) trivial
  | _ => exact fun _ _ _ _ hframes => ⟨rfl, hframes⟩

theorem alike_evalReceiver (e : Expr) (he : e.All (UsesSlots uses)) :
    Option.Rel (Alike uses σ) (evalReceiver e) (evalReceiver (e.renumber σ)) := by
  cases e with
  | member object property optional =>
    rw [Expr.renumber, evalReceiver, evalReceiver]
    exact .some <| (alike_evalExpr object (all_member.1 he).2).bind fun receiver =>
      ((alike_checkLink optional receiver).keeping _).bind fun _ => alike_pure _
  | index object key optional =>
    rw [Expr.renumber, evalReceiver, evalReceiver]
    obtain ⟨-, hobject, hkey⟩ := all_index.1 he
    exact .some <| (alike_evalExpr object hobject).bind fun receiver =>
      Alike.bind (Alike.keeping _ ((alike_checkLink optional receiver).bind fun _ =>
        (alike_evalExpr key hkey).bind fun key =>
          alike_askOf key fun s => s.propertyKey_bare key)) fun _ => alike_pure _
  | _ => exact .none

end

/-! ### Statements -/

/-- The slots of the statement itself are used, those of the statements inside it aside. -/
def StmtUses (uses : Nat → Prop) (s : Stmt) : Prop :=
  (∀ e ∈ s.expressions, e.All (UsesSlots uses)) ∧ ∀ slot ∈ s.slots, uses slot

theorem alike_declareAll (declarators : List (Nat × Option Expr))
    (hslots : ∀ slot ∈ declarators.map Prod.fst, uses slot)
    (hinits : ∀ e ∈ declarators.filterMap Prod.snd, e.All (UsesSlots uses)) :
    Alike uses σ (declareAll declarators) (declareAll (renumberDeclarators σ declarators)) := by
  induction declarators with
  | nil => exact alike_pure ()
  | cons declarator rest ih =>
    obtain ⟨slot, init⟩ := declarator
    obtain ⟨hslot, hrest⟩ := List.forall_mem_cons.1 hslots
    rw [renumberDeclarators, List.map_cons, ← renumberDeclarators]
    unfold declareAll
    cases init with
    | none =>
      exact (alike_pure _).bind fun v => (alike_fillSlot hslot v).bind fun _ => ih hrest hinits
    | some e =>
      obtain ⟨he, hinits⟩ := List.forall_mem_cons.1 hinits
      exact (alike_evalExpr e he).bind fun v =>
        (alike_fillSlot hslot v).bind fun _ => ih hrest hinits

mutual

/-- A statement with other slots does the same. -/
theorem alike_execStmt (s : Stmt) (hs : s.All (StmtUses uses)) :
    Alike uses σ (execStmt s) (execStmt (s.renumber σ)) := by
  cases s with
  | empty =>
    rw [Stmt.renumber, execStmt]
    exact alike_pure ()
  | expression e =>
    rw [Stmt.renumber, execStmt, execStmt]
    exact (alike_evalExpr e ((Stmt.all_expression.1 hs).1 e List.mem_cons_self)).bind
      fun v => alike_letGo _ _
  | block statements =>
    rw [Stmt.renumber, execStmt, execStmt]
    exact alike_execList statements (Stmt.all_block.1 hs).2
  | declare declarators =>
    rw [Stmt.renumber, execStmt, execStmt]
    obtain ⟨hinits, hslots⟩ := Stmt.all_declare.1 hs
    exact alike_declareAll declarators hslots hinits
  | conditional test consequent alternate =>
    rw [Stmt.renumber, execStmt, execStmt]
    obtain ⟨⟨htest, -⟩, hconsequent, halternate⟩ := Stmt.all_conditional.1 hs
    refine (alike_evalExpr test (htest test List.mem_cons_self)).bind fun test =>
      (alike_askOf test fun s => s.isTruthy_bare test).bind fun holds => ?_
    split
    · exact alike_execStmt consequent hconsequent
    · exact alike_execOption alternate halternate
  | returns value =>
    unfold Stmt.renumber execStmt
    cases value with
    | none => exact (alike_pure _).bind fun v => alike_throw _
    | some e =>
      exact (alike_evalExpr e ((Stmt.all_returns.1 hs).1 e List.mem_cons_self)).bind
        fun v => alike_throw _

theorem alike_execList (statements : List Stmt) (h : ∀ s ∈ statements, s.All (StmtUses uses)) :
    Alike uses σ (execList statements) (execList (renumberStatements σ statements)) := by
  cases statements with
  | nil =>
    rw [renumberStatements, execList]
    exact alike_pure ()
  | cons s rest =>
    rw [renumberStatements, execList, execList]
    obtain ⟨hs, hrest⟩ := List.forall_mem_cons.1 h
    exact (alike_execStmt s hs).bind fun _ => alike_execList rest hrest

theorem alike_execOption (s : Option Stmt) (h : ∀ x ∈ s, x.All (StmtUses uses)) :
    Alike uses σ (execOption s) (execOption (renumberOption σ s)) := by
  cases s with
  | none =>
    rw [renumberOption, execOption]
    exact alike_pure ()
  | some s =>
    rw [renumberOption, execOption, execOption]
    exact alike_execStmt s (h s rfl)

end

/-- The slots that are used in what a text says to do. -/
def BodyUses (uses : Nat → Prop) : Body → Prop
  | .expression e => e.All (UsesSlots uses)
  | .statements list => ∀ s ∈ list, s.All (StmtUses uses)

theorem alike_evalBody (body : Body) (h : BodyUses uses body) :
    Alike uses σ (evalBody body) (evalBody (body.renumber σ)) := by
  cases body with
  | expression e => exact alike_evalExpr e h
  | statements statements => exact (alike_execList statements h).bind fun _ => alike_pure _

end LiveMarkup.Eval
