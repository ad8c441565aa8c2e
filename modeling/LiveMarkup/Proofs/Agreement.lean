import LiveMarkup.Proofs.Evaluation
import LiveMarkup.Proofs.Writing

/-!
# Evaluation up to names

Two computations agree if they end the same way, with a result or a failure that is the same up to a
naming, in all frames that are the same up to a naming where it matters: the stores are, and the
slots that are used hold the same.  The other slots, and what only they lead to, may hold anything.

What is held around a computation, and when it is let go, differs between the two frames; it shows
in no value.

## Main definitions

* `Frame.Agrees` — two frames are the same up to a naming, but for slots that are not used.
* `Evaluation.Agree` — two computations end the same way in such frames.

## Main results

* `Evaluation.Agree.bind`, `Evaluation.Agree.tryCatch` — computations one after another.
* `Evaluation.agree_memberOf`, `Evaluation.agree_writePlace` — steps of an evaluation.
-/

namespace LiveMarkup.Eval

open Syntax
open Named (Same)

variable {α β : Type} {uses : Nat → Prop} {ρ : Naming}

/-! ### Frames and ends -/

/-- The frames are the same up to a naming, but for slots that are not used. -/
structure Frame.Agrees (uses : Nat → Prop) (ρ : Naming) (f g : Frame) : Prop where
  store : ρ.Between f.store g.store
  params : f.params = g.params
  size : f.slots.size = g.slots.size
  slot {i : Nat} : uses i → Same ρ (f.slot i) (g.slot i)

/-- Early ends that are the same up to a naming. -/
inductive SameInterrupt (ρ : Naming) : Interrupt → Interrupt → Prop
  | failed (e : EvalError) : SameInterrupt ρ (.failed e) (.failed e)
  | returned {v w : Value} (h : Same ρ v w) : SameInterrupt ρ (.returned v) (.returned w)
  | shortCircuit : SameInterrupt ρ .shortCircuit .shortCircuit

instance : Named Interrupt where
  Same := SameInterrupt
  mono hle h := by
    cases h with
    | failed e => exact .failed e
    | returned h => exact .returned (Named.mono hle h)
    | shortCircuit => exact .shortCircuit

/-- Ends of computations whose results are related. -/
inductive SameEnd (R : Naming → α → α → Prop) (ρ : Naming) :
    Except Interrupt α → Except Interrupt α → Prop
  | ok {x y : α} (h : R ρ x y) : SameEnd R ρ (.ok x) (.ok y)
  | error {i j : Interrupt} (h : Same ρ i j) : SameEnd R ρ (.error i) (.error j)

/-- Places that are the same up to a naming; a slot is one that is used. -/
inductive SamePlace (uses : Nat → Prop) (ρ : Naming) : Place → Place → Prop
  | slot {i : Nat} (h : uses i) : SamePlace uses ρ (.slot i) (.slot i)
  | unbound (name : String) : SamePlace uses ρ (.unbound name) (.unbound name)
  | property {v w : Value} (h : Same ρ v w) (key : String) :
    SamePlace uses ρ (.property v key) (.property w key)

theorem SamePlace.mono {ρ' : Naming} {p q : Place} (hle : ρ ≤ ρ') (h : SamePlace uses ρ p q) :
    SamePlace uses ρ' p q := by
  cases h with
  | slot h => exact .slot h
  | unbound name => exact .unbound name
  | property h key => exact .property (Named.mono hle h) key

namespace Frame.Agrees

variable {f g : Frame}

/-- Another store, and a naming with more pairs. -/
theorem withStore {ρ' : Naming} {s t : Store} (h : f.Agrees uses ρ g) (hle : ρ ≤ ρ')
    (hstore : ρ'.Between s t) :
    ({ f with store := s } : Frame).Agrees uses ρ' { g with store := t } where
  store := hstore
  params := h.params
  size := h.size
  slot hi := Named.mono hle (h.slot hi)

theorem letGo (h : f.Agrees uses ρ g) (kept kept' lost lost' : List Entity) :
    (f.letGo kept lost).Agrees uses ρ (g.letGo kept' lost') := by
  have hkeeps : ∀ (frame : Frame) (kept lost : List Entity),
      frame.store.Keeps [] (frame.letGo kept lost).store ∧
        frame.letGo kept lost = { frame with store := (frame.letGo kept lost).store } := by
    intro frame kept lost
    unfold Frame.letGo
    split
    · exact ⟨.refl _, rfl⟩
    · exact ⟨frame.store.keeps_letGo _ _, rfl⟩
  obtain ⟨hf, heq⟩ := hkeeps f kept lost
  obtain ⟨hg, heq'⟩ := hkeeps g kept' lost'
  rw [heq, heq']
  exact h.withStore le_rfl (h.store.kept hf hg)

theorem setSlot {v w : Value} (h : f.Agrees uses ρ g) (i : Nat) (hv : Same ρ v w) :
    (f.setSlot i v).Agrees uses ρ (g.setSlot i w) where
  store := h.store
  params := h.params
  size := by simp [Frame.setSlot, h.size]
  slot {j} hj := by
    have hslot := h.slot hj
    simp only [Frame.slot, Frame.setSlot, Array.getD_eq_getD_getElem?, Array.getElem?_setIfInBounds,
      h.size] at hslot ⊢
    split
    · split
      · exact hv
      · exact .plain rfl
    · exact hslot

theorem writeSlot {v w : Value} (h : f.Agrees uses ρ g) {i : Nat} (hi : uses i) (hv : Same ρ v w) :
    (f.writeSlot i v).Agrees uses ρ (g.writeSlot i w) := by
  have hslot := h.slot hi
  have hset := h.setSlot i hv
  unfold Frame.writeSlot
  generalize f.slot i = x, g.slot i = y at hslot
  cases hslot with
  | plain hplain =>
    cases x with
    | cell => cases hplain
    | _ => exact hset
  | array => exact hset
  | object => exact hset
  | cell hcd =>
    dsimp only
    -- a cell in the slot of a parameter is written; a variable that holds a cell is replaced
    by_cases hlt : i < g.params
    · rw [if_pos (h.params ▸ hlt), if_pos hlt]
      exact h.withStore le_rfl (h.store.setCell hcd (h.store.unwrap hv))
    · rw [if_neg (h.params ▸ hlt), if_neg hlt]
      exact hset

end Frame.Agrees

namespace Evaluation

/-! ### Computations -/

/-- Started in frames that agree, the computations end the same way and in frames that agree again,
up to a naming with more pairs. -/
def Agree (uses : Nat → Prop) (ρ : Naming) (R : Naming → α → α → Prop) (k k' : Evaluation α) :
    Prop :=
  ∀ ρ', ρ ≤ ρ' → ∀ (held held' : List Entity) (f g : Frame), f.Agrees uses ρ' g →
    ∃ ρ'', ρ' ≤ ρ'' ∧ ((k held).run.run f).2.Agrees uses ρ'' ((k' held').run.run g).2 ∧
      SameEnd R ρ'' ((k held).run.run f).1 ((k' held').run.run g).1

variable {R : Naming → α → α → Prop} {Q : Naming → β → β → Prop} {k k' : Evaluation α}

theorem agree_pure_of {x y : α} (h : ∀ ρ', ρ ≤ ρ' → R ρ' x y) :
    Agree uses ρ R (pure x) (pure y) :=
  fun ρ' hle _ _ _ _ hframes => ⟨ρ', le_rfl, hframes, .ok (h ρ' hle)⟩

theorem agree_pure [Named α] {x y : α} (h : Same ρ x y) :
    Agree uses ρ Same (pure x) (pure y) :=
  agree_pure_of fun _ hle => Named.mono hle h

theorem agree_throw {i j : Interrupt} (h : Same ρ i j) : Agree uses ρ R (throw i) (throw j) :=
  fun ρ' hle _ _ _ _ hframes => ⟨ρ', le_rfl, hframes, .error (Named.mono hle h)⟩

theorem agree_fail (e : EvalError) : Agree uses ρ R (fail e) (fail e) := agree_throw (.failed e)

/-- Computations one after another: the second pair agrees for whatever the first can give. -/
theorem Agree.bind {l l' : α → Evaluation β} (hk : Agree uses ρ R k k')
    (hl : ∀ ρ', ρ ≤ ρ' → ∀ x y, R ρ' x y → Agree uses ρ' Q (l x) (l' y)) :
    Agree uses ρ Q (k >>= l) (k' >>= l') := by
  intro ρ' hle held held' f g hframes
  obtain ⟨ρ₁, hle₁, hframes₁, hend⟩ := hk ρ' hle held held' f g hframes
  rw [run_bind, run_bind]
  revert hframes₁ hend
  rcases (k held).run.run f with ⟨r, f₁⟩
  rcases (k' held').run.run g with ⟨r', g₁⟩
  intro hframes₁ hend
  cases hend with
  | error h => exact ⟨ρ₁, hle₁, hframes₁, .error h⟩
  | @ok x y h =>
    -- the second pair starts where the first has ended, under the naming it has left
    obtain ⟨ρ₂, hle₂, hafter⟩ := hl ρ₁ (hle.trans hle₁) x y h ρ₁ le_rfl held held' f₁ g₁ hframes₁
    exact ⟨ρ₂, hle₁.trans hle₂, hafter⟩

theorem Agree.tryCatch {l l' : Interrupt → Evaluation α} (hk : Agree uses ρ R k k')
    (hl : ∀ ρ', ρ ≤ ρ' → ∀ i j, Same ρ' i j → Agree uses ρ' R (l i) (l' j)) :
    Agree uses ρ R (tryCatch k l) (tryCatch k' l') := by
  intro ρ' hle held held' f g hframes
  obtain ⟨ρ₁, hle₁, hframes₁, hend⟩ := hk ρ' hle held held' f g hframes
  rw [run_tryCatch, run_tryCatch]
  revert hframes₁ hend
  rcases (k held).run.run f with ⟨r, f₁⟩
  rcases (k' held').run.run g with ⟨r', g₁⟩
  intro hframes₁ hend
  cases hend with
  | ok h => exact ⟨ρ₁, hle₁, hframes₁, .ok h⟩
  | @error i j h =>
    obtain ⟨ρ₂, hle₂, hafter⟩ := hl ρ₁ (hle.trans hle₁) i j h ρ₁ le_rfl held held' f₁ g₁ hframes₁
    exact ⟨ρ₂, hle₁.trans hle₂, hafter⟩

theorem Agree.mono {ρ' : Naming} (h : Agree uses ρ R k k') (hle : ρ ≤ ρ') :
    Agree uses ρ' R k k' :=
  fun ρ'' hle' => h ρ'' (hle.trans hle')

theorem agree_modify {change change' : Frame → Frame}
    (h : ∀ ρ', ρ ≤ ρ' → ∀ f g : Frame, f.Agrees uses ρ' g →
      (change f).Agrees uses ρ' (change' g)) :
    Agree uses ρ Same (modify change : Evaluation Unit) (modify change') :=
  fun ρ' hle _ _ f g hframes => ⟨ρ', le_rfl, h ρ' hle f g hframes, .ok rfl⟩

theorem agree_ask {f g : Store → α}
    (h : ∀ ρ', ρ ≤ ρ' → ∀ s t, ρ'.Between s t → R ρ' (f s) (g t)) :
    Agree uses ρ R (ask f) (ask g) :=
  fun ρ' hle _ _ _ _ hframes => ⟨ρ', le_rfl, hframes, .ok (h ρ' hle _ _ hframes.store)⟩

theorem agree_act [Named α] {f g : Store → Store × α}
    (h : ∀ ρ', ρ ≤ ρ' → ∀ s t, ρ'.Between s t → ρ'.Yields (f s) (g t)) :
    Agree uses ρ Same (act f) (act g) := by
  intro ρ' hle _ _ _ _ hframes
  obtain ⟨ρ'', hle', hstores, hsame⟩ := h ρ' hle _ _ hframes.store
  exact ⟨ρ'', hle', hframes.withStore hle' hstores, .ok hsame⟩

theorem agree_ofExcept [Named α] {r r' : Except EvalError α} (h : Same ρ r r') :
    Agree uses ρ Same (ofExcept r) (ofExcept r') := by
  cases h with
  | ok h => exact agree_pure h
  | @error e e' h => exact h ▸ agree_fail e

theorem agree_attempt [Named α] {f g : Store → Outcome α}
    (h : ∀ ρ', ρ ≤ ρ' → ∀ s t, ρ'.Between s t → ρ'.Yields (f s) (g t)) :
    Agree uses ρ Same (attempt f) (attempt g) :=
  (agree_act h).bind fun _ _ _ _ hr => agree_ofExcept hr

/-! ### Held values -/

theorem agree_letGo (lost lost' : List Entity) :
    Agree uses ρ Same (letGo lost) (letGo lost') :=
  fun ρ' _ _ _ _ _ hframes => ⟨ρ', le_rfl, hframes.letGo _ _ _ _, .ok rfl⟩

theorem Agree.holding [Referring α] (es es' : List Entity) (hk : Agree uses ρ R k k') :
    Agree uses ρ R (holding es k) (holding es' k') := by
  intro ρ' hle held held' f g hframes
  obtain ⟨ρ₁, hle₁, hframes₁, hend⟩ := hk ρ' hle (es ++ held) (es' ++ held') f g hframes
  exact ⟨ρ₁, hle₁, hframes₁.letGo _ _ _ _, hend⟩

theorem Agree.keeping (es es' : List Entity) (hk : Agree uses ρ R k k') :
    Agree uses ρ R (keeping es k) (keeping es' k') := by
  intro ρ' hle held held' f g hframes
  obtain ⟨ρ₁, hle₁, hframes₁, hend⟩ := hk ρ' hle (es ++ held) (es' ++ held') f g hframes
  rw [run_keeping, run_keeping]
  revert hframes₁ hend
  rcases (k (es ++ held)).run.run f with ⟨r, f₁⟩
  rcases (k' (es' ++ held')).run.run g with ⟨r', g₁⟩
  intro hframes₁ hend
  cases hend with
  | ok h => exact ⟨ρ₁, hle₁, hframes₁, .ok h⟩
  | error h => exact ⟨ρ₁, hle₁, hframes₁.letGo _ _ _ _, .error h⟩

theorem agree_askOf [Referring α] {v w : Value} {f g : Store → Value → α} (hv : Same ρ v w)
    (h : ∀ ρ', ρ ≤ ρ' → ∀ s t, ρ'.Between s t → Same ρ' v w → R ρ' (f s v) (g t w)) :
    Agree uses ρ R (askOf v f) (askOf w g) :=
  (agree_ask fun ρ' hle s t hstores => h ρ' hle s t hstores (Named.mono hle hv)).holding _ _

theorem Agree.replacing {change change' : Evaluation Unit}
    (h : Agree uses ρ Same change change') :
    Agree uses ρ Same (replacing change) (replacing change') := by
  have hget : ∀ ρ, Agree uses ρ (fun _ _ _ => True) (get : Evaluation Frame) get :=
    fun ρ ρ' _ _ _ _ _ hframes => ⟨ρ', le_rfl, hframes, .ok trivial⟩
  refine (hget ρ).bind fun ρ₁ hle₁ _ _ _ => ?_
  refine (h.mono hle₁).bind fun ρ₂ _ _ _ _ => (hget ρ₂).bind fun _ _ _ _ _ => agree_letGo _ _

/-! ### Steps -/

theorem agree_readSlot {i : Nat} (hi : uses i) : Agree uses ρ Same (readSlot i) (readSlot i) :=
  fun ρ' _ _ _ _ _ hframes => ⟨ρ', le_rfl, hframes, .ok (hframes.slot hi)⟩

theorem agree_checkLink (optional : Bool) {v w : Value} (hv : Same ρ v w) :
    Agree uses ρ Same (checkLink optional v) (checkLink optional w) := by
  unfold checkLink
  have hnullish :
      Agree uses ρ Same (ask fun s => holdsNullish s v) (ask fun t => holdsNullish t w) :=
    agree_ask fun ρ' hle s t hstores => (hstores.unwrap (Named.mono hle hv)).isNullish
  refine hnullish.bind fun ρ' hle x y hxy => ?_
  obtain rfl : x = y := hxy
  split
  · exact agree_throw .shortCircuit
  · exact agree_pure rfl

theorem agree_propertyKey {v w : Value} (hv : Same ρ v w) :
    Agree uses ρ Same (askOf v Store.propertyKey) (askOf w Store.propertyKey) :=
  agree_askOf hv fun _ _ _ _ hstores hv => hstores.propertyKey hv

theorem agree_isTruthy {v w : Value} (hv : Same ρ v w) :
    Agree uses ρ Same (askOf v Store.isTruthy) (askOf w Store.isTruthy) :=
  agree_askOf hv fun _ _ _ _ hstores hv => hstores.isTruthy hv

theorem agree_stopsAt (op : LogicalOp) {v w : Value} (hv : Same ρ v w) :
    Agree uses ρ Same (ask fun s => stopsAt s op v) (ask fun t => stopsAt t op w) := by
  refine agree_ask fun ρ' hle s t hstores => ?_
  have hv' := Named.mono hle hv
  show stopsAt s op v = stopsAt t op w
  unfold stopsAt holdsNullish
  rw [hstores.isTruthy hv', (hstores.unwrap hv').isNullish]

theorem agree_memberOf {v w : Value} (hv : Same ρ v w) (key : String) :
    Agree uses ρ Same (memberOf v key) (memberOf w key) :=
  (agree_ask fun _ hle _ _ hstores => hstores.getMember (Named.mono hle hv) key).bind
    fun _ _ _ _ hr => agree_ofExcept hr

theorem agree_callMemberOf {v w : Value} {args args' : List Value} (hv : Same ρ v w)
    (name : String) (hargs : Same ρ args args') (optional : Bool) :
    Agree uses ρ Same (callMemberOf v name args optional)
      (callMemberOf w name args' optional) := by
  refine (agree_attempt fun _ hle _ _ hstores =>
    hstores.callMember (Named.mono hle hv) name (Named.mono hle hargs) optional).bind
    fun _ _ _ _ hresult => ?_
  cases hresult with
  | none => exact agree_throw .shortCircuit
  | some hv => exact agree_pure hv

theorem agree_callValue (callee : Expr) {v w : Value} {args args' : List Value} (hv : Same ρ v w)
    (hargs : Same ρ args args') :
    Agree uses ρ Same (callValue callee v args) (callValue callee w args') := by
  cases hv with
  | plain hplain =>
    cases v with
    | function f =>
      exact agree_attempt fun _ hle _ _ hstores => hstores.callFunction f (Named.mono hle hargs)
    | _ => exact agree_fail _
  | array => exact agree_fail _
  | object => exact agree_fail _
  | cell => exact agree_fail _

theorem agree_readPlace {p q : Place} (h : SamePlace uses ρ p q) :
    Agree uses ρ Same (readPlace p) (readPlace q) := by
  cases h with
  | slot hi => exact agree_readSlot hi
  | unbound name => exact agree_fail _
  | property hv key => exact agree_memberOf hv key

theorem agree_writePlace {p q : Place} {v w : Value} (h : SamePlace uses ρ p q)
    (hv : Same ρ v w) : Agree uses ρ Same (writePlace p v) (writePlace q w) := by
  refine Agree.replacing ?_
  cases h with
  | slot hi =>
    exact agree_modify fun _ hle _ _ hframes => hframes.writeSlot hi (Named.mono hle hv)
  | unbound name => exact agree_fail _
  | property ho key =>
    exact agree_attempt fun _ hle _ _ hstores =>
      hstores.setMember (Named.mono hle ho) key (Named.mono hle hv)

end Evaluation

end LiveMarkup.Eval
