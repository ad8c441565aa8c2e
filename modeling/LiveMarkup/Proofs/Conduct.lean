import LiveMarkup.Proofs.Evaluation
import LiveMarkup.Proofs.SealedChains

/-!
# The conduct of computations

Two things may be said of a computation whatever it computes: how the frame that it ends in is
related to the one that it began in, and in which ways it may end early.  Where the relation holds
across every step, and every early end is one of these ways, both hold of what is built from the
steps.  Giving up references, making arrays and objects and calling functions are part of every
computation, so every relation has to hold across them, and everything may fail.

An expression can end in a short circuit only through an optional link of the chain that it is.  The
links of its operands, which are chains of their own, are caught inside them, as long as no operand
is an open chain.

## Main definitions

* `Conduct` — a relation that may hold between the frames of a computation.
* `Exits` — ways to end early.
* `Evaluation.Observes` — a computation that keeps to a conduct and to some exits.
* `Suits` — an expression whose own calls and writes keep to a conduct.

## Main results

* `Observes.bind`, `Observes.tryCatch`, `Observes.holding`, … — what is built keeps to it too.
* `observes_evalExpr` — expressions do, if their parts suit the conduct.
* `observes_evalBody` — the bodies of functions do.
-/

namespace LiveMarkup.Eval

open Syntax

/-! ### Conducts -/

/-- A relation that may hold between the frames of a computation. -/
structure Conduct where
  /-- What a frame may become. -/
  leads : Frame → Frame → Prop
  refl (f : Frame) : leads f f
  trans {f g h : Frame} : leads f g → leads g h → leads f h
  letGo (f : Frame) (kept lost : List Entity) : leads f (f.letGo kept lost)
  newArray (f : Frame) (vs : List Value) :
    leads f { f with store := (f.store.newArrayValue vs).1 }
  newObject (f : Frame) (b : Bindings Value) : leads f { f with store := (f.store.newObject b).1 }
  callFunction (f : Frame) (g : Function) (args : List Value) :
    leads f { f with store := (f.store.callFunction g args).1 }

/-- Writing keeps to the conduct. -/
structure Conduct.Writes (C : Conduct) : Prop where
  slot (f : Frame) (i : Nat) (v : Value) : C.leads f (f.writeSlot i v)
  member (f : Frame) (target : Value) (key : String) (v : Value) :
    C.leads f { f with store := (setMember f.store target key v).1 }

/-- Calling a member keeps to the conduct. -/
def Conduct.Calls (C : Conduct) (receiver : Value) (name : String) : Prop :=
  ∀ (f : Frame) (args : List Value) (optional : Bool),
    C.leads f { f with store := (callMember f.store receiver name args optional).1 }

/-- The ways to end early beside failing. -/
structure Exits where
  /-- Whether a link may end the chain. -/
  opens : Bool := false
  /-- Whether there may be a return. -/
  returns : Bool := false

/-- Whether a computation may end early in such a way. -/
def Exits.Permit (x : Exits) : Interrupt → Prop
  | .failed _ => True
  | .shortCircuit => x.opens = true
  | .returned _ => x.returns = true

variable {α β : Type} {C : Conduct} {x y : Exits}

/-- A computation keeps to a conduct and ends early only in some ways. -/
def Evaluation.Observes (C : Conduct) (x : Exits) (k : Evaluation α) : Prop :=
  ∀ (held : List Entity) (frame : Frame),
    C.leads frame ((k held).run.run frame).2 ∧
      ∀ i, ((k held).run.run frame).1 = .error i → x.Permit i

/-- A result that a computation can have. -/
def Evaluation.Yields (k : Evaluation α) (r : α) : Prop :=
  ∃ held frame, ((k held).run.run frame).1 = .ok r

namespace Evaluation

variable {k : Evaluation α}

/-! ### Results -/

theorem yields_pure {r r' : α} (h : (pure r : Evaluation α).Yields r') : r = r' := by
  obtain ⟨held, frame, hrun⟩ := h
  exact Except.ok.inj hrun

theorem yields_bind {f : α → Evaluation β} {r : β} (h : (k >>= f).Yields r) :
    ∃ r', k.Yields r' ∧ (f r').Yields r := by
  obtain ⟨held, frame, hrun⟩ := h
  rw [run_bind] at hrun
  revert hrun
  cases hfirst : (k held).run.run frame with
  | mk outcome frame' =>
    cases outcome with
    | error i => nofun
    | ok r' => exact fun hrun => ⟨r', ⟨held, frame, by rw [hfirst]⟩, held, frame', hrun⟩

/-- What an attempt gives is what the store gives. -/
theorem yields_attempt {f : Store → Outcome α} {r : α} (h : (attempt f).Yields r) :
    ∃ s, (f s).2 = .ok r := by
  obtain ⟨held, frame, hrun⟩ := h
  refine ⟨frame.store, ?_⟩
  rw [attempt, run_bind] at hrun
  change ((ofExcept (f frame.store).2 held).run.run { frame with store := (f frame.store).1 }).1 = _
    at hrun
  cases hresult : (f frame.store).2 with
  | ok r' =>
    rw [hresult] at hrun
    cases hrun
    rfl
  | error e =>
    rw [hresult] at hrun
    cases hrun

/-! ### Computations -/

theorem observes_pure (r : α) : Observes C x (pure r) := fun _ frame => ⟨C.refl frame, nofun⟩

theorem observes_throw {i : Interrupt} (h : x.Permit i) :
    Observes C x (throw i : Evaluation α) := by
  refine fun _ frame => ⟨C.refl frame, fun j hj => ?_⟩
  cases hj
  exact h

theorem observes_fail (e : EvalError) : Observes C x (fail e : Evaluation α) :=
  observes_throw trivial

/-- A short circuit is an exit where chains may be open. -/
theorem observes_shortCircuit (h : x.opens = true) :
    Observes C x (throw .shortCircuit : Evaluation α) :=
  observes_throw h

theorem Observes.mono (hk : Observes C x k) (hopens : x.opens = true → y.opens = true)
    (hreturns : x.returns = true → y.returns = true) : Observes C y k := by
  refine fun held frame => ⟨(hk held frame).1, fun i hi => ?_⟩
  have hpermit := (hk held frame).2 i hi
  cases i with
  | failed e => trivial
  | returned v => exact hreturns hpermit
  | shortCircuit => exact hopens hpermit

/-- What comes after a computation has to be looked at only for the results that there are. -/
theorem Observes.bind_yields {f : α → Evaluation β} (hk : Observes C x k)
    (hf : ∀ r, k.Yields r → Observes C x (f r)) : Observes C x (k >>= f) := by
  intro held frame
  have hfirst := hk held frame
  have hyields : ∀ r, ((k held).run.run frame).1 = .ok r → k.Yields r :=
    fun _ hr => ⟨held, frame, hr⟩
  rw [run_bind]
  revert hfirst hyields
  rcases (k held).run.run frame with ⟨i | r, frame'⟩ <;> intro hfirst hyields
  · refine ⟨hfirst.1, fun j hj => ?_⟩
    cases hj
    exact hfirst.2 i rfl
  · have hnext := hf r (hyields r rfl) held frame'
    exact ⟨C.trans hfirst.1 hnext.1, hnext.2⟩

theorem Observes.bind {f : α → Evaluation β} (hk : Observes C x k)
    (hf : ∀ r, Observes C x (f r)) : Observes C x (k >>= f) :=
  hk.bind_yields fun r _ => hf r

/-- What is caught may end early in other ways. -/
theorem Observes.tryCatch {f : Interrupt → Evaluation α} (hk : Observes C y k)
    (hf : ∀ i, y.Permit i → Observes C x (f i)) : Observes C x (tryCatch k f) := by
  intro held frame
  have hfirst := hk held frame
  rw [run_tryCatch]
  revert hfirst
  rcases (k held).run.run frame with ⟨i | r, frame'⟩ <;> intro hfirst
  · have hnext := hf i (hfirst.2 i rfl) held frame'
    exact ⟨C.trans hfirst.1 hnext.1, hnext.2⟩
  · exact ⟨hfirst.1, nofun⟩

theorem observes_get : Observes C x (get : Evaluation Frame) :=
  fun _ frame => ⟨C.refl frame, nofun⟩

theorem observes_ask (f : Store → α) : Observes C x (ask f) :=
  fun _ frame => ⟨C.refl frame, nofun⟩

theorem observes_modify {f : Frame → Frame} (h : ∀ frame, C.leads frame (f frame)) :
    Observes C x (modify f) :=
  fun _ frame => ⟨h frame, nofun⟩

theorem observes_act {f : Store → Store × α}
    (h : ∀ frame : Frame, C.leads frame { frame with store := (f frame.store).1 }) :
    Observes C x (act f) :=
  fun _ frame => ⟨h frame, nofun⟩

theorem observes_ofExcept (result : Except EvalError α) : Observes C x (ofExcept result) := by
  cases result with
  | ok r => exact observes_pure r
  | error e => exact observes_fail e

theorem observes_attempt {f : Store → Outcome α}
    (h : ∀ frame : Frame, C.leads frame { frame with store := (f frame.store).1 }) :
    Observes C x (attempt f) :=
  (observes_act h).bind observes_ofExcept

/-! ### Held values -/

theorem observes_letGo (lost : List Entity) : Observes C x (letGo lost) :=
  fun held frame => ⟨C.letGo frame held lost, nofun⟩

theorem Observes.holding [Referring α] (es : List Entity) (hk : Observes C x k) :
    Observes C x (holding es k) := by
  intro held frame
  obtain ⟨hleads, hexits⟩ := hk (es ++ held) frame
  exact ⟨C.trans hleads (C.letGo _ _ _), hexits⟩

theorem Observes.keeping (es : List Entity) (hk : Observes C x k) :
    Observes C x (keeping es k) := by
  intro held frame
  have hfirst := hk (es ++ held) frame
  rw [run_keeping]
  revert hfirst
  rcases (k (es ++ held)).run.run frame with ⟨i | r, frame'⟩ <;> intro hfirst
  · refine ⟨C.trans hfirst.1 (C.letGo _ _ _), fun j hj => ?_⟩
    cases hj
    exact hfirst.2 i rfl
  · exact ⟨hfirst.1, nofun⟩

theorem observes_askOf [Referring α] (v : Value) (f : Store → Value → α) :
    Observes C x (askOf v f) :=
  (observes_ask _).holding _

theorem Observes.replacing {change : Evaluation Unit} (h : Observes C x change) :
    Observes C x (replacing change) :=
  observes_get.bind fun _ => h.bind fun _ => observes_get.bind fun _ => observes_letGo _

/-! ### Steps -/

theorem observes_readSlot (i : Nat) : Observes C x (readSlot i) :=
  observes_get.bind fun _ => observes_pure _

/-- A link ends the chain only if it is optional. -/
theorem observes_checkLink {optional : Bool} (h : optional = true → x.opens = true)
    (target : Value) : Observes C x (checkLink optional target) := by
  unfold checkLink
  refine (observes_ask _).bind fun nullish => ?_
  split
  · next hends => exact observes_shortCircuit (h (Bool.and_eq_true_iff.1 hends).1)
  · exact observes_pure _

theorem observes_memberOf (target : Value) (key : String) : Observes C x (memberOf target key) :=
  (observes_ask _).bind observes_ofExcept

/-- Only an optional call can have nothing to call, and then it does nothing. -/
theorem callMember_of_none {s : Store} {receiver : Value} {name : String} {args : List Value}
    {optional : Bool} (h : (callMember s receiver name args optional).2 = .ok none) :
    optional = true ∧ (callMember s receiver name args optional).1 = s := by
  unfold callMember at h ⊢
  dsimp only at h ⊢
  split at h
  · cases h
  · split at h
    · unfold callBuiltinMember at h ⊢
      dsimp only at h ⊢
      split at h
      · cases h
      · cases h
      · -- no builtin method has the name
        split at h
        · next hoptional => exact ⟨hoptional, by simp [hoptional]⟩
        · cases h
    · split at h
      · unfold callMemberFunction at h
        split at h <;> cases h
      · split at h
        · next hnullish => exact ⟨(Bool.and_eq_true_iff.1 hnullish).1, by simp [hnullish]⟩
        · cases h

/-- The call of a member ends the chain only if it is optional. -/
theorem observes_callMemberOf {optional : Bool} (h : optional = true → x.opens = true)
    {receiver : Value} {name : String} (hcall : C.Calls receiver name) (args : List Value) :
    Observes C x (callMemberOf receiver name args optional) := by
  unfold callMemberOf
  have hattempt : Observes C x (attempt fun s => callMember s receiver name args optional) :=
    observes_attempt fun frame => hcall frame args optional
  refine hattempt.bind_yields fun result hresult => ?_
  cases result with
  | some v => exact observes_pure v
  | none =>
    obtain ⟨s, hnone⟩ := yields_attempt hresult
    exact observes_shortCircuit (h (callMember_of_none hnone).1)

theorem observes_callValue (callee : Expr) (f : Value) (args : List Value) :
    Observes C x (callValue callee f args) := by
  unfold callValue
  split
  · exact observes_attempt fun frame => C.callFunction frame _ args
  · exact observes_fail _

theorem observes_readPlace (place : Place) : Observes C x (readPlace place) := by
  cases place with
  | slot i => exact observes_readSlot i
  | unbound name => exact observes_fail _
  | property object key => exact observes_memberOf object key

theorem observes_writePlace (h : C.Writes) (place : Place) (v : Value) :
    Observes C x (writePlace place v) := by
  refine Observes.replacing ?_
  cases place with
  | slot i => exact observes_modify fun frame => h.slot frame i v
  | unbound name => exact observes_fail _
  | property object key => exact observes_attempt fun frame => h.member frame object key v

end Evaluation

open Evaluation

/-! ### Expressions -/

/-- The calls and writes of an expression, apart from those of its parts, keep to a conduct. -/
def Suits (C : Conduct) : Expr → Prop
  | .assign .. | .update .. => C.Writes
  | .call callee _ _ => ∀ receiver r, evalReceiver callee = some receiver →
    Evaluation.Yields receiver r → C.Calls r.1 r.2
  | _ => True

/-- An expression suits a conduct and, unless short circuits are of no concern, its operands are
closed. -/
structure Conducted (C : Conduct) (loose : Bool) (e : Expr) : Prop where
  suits : Suits C e
  seals : loose = true ∨ e.Seals

/-- How an expression may end early: in a short circuit only if it is an open chain, or if short
circuits are of no concern. -/
def exitsOf (loose : Bool) (e : Expr) : Exits := { opens := loose || e.isOpen }

variable {loose : Bool} {e inner : Expr} {k : Evaluation α}

/-- What the computation of a part may end in may be passed on, if the part is open only when the
whole is. -/
theorem Evaluation.Observes.part (hk : Observes C (exitsOf loose inner) k) {x : Exits}
    (hloose : loose = true → x.opens = true) (hopen : inner.isOpen = true → x.opens = true) :
    Observes C x k := by
  refine hk.mono (fun h => ?_) nofun
  rcases Bool.or_eq_true_iff.1 h with h | h
  · exact hloose h
  · exact hopen h

theorem exitsOf_loose (h : loose = true) (e : Expr) : (exitsOf loose e).opens = true := by
  rw [exitsOf, h, Bool.true_or]

theorem exitsOf_open (h : e.isOpen = true) : (exitsOf loose e).opens = true := by
  rw [exitsOf, h, Bool.or_true]

/-- What is closed ends in no short circuit, unless that is of no concern. -/
theorem Evaluation.Observes.closed (hk : Observes C (exitsOf loose inner) k) {x : Exits}
    (hloose : loose = true → x.opens = true) (hclosed : loose = true ∨ inner.isOpen = false) :
    Observes C x k := by
  refine hk.part hloose fun hopen => ?_
  rcases hclosed with h | h
  · exact hloose h
  · rw [h] at hopen
    cases hopen

/-- What an operand ends in may be passed on, since it is closed. -/
theorem Evaluation.Observes.operand (hk : Observes C (exitsOf loose inner) k)
    (he : Conducted C loose e) (hinner : inner ∈ e.operands) : Observes C (exitsOf loose e) k := by
  exact hk.closed (exitsOf_loose · e) (he.seals.imp_right fun h => h inner hinner)

/-- An operand of an expression is conducted, and closed unless that is of no concern. -/
structure Closed (C : Conduct) (loose : Bool) (e : Expr) : Prop where
  all : e.All (Conducted C loose)
  closed : loose = true ∨ e.isOpen = false

theorem Conducted.closed {operands : List Expr} (he : Conducted C loose e)
    (hoperands : ∀ operand ∈ operands, operand ∈ e.operands)
    (hall : ∀ operand ∈ operands, operand.All (Conducted C loose)) :
    ∀ operand ∈ operands, Closed C loose operand :=
  fun operand hmem =>
    ⟨hall operand hmem, he.seals.imp_right fun h => h operand (hoperands operand hmem)⟩

mutual

/-- An expression keeps to a conduct that its parts suit, and ends in a short circuit only if it is
an open chain. -/
theorem observes_evalExpr (e : Expr) (he : e.All (Conducted C loose)) :
    Observes C (exitsOf loose e) (evalExpr e) := by
  have hhere : Conducted C loose e := he e (by cases e <;> simp)
  cases e with
  | literal l => exact observes_pure _
  | array items =>
    rw [evalExpr]
    exact (observes_evalList [] items (exitsOf_loose · _)
      (hhere.closed (fun _ => id) (all_array.1 he).2)).bind fun vs =>
        observes_act fun frame => C.newArray frame vs
  | object properties =>
    rw [evalExpr]
    have hproperties : ∀ operand ∈ properties.map Prod.snd, Closed C loose operand :=
      hhere.closed (fun _ => id) (List.forall_mem_map.2 (all_object.1 he).2)
    exact (observes_evalProperties .empty properties (exitsOf_loose · _)
      (List.forall_mem_map.1 hproperties)).bind fun b =>
        observes_act fun frame => C.newObject frame b
  | param slot name => exact observes_readSlot slot
  | declared slot name => exact observes_readSlot slot
  | global g => exact observes_pure _
  | unbound name => exact observes_fail _
  | member object property optional =>
    have hobject : Observes C (exitsOf loose (.member object property optional))
        (evalExpr object) :=
      (observes_evalExpr object (all_member.1 he).2).part (exitsOf_loose · _) fun h =>
        exitsOf_open (Bool.or_eq_true_iff.2 (.inr h))
    have hoptional : optional = true →
        (exitsOf loose (.member object property optional)).opens = true := fun h =>
      exitsOf_open (Bool.or_eq_true_iff.2 (.inl h))
    rw [evalExpr]
    exact hobject.bind fun target => ((observes_checkLink hoptional target).bind fun _ =>
      observes_memberOf target property).holding _
  | index object key optional =>
    have hobject : Observes C (exitsOf loose (.index object key optional)) (evalExpr object) :=
      (observes_evalExpr object (all_index.1 he).2.1).part (exitsOf_loose · _) fun h =>
        exitsOf_open (Bool.or_eq_true_iff.2 (.inr h))
    have hkey : Observes C (exitsOf loose (.index object key optional)) (evalExpr key) :=
      (observes_evalExpr key (all_index.1 he).2.2).operand hhere (by simp [Expr.operands])
    have hoptional : optional = true →
        (exitsOf loose (.index object key optional)).opens = true := fun h =>
      exitsOf_open (Bool.or_eq_true_iff.2 (.inl h))
    rw [evalExpr]
    exact hobject.bind fun target => ((observes_checkLink hoptional target).bind fun _ =>
      hkey.bind fun key => (observes_askOf key _).bind fun key =>
        observes_memberOf target key).holding _
  | call callee args optional =>
    obtain ⟨-, hcallee, hargs⟩ := all_call.1 he
    have hcalleeOpen : callee.isOpen = true →
        (exitsOf loose (.call callee args optional)).opens = true := fun h =>
      exitsOf_open (Bool.or_eq_true_iff.2 (.inr h))
    have hoptional : optional = true →
        (exitsOf loose (.call callee args optional)).opens = true := fun h =>
      exitsOf_open (Bool.or_eq_true_iff.2 (.inl h))
    have hlist : Observes C (exitsOf loose (.call callee args optional)) (evalList [] args) :=
      observes_evalList [] args (exitsOf_loose · _) (hhere.closed (fun _ => id) hargs)
    rw [evalExpr]
    cases hreceiver : evalReceiver callee with
    | some receiver =>
      exact (observes_evalReceiver callee hcallee receiver hreceiver (exitsOf_loose · _)
        hcalleeOpen).bind_yields fun r hr => (hlist.bind fun args =>
          (observes_callMemberOf hoptional (hhere.suits receiver r hreceiver hr)
            args).holding _).holding _
    | none =>
      refine ((observes_evalExpr callee hcallee).part (exitsOf_loose · _) hcalleeOpen).bind fun f =>
        (observes_askOf f _).bind fun f => Observes.holding _ ?_
      have hvalue : Observes C (exitsOf loose (.call callee args optional)) (do
          let args ← evalList [] args
          holding (references args) (callValue callee f args)) :=
        hlist.bind fun args => (observes_callValue callee f args).holding _
      split
      · next hends =>
        exact (observes_shortCircuit (hoptional (Bool.and_eq_true_iff.1 hends).1)).bind
          fun _ => hvalue
      · exact hvalue
  | optionalChain chain =>
    rw [evalExpr]
    -- only a short circuit can come out of the chain beside a failure, and is caught
    refine (observes_evalExpr chain (all_optionalChain.1 he).2).tryCatch fun i hi => ?_
    cases i with
    | shortCircuit => exact observes_pure _
    | failed e => exact observes_throw trivial
    | returned v => cases hi
  | unary op operand =>
    rw [evalExpr]
    split
    · exact observes_pure _
    · exact ((observes_evalExpr operand (all_unary.1 he).2).operand hhere
        (by simp [Expr.operands])).bind fun v => observes_askOf v _
  | binary op left right =>
    obtain ⟨-, hleft, hright⟩ := all_binary.1 he
    rw [evalExpr]
    exact ((observes_evalExpr left hleft).operand hhere (by simp [Expr.operands])).bind fun left =>
      (((observes_evalExpr right hright).operand hhere (by simp [Expr.operands])).bind fun right =>
        observes_askOf right _).holding _
  | logical op left right =>
    obtain ⟨-, hleft, hright⟩ := all_logical.1 he
    rw [evalExpr]
    refine ((observes_evalExpr left hleft).operand hhere (by simp [Expr.operands])).bind fun left =>
      (observes_ask _).bind fun stops => ?_
    split
    · exact observes_pure left
    · exact ((observes_evalExpr right hright).operand hhere (by simp [Expr.operands])).holding _
  | conditional test consequent alternate =>
    obtain ⟨-, htest, hconsequent, halternate⟩ := all_conditional.1 he
    rw [evalExpr]
    refine ((observes_evalExpr test htest).operand hhere (by simp [Expr.operands])).bind fun test =>
      (observes_askOf test _).bind fun holds => ?_
    split
    · exact (observes_evalExpr consequent hconsequent).operand hhere (by simp [Expr.operands])
    · exact (observes_evalExpr alternate halternate).operand hhere (by simp [Expr.operands])
  | assign op target value =>
    obtain ⟨-, htarget, hvalue⟩ := all_assign.1 he
    have hoperand : Observes C (exitsOf loose (.assign op target value)) (evalExpr value) :=
      (observes_evalExpr value hvalue).operand hhere (by simp [Expr.operands])
    rw [evalExpr]
    -- whichever operand is computed, it is written and then given
    refine ((observes_evalPlace target htarget).operand hhere (by simp [Expr.operands])).bind
      fun place => Observes.bind ?_ fun v =>
        (((observes_writePlace hhere.suits place v).holding _).keeping _).bind fun _ =>
          observes_pure v
    cases op with
    | assign => exact hoperand.keeping _
    | compound op =>
      exact Observes.keeping _ ((observes_readPlace place).bind fun current =>
        (hoperand.bind fun operand => observes_askOf operand _).holding _)
  | update op result target =>
    rw [evalExpr]
    exact ((observes_evalPlace target (all_update.1 he).2).operand hhere
      (by simp [Expr.operands])).bind fun place =>
        (((observes_readPlace place).bind fun current => observes_askOf current _).keeping _).bind
          fun old => ((observes_writePlace hhere.suits place _).holding _).bind fun _ =>
            observes_pure _

theorem observes_evalList (done : List Value) (es : List Expr) {x : Exits}
    (hloose : loose = true → x.opens = true) (hes : ∀ e ∈ es, Closed C loose e) :
    Observes C x (evalList done es) := by
  cases es with
  | nil => exact observes_pure done
  | cons e rest =>
    obtain ⟨he, hrest⟩ := List.forall_mem_cons.1 hes
    rw [evalList]
    exact (((observes_evalExpr e he.all).closed hloose he.closed).keeping _).bind fun v =>
      observes_evalList (done ++ [v]) rest hloose hrest

theorem observes_evalProperties (done : Bindings Value) (es : List (String × Expr)) {x : Exits}
    (hloose : loose = true → x.opens = true) (hes : ∀ p ∈ es, Closed C loose p.2) :
    Observes C x (evalProperties done es) := by
  match es, hes with
  | [], _ => exact observes_pure done
  | (key, e) :: rest, hes =>
    obtain ⟨he, hrest⟩ := List.forall_mem_cons.1 hes
    rw [evalProperties]
    exact (((observes_evalExpr e he.all).closed hloose he.closed).keeping _).bind fun v =>
      ((observes_letGo _).keeping _).bind fun _ => observes_evalProperties _ rest hloose hrest

theorem observes_evalPlace (e : Expr) (he : e.All (Conducted C loose)) :
    Observes C (exitsOf loose e) (evalPlace e) := by
  have hhere : Conducted C loose e := he e (by cases e <;> simp)
  cases e with
  | param slot name => exact observes_pure _
  | declared slot name => exact observes_pure _
  | unbound name => exact observes_pure _
  | member object property optional =>
    have hobject : Observes C (exitsOf loose (.member object property optional))
        (evalExpr object) :=
      (observes_evalExpr object (all_member.1 he).2).part (exitsOf_loose · _) fun h =>
        exitsOf_open (Bool.or_eq_true_iff.2 (.inr h))
    rw [evalPlace]
    exact hobject.bind fun _ => observes_pure _
  | index object key optional =>
    have hobject : Observes C (exitsOf loose (.index object key optional)) (evalExpr object) :=
      (observes_evalExpr object (all_index.1 he).2.1).part (exitsOf_loose · _) fun h =>
        exitsOf_open (Bool.or_eq_true_iff.2 (.inr h))
    have hkey : Observes C (exitsOf loose (.index object key optional)) (evalExpr key) :=
      (observes_evalExpr key (all_index.1 he).2.2).operand hhere (by simp [Expr.operands])
    rw [evalPlace]
    exact hobject.bind fun object => ((hkey.bind fun key => observes_askOf key _).keeping _).bind
      fun _ => observes_pure _
  | _ => exact observes_fail _

theorem observes_evalReceiver (e : Expr) (he : e.All (Conducted C loose))
    (receiver : Evaluation (Value × String)) (h : evalReceiver e = some receiver) {x : Exits}
    (hloose : loose = true → x.opens = true) (hopen : e.isOpen = true → x.opens = true) :
    Observes C x receiver := by
  have hhere : Conducted C loose e := he e (by cases e <;> simp)
  cases e with
  | member object property optional =>
    rw [evalReceiver] at h
    cases h
    have hobject : Observes C x (evalExpr object) :=
      (observes_evalExpr object (all_member.1 he).2).part hloose fun h =>
        hopen (Bool.or_eq_true_iff.2 (.inr h))
    have hoptional : optional = true → x.opens = true := fun h =>
      hopen (Bool.or_eq_true_iff.2 (.inl h))
    exact hobject.bind fun receiver =>
      ((observes_checkLink hoptional receiver).keeping _).bind fun _ => observes_pure _
  | index object key optional =>
    rw [evalReceiver] at h
    cases h
    have hobject : Observes C x (evalExpr object) :=
      (observes_evalExpr object (all_index.1 he).2.1).part hloose fun h =>
        hopen (Bool.or_eq_true_iff.2 (.inr h))
    have hkey : Observes C x (evalExpr key) :=
      ((observes_evalExpr key (all_index.1 he).2.2).operand hhere
        (by simp [Expr.operands])).part hloose hopen
    have hoptional : optional = true → x.opens = true := fun h =>
      hopen (Bool.or_eq_true_iff.2 (.inl h))
    exact hobject.bind fun receiver =>
      (Observes.keeping _ ((observes_checkLink hoptional receiver).bind fun _ =>
        hkey.bind fun key => observes_askOf key _)).bind fun _ => observes_pure _
  | _ => cases h

end

/-! ### Statements and functions -/

/-- Filling a slot keeps to the conduct. -/
def Conduct.Fills (C : Conduct) : Prop :=
  ∀ (f : Frame) (i : Nat) (v : Value), C.leads f (f.setSlot i v)

/-- How statements may end early: like closed expressions, or in a return. -/
def statementExits (loose : Bool) : Exits := { opens := loose, returns := true }

/-- The expressions of a statement are conducted and closed. -/
def Proper (C : Conduct) (loose : Bool) (s : Stmt) : Prop := ∀ e ∈ s.expressions, Closed C loose e

theorem observes_statement_expr (he : Closed C loose e) :
    Observes C (statementExits loose) (evalExpr e) :=
  (observes_evalExpr e he.all).closed id he.closed

theorem observes_declareAll (hfill : C.Fills) (declarators : List (Nat × Option Expr))
    (h : ∀ d ∈ declarators, ∀ e ∈ d.2, Closed C loose e) :
    Observes C (statementExits loose) (declareAll declarators) := by
  induction declarators with
  | nil => exact observes_pure ()
  | cons declarator rest ih =>
    obtain ⟨slot, init⟩ := declarator
    obtain ⟨hinit, hrest⟩ := List.forall_mem_cons.1 h
    have hfilled (v : Value) : Observes C (statementExits loose) (do
        fillSlot slot v
        declareAll rest) :=
      (Observes.replacing (observes_modify fun frame => hfill frame slot v)).bind fun _ => ih hrest
    unfold declareAll
    cases init with
    | none => exact hfilled .undefined
    | some e => exact (observes_statement_expr (hinit e rfl)).bind hfilled

mutual

/-- A statement keeps to a conduct that its expressions suit. -/
theorem observes_execStmt (hfill : C.Fills) (s : Stmt) (hs : s.All (Proper C loose)) :
    Observes C (statementExits loose) (execStmt s) := by
  cases s with
  | empty => exact observes_pure ()
  | expression e =>
    rw [execStmt]
    have he : Closed C loose e := Stmt.all_expression.1 hs e List.mem_cons_self
    exact (observes_statement_expr he).bind fun v => observes_letGo _
  | block statements =>
    rw [execStmt]
    exact observes_execList hfill statements (Stmt.all_block.1 hs).2
  | declare declarators =>
    rw [execStmt]
    refine observes_declareAll hfill declarators fun d hd e he => Stmt.all_declare.1 hs e ?_
    exact List.mem_filterMap.2 ⟨d, hd, he⟩
  | conditional test consequent alternate =>
    obtain ⟨htest, hconsequent, halternate⟩ := Stmt.all_conditional.1 hs
    rw [execStmt]
    refine (observes_statement_expr (htest test List.mem_cons_self)).bind fun test =>
      (observes_askOf test _).bind fun holds => ?_
    split
    · exact observes_execStmt hfill consequent hconsequent
    · exact observes_execOption hfill alternate halternate
  | returns value =>
    unfold execStmt
    cases value with
    | none => exact (observes_pure _).bind fun v => observes_throw rfl
    | some e =>
      have he : Closed C loose e := Stmt.all_returns.1 hs e List.mem_cons_self
      exact (observes_statement_expr he).bind fun v => observes_throw rfl

theorem observes_execList (hfill : C.Fills) (statements : List Stmt)
    (hs : ∀ s ∈ statements, s.All (Proper C loose)) :
    Observes C (statementExits loose) (execList statements) := by
  cases statements with
  | nil => exact observes_pure ()
  | cons s rest =>
    obtain ⟨hfirst, hrest⟩ := List.forall_mem_cons.1 hs
    rw [execList]
    exact (observes_execStmt hfill s hfirst).bind fun _ => observes_execList hfill rest hrest

theorem observes_execOption (hfill : C.Fills) (s : Option Stmt)
    (hs : ∀ x ∈ s, x.All (Proper C loose)) :
    Observes C (statementExits loose) (execOption s) := by
  cases s with
  | none => exact observes_pure ()
  | some s =>
    rw [execOption]
    exact observes_execStmt hfill s (hs s rfl)

end

/-- How the body of a function may end early: an expression in no return. -/
def bodyExits (loose : Bool) : Body → Exits
  | .expression _ => { opens := loose }
  | .statements _ => statementExits loose

/-- The body of a function keeps to a conduct that its expressions suit. -/
theorem observes_evalBody (hfill : C.Fills) (body : Body)
    (hbody : ∀ e ∈ body.expressions, Closed C loose e) :
    Observes C (bodyExits loose body) (evalBody body) := by
  cases body with
  | expression e =>
    have he : Closed C loose e := hbody e List.mem_cons_self
    exact (observes_evalExpr e he.all).closed id he.closed
  | statements statements =>
    exact (observes_execList hfill statements (forall_mem_expressions.1 hbody)).bind fun _ =>
      observes_pure _

end LiveMarkup.Eval
