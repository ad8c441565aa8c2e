import LiveMarkup.Proofs.OptionalLinks

/-!
# Short circuits end where they belong

A nullish optional link ends the computation of everything around it, up to the optional chain that
it is a link of.  The evaluator has no rule that would stop it elsewhere: a short circuit in an
argument, an index or a statement would end the call, the member or the function around it.  That
this never happens is due to the parser, which leaves no chain open that is an operand.

So the only short circuits of an expression come from its own links, and these are caught where the
chain ends.  What is not a chain in the making has a value or fails, and a function never ends in a
short circuit.

## Main definitions

* `Evaluation.Shorts` — a computation that ends in a short circuit.
* `Contained` — a computation that ends in no short circuit and no return.

## Main results

* `breaks_of_shorts` — where a chain ends in a short circuit, one of its links ends it.
* `short_circuits_are_caught` — by the optional chain of that link, in every program.
-/

namespace LiveMarkup

open Eval Eval.Evaluation Syntax

namespace Eval

variable {α β : Type}

/-- The computation ends in a short circuit, in the given frame. -/
def Evaluation.Shorts (k : Evaluation α) (held : List Entity) (frame after : Frame) : Prop :=
  k.outcome held frame = (.error .shortCircuit, after)

namespace Evaluation

variable {k : Evaluation α} {f : α → Evaluation β} {held es : List Entity} {frame after : Frame}

theorem shorts_bind (h : (k >>= f).Shorts held frame after) :
    k.Shorts held frame after ∨
      ∃ x mid, k.outcome held frame = (.ok x, mid) ∧ (f x).Shorts held mid after := by
  cases hfirst : k.outcome held frame with
  | mk result mid =>
    cases result with
    | ok x => exact .inr ⟨x, mid, rfl, (outcome_bind_ok hfirst).symm.trans h⟩
    | error i =>
      have herror : (Except.error i, mid) = (.error .shortCircuit, after) :=
        (outcome_bind_error hfirst).symm.trans h
      cases herror
      exact .inl hfirst

theorem shorts_holding [Referring α] (h : (holding es k).Shorts held frame after) :
    ∃ mid, k.Shorts (es ++ held) frame mid ∧ after = mid.letGo held es := by
  cases hinner : k.outcome (es ++ held) frame with
  | mk result mid =>
    cases (outcome_holding hinner).symm.trans h
    exact ⟨mid, hinner, rfl⟩

theorem shorts_keeping (h : (keeping es k).Shorts held frame after) :
    ∃ mid, k.Shorts (es ++ held) frame mid ∧ after = mid.letGo held es := by
  cases hinner : k.outcome (es ++ held) frame with
  | mk result mid =>
    cases result with
    | error i =>
      cases (outcome_keeping_error hinner).symm.trans h
      exact ⟨mid, hinner, rfl⟩
    | ok x => cases (outcome_keeping_ok hinner).symm.trans h

/-- A link ends the chain only if it is optional and what it goes on from is nullish. -/
theorem shorts_checkLink {optional : Bool} {target : Value}
    (h : (checkLink optional target).Shorts held frame after) :
    optional = true ∧ holdsNullish frame.store target = true ∧ after = frame := by
  cases hends : optional && holdsNullish frame.store target with
  | true =>
    obtain ⟨rfl, hnullish⟩ := Bool.and_eq_true_iff.1 hends
    cases (outcome_checkLink hnullish).symm.trans h
    exact ⟨rfl, hnullish, rfl⟩
  | false =>
    unfold checkLink at h
    rcases shorts_bind h with hask | ⟨nullish, mid, hask, hrest⟩
    · cases hask
    · cases hask
      rw [hends] at hrest
      cases hrest

theorem outcome_attempt_ok {f : Store → Outcome α} {x : α}
    (h : (attempt f).outcome held frame = (.ok x, after)) :
    (f frame.store).2 = .ok x ∧ after = { frame with store := (f frame.store).1 } := by
  have hrun : (attempt f).outcome held frame =
      ((f frame.store).2.mapError .failed, { frame with store := (f frame.store).1 }) :=
    outcome_attempt rfl
  have hattempt := hrun.symm.trans h
  cases hresult : (f frame.store).2 with
  | ok y =>
    rw [hresult] at hattempt
    cases hattempt
    exact ⟨rfl, rfl⟩
  | error e =>
    rw [hresult] at hattempt
    cases hattempt

end Evaluation

/-! ### What keeps short circuits inside -/

open Evaluation

variable {k : Evaluation α} {f : α → Evaluation β} {held : List Entity} {frame after : Frame}

/-- Whatever may become of a frame. -/
def lenient : Conduct where
  leads _ _ := True
  refl _ := trivial
  trans _ _ := trivial
  letGo _ _ _ := trivial
  newArray _ _ := trivial
  newObject _ _ := trivial
  callFunction _ _ _ := trivial

theorem suits_lenient (e : Expr) : Suits lenient e := by
  cases e with
  | call => exact fun _ _ _ _ _ _ _ => trivial
  | assign | update => exact ⟨fun _ _ _ => trivial, fun _ _ _ _ => trivial⟩
  | _ => trivial

theorem all_lenient {e : Expr} (he : e.All Expr.Seals) : e.All (Conducted lenient false) :=
  fun x hx => ⟨suits_lenient x, .inr (he x hx)⟩

theorem closed_lenient {e : Expr} (he : e.Sealed) : Closed lenient false e :=
  ⟨all_lenient he.all, .inr he.closed⟩

/-- A computation that ends in no short circuit, and in no return. -/
abbrev Contained (k : Evaluation α) : Prop := Observes lenient {} k

theorem Evaluation.Observes.not_shorts {x : Exits} (hk : Observes lenient x k)
    (hx : x.opens = false) : ¬ k.Shorts held frame after := by
  intro h
  have hopens := (hk held frame).2 .shortCircuit (congrArg Prod.fst h)
  exact absurd (show x.opens = true from hopens) (Bool.eq_false_iff.1 hx)

/-- A short circuit of two computations one after the other is one of the first, if the second is
contained. -/
theorem shorts_bind_contained (h : (k >>= f).Shorts held frame after)
    (hf : ∀ x, Contained (f x)) : k.Shorts held frame after := by
  rcases shorts_bind h with hk | ⟨x, mid, -, hx⟩
  · exact hk
  · exact absurd hx ((hf x).not_shorts rfl)

/-- What is contained has a result or fails. -/
theorem Evaluation.Observes.ends (hk : Contained k) (held : List Entity) (frame : Frame) :
    (∃ x, (k.outcome held frame).1 = .ok x) ∨
      ∃ error, (k.outcome held frame).1 = .error (.failed error) := by
  have hpermit := (hk held frame).2
  cases hresult : (k.outcome held frame).1 with
  | ok x => exact .inl ⟨x, rfl⟩
  | error i =>
    cases i with
    | failed error => exact .inr ⟨error, rfl⟩
    | returned v => cases hpermit _ hresult
    | shortCircuit => cases hpermit _ hresult

theorem contained_evalExpr {e : Expr} (he : e.All Expr.Seals) (hclosed : e.isOpen = false) :
    Contained (evalExpr e) :=
  (observes_evalExpr e (all_lenient he)).closed (fun h : false = true => nomatch h) (.inr hclosed)

theorem contained_operand {e operand : Expr} (he : e.All Expr.Seals) (h : operand ∈ e.operands) :
    Contained (evalExpr operand) := by
  obtain ⟨hseals, hpieces⟩ := all_iff_pieces.1 he
  exact contained_evalExpr (hpieces operand (List.mem_append_right _ h)) (hseals operand h)

theorem contained_evalList {e : Expr} {args : List Expr} (he : e.All Expr.Seals)
    (hargs : args ⊆ e.operands) : Contained (evalList [] args) := by
  obtain ⟨hseals, hpieces⟩ := all_iff_pieces.1 he
  have hclosed : ∀ arg ∈ args, Closed lenient false arg := fun arg harg =>
    closed_lenient ⟨hseals arg (hargs harg), hpieces arg (List.mem_append_right _ (hargs harg))⟩
  exact observes_evalList [] args (fun h : false = true => nomatch h) hclosed

/-- The call of a member ends the chain only if it is optional and there is nothing to call. -/
theorem shorts_callMemberOf {receiver : Value} {name : String} {args : List Value} {optional : Bool}
    (h : (callMemberOf receiver name args optional).Shorts held frame after) :
    optional = true ∧ (callMember frame.store receiver name args true).2 = .ok none ∧
      after = frame := by
  unfold callMemberOf at h
  rcases shorts_bind h with hcall | ⟨result, mid, hcall, hrest⟩
  · have hcontained : Contained (attempt fun s => callMember s receiver name args optional) :=
      observes_attempt fun _ => trivial
    exact absurd hcall (hcontained.not_shorts rfl)
  · obtain ⟨hresult, rfl⟩ := outcome_attempt_ok hcall
    cases result with
    | some v => cases hrest
    | none =>
      obtain ⟨rfl, hstore⟩ := callMember_of_none hresult
      cases hrest
      exact ⟨rfl, hresult, by rw [hstore]⟩

/-- The call of something else ends the chain only if it is optional and what is called is
nullish. -/
theorem shorts_callValue {callee : Expr} {args : List Expr} {optional : Bool} {v : Value}
    (hargs : Contained (evalList [] args))
    (h : Evaluation.Shorts (do
      let f ← askOf v Store.unwrap
      holding f.entity?.toList do
        if optional && f.isNullish then throw .shortCircuit
        let args ← evalList [] args
        holding (references args) (callValue callee f args)) held frame after) :
    optional = true ∧ holdsNullish frame.store v = true ∧
      after = frame.letGo held v.entity?.toList := by
  rcases shorts_bind h with hask | ⟨f, asked, hask, hrest⟩
  · exact absurd hask ((observes_askOf v _ : Contained _).not_shorts rfl)
  · cases (outcome_unwrap v held frame).symm.trans hask
    obtain ⟨ended, hend, rfl⟩ := shorts_holding hrest
    have hvalue (f : Value) : Contained (do
        let args ← evalList [] args
        holding (references args) (callValue callee f args)) :=
      hargs.bind fun args => (observes_callValue callee f args).holding _
    cases hends : optional && (frame.store.unwrap v).isNullish with
    | false =>
      rw [hends] at hend
      exact absurd hend ((hvalue _).not_shorts rfl)
    | true =>
      obtain ⟨rfl, hnullish⟩ := Bool.and_eq_true_iff.1 hends
      -- what is nullish refers to nothing, so nothing more is let go
      rw [hends] at hend
      cases hend
      rw [entity?_of_isNullish hnullish]
      exact ⟨rfl, hnullish, rfl⟩

/-! ### Chains -/

theorem breaks_up {e chain : Expr} (hlinks : e.links ⊆ chain.links)
    (h : ∃ link ∈ e.links, link.Breaks held frame after) :
    ∃ link ∈ chain.links, link.Breaks held frame after := by
  obtain ⟨link, hlink, hbreaks⟩ := h
  exact ⟨link, hlinks hlink, hbreaks⟩

mutual

/-- Where a chain ends in a short circuit, one of its links ends it. -/
theorem breaks_of_shorts (chain : Expr) (hseals : chain.All Expr.Seals)
    (h : (evalExpr chain).Shorts held frame after) :
    ∃ link ∈ chain.links, link.Breaks held frame after := by
  have hall := all_lenient hseals
  cases chain with
  | member object property optional =>
    rw [evalExpr] at h
    rcases shorts_bind h with hobject | ⟨target, mid, hobject, hrest⟩
    · exact breaks_up (List.subset_cons_self _ _)
        (breaks_of_shorts object (all_member.1 hseals).2 hobject)
    · obtain ⟨checked, hcheck, rfl⟩ := shorts_holding hrest
      obtain ⟨rfl, hnullish, rfl⟩ :=
        shorts_checkLink (shorts_bind_contained hcheck fun _ => observes_memberOf _ _)
      exact ⟨_, List.mem_cons_self, .value rfl hobject hnullish⟩
  | index object key optional =>
    rw [evalExpr] at h
    rcases shorts_bind h with hobject | ⟨target, mid, hobject, hrest⟩
    · exact breaks_up (List.subset_cons_self _ _)
        (breaks_of_shorts object (all_index.1 hseals).2.1 hobject)
    · obtain ⟨checked, hcheck, rfl⟩ := shorts_holding hrest
      have hkey : Contained (evalExpr key) := contained_operand hseals List.mem_cons_self
      obtain ⟨rfl, hnullish, rfl⟩ := shorts_checkLink <| shorts_bind_contained hcheck fun _ =>
        hkey.bind fun key => (observes_askOf key _).bind fun key => observes_memberOf _ key
      exact ⟨_, List.mem_cons_self, .value rfl hobject hnullish⟩
  | call callee args optional =>
    have hcallee := (all_call.1 hseals).2.1
    have hargs : Contained (evalList [] args) :=
      contained_evalList hseals (List.Subset.refl args)
    rw [evalExpr] at h
    cases hmember : evalReceiver callee with
    | some receiver =>
      rw [hmember] at h
      rcases shorts_bind h with hreceiver | ⟨⟨r, name⟩, mid, hreceiver, hrest⟩
      · exact breaks_up (List.subset_cons_self _ _)
          (receiver_breaks_of_shorts callee hcallee receiver hmember hreceiver)
      · obtain ⟨called, hcall, rfl⟩ := shorts_holding hrest
        rcases shorts_bind hcall with harg | ⟨vs, computed, hvs, hcall⟩
        · exact absurd harg (hargs.not_shorts rfl)
        · obtain ⟨ended, hend, rfl⟩ := shorts_holding hcall
          obtain ⟨rfl, hnone, rfl⟩ := shorts_callMemberOf hend
          exact ⟨_, List.mem_cons_self, .member hmember hreceiver hvs hnone⟩
    | none =>
      rw [hmember] at h
      rcases shorts_bind h with hbefore | ⟨v, mid, hbefore, hrest⟩
      · exact breaks_up (List.subset_cons_self _ _) (breaks_of_shorts callee hcallee hbefore)
      · obtain ⟨rfl, hnullish, rfl⟩ := shorts_callValue hargs hrest
        have hbefore? : (Expr.call callee args true).before? = some callee := by
          rw [Expr.before?, evalReceiver_eq_none.1 hmember]
          rfl
        exact ⟨_, List.mem_cons_self, .value hbefore? hbefore hnullish⟩
  | _ =>
    -- what has no links is closed
    exact absurd h ((observes_evalExpr _ hall).not_shorts rfl)

/-- Likewise where the chain is a member that is called. -/
theorem receiver_breaks_of_shorts (chain : Expr) (hseals : chain.All Expr.Seals)
    (receiver : Evaluation (Value × String)) (hreceiver : evalReceiver chain = some receiver)
    (h : receiver.Shorts held frame after) :
    ∃ link ∈ chain.links, link.Breaks held frame after := by
  cases chain with
  | member object property optional =>
    cases hreceiver
    rcases shorts_bind h with hobject | ⟨target, mid, hobject, hrest⟩
    · exact breaks_up (List.subset_cons_self _ _)
        (breaks_of_shorts object (all_member.1 hseals).2 hobject)
    · obtain ⟨checked, hcheck, rfl⟩ :=
        shorts_keeping (shorts_bind_contained hrest fun _ => observes_pure _)
      obtain ⟨rfl, hnullish, rfl⟩ := shorts_checkLink hcheck
      exact ⟨_, List.mem_cons_self, .value rfl hobject hnullish⟩
  | index object key optional =>
    cases hreceiver
    rcases shorts_bind h with hobject | ⟨target, mid, hobject, hrest⟩
    · exact breaks_up (List.subset_cons_self _ _)
        (breaks_of_shorts object (all_index.1 hseals).2.1 hobject)
    · obtain ⟨checked, hcheck, rfl⟩ :=
        shorts_keeping (shorts_bind_contained hrest fun _ => observes_pure _)
      have hkey : Contained (evalExpr key) := contained_operand hseals List.mem_cons_self
      obtain ⟨rfl, hnullish, rfl⟩ := shorts_checkLink <| shorts_bind_contained hcheck fun _ =>
        hkey.bind fun key => observes_askOf key _
      exact ⟨_, List.mem_cons_self, .value rfl hobject hnullish⟩
  | _ => cases hreceiver

end

/-! ### Programs -/

theorem sealed_of_compile {source : String} {params : List String} {mode : Mode} {code : Code}
    (h : Code.compile source params mode = .ok code) : ∀ e ∈ code.body.expressions, e.Sealed := by
  unfold Code.compile at h
  cases hparse : parse source params mode with
  | error e =>
    rw [hparse] at h
    cases h
  | ok program =>
    rw [hparse] at h
    cases h
    exact sealed_of_parse hparse

end Eval

/-- Short circuits never escape.  Whatever text is compiled in whatever mode for whatever
parameters:

* every expression of the program has a value or fails, wherever it is evaluated;
* no expression inside one ends in a return; and if one ends in a short circuit, then an optional
  link of its own ends it, and it belongs to an optional chain, which catches the short circuit and
  is `undefined`;
* so the function never ends in a short circuit, whatever its arguments and the store are, and the
  result that there would be for it is never used. -/
theorem short_circuits_are_caught {source : String} {params : List String} {mode : Mode}
    {code : Code} (h : Code.compile source params mode = .ok code) :
    (∀ e ∈ code.body.expressions,
      (∀ held frame, (∃ v, ((evalExpr e).outcome held frame).1 = .ok v) ∨
        ∃ error, ((evalExpr e).outcome held frame).1 = .error (.failed error)) ∧
      ∀ x ∈ e.subterms, ∀ held frame,
        (∀ v, ((evalExpr x).outcome held frame).1 ≠ .error (.returned v)) ∧
        ∀ after, (evalExpr x).outcome held frame = (.error .shortCircuit, after) →
          ∃ link ∈ x.links, link.Breaks held frame after ∧
            (∃ chain, .optionalChain chain ∈ e.subterms ∧ x ∈ chain.links ∧
              link ∈ chain.links) ∧
            ∀ chain, x ∈ chain.links →
              (evalExpr (.optionalChain chain)).outcome held frame = (.ok .undefined, after)) ∧
    ∀ args s, ((evalBody code.body).outcome (references args) (code.frame args s)).1 ≠
      .error .shortCircuit := by
  have hsealed := sealed_of_compile h
  refine ⟨fun e he => ⟨?_, fun x hx held frame => ⟨?_, ?_⟩⟩, fun args s => ?_⟩
  · exact (contained_evalExpr (hsealed e he).all (hsealed e he).closed).ends
  · intro v hreturned
    have hall := all_lenient ((hsealed e he).all.parts x hx)
    cases (observes_evalExpr x hall held frame).2 _ hreturned
  · intro after hshorts
    have hseals := (hsealed e he).all.parts x hx
    obtain ⟨link, hlink, hbreaks⟩ := breaks_of_shorts x hseals hshorts
    have hopen : x.isOpen = true :=
      Bool.of_not_eq_false fun hclosed => (contained_evalExpr hseals hclosed).not_shorts rfl hshorts
    obtain ⟨chain, hchain, hpart⟩ := open_in_chain (hsealed e he) hx hopen
    exact ⟨link, hlink, hbreaks, ⟨chain, hchain, hpart, links_subset hpart hlink⟩,
      fun chain hpart => optionalChain_of_breaks hbreaks (links_subset hpart hlink)⟩
  · have hbody : Observes lenient (bodyExits false code.body) (evalBody code.body) :=
      observes_evalBody (fun _ _ _ => trivial) code.body fun e he => closed_lenient (hsealed e he)
    have hopens : (bodyExits false code.body).opens = false := by cases code.body <;> rfl
    exact fun hresult => hbody.not_shorts hopens (Prod.ext hresult rfl)

/-- The chain `o?.b.c`, up to its optional link. -/
def optionalStart : Expr := .member (.param 0 "o") "b" true

/-- The array `[o?.b.c]`. -/
def guardedElement : Expr := .array [.optionalChain (.member optionalStart "c" false)]

/-- With `null` for `o` the link ends the chain in a short circuit, but the function does not end in
one. -/
theorem guardedElement_catches_short_circuit :
    let code : Code := ⟨.statement, ["o"], .statements [.returns (some guardedElement)], 1⟩
    let frame := code.frame [.null] {}
    Code.compile "return [o?.b.c]" ["o"] .statement = .ok code ∧
      (evalExpr optionalStart).outcome [] frame = (.error .shortCircuit, frame) ∧
      (∃ chain, .optionalChain chain ∈ guardedElement.subterms ∧ optionalStart ∈ chain.links ∧
        (evalExpr (.optionalChain chain)).outcome [] frame = (.ok .undefined, frame)) ∧
      ((evalBody code.body).outcome [] frame).1 ≠ .error .shortCircuit := by
  intro code frame
  have hcompile : Code.compile "return [o?.b.c]" ["o"] .statement = .ok code := by cbv
  have hshorts : (evalExpr optionalStart).outcome [] frame = (.error .shortCircuit, frame) := rfl
  obtain ⟨hexpressions, hbody⟩ := short_circuits_are_caught hcompile
  have hmem : guardedElement ∈ code.body.expressions := by
    simp [code, Body.expressions, partsOf, Stmt.parts, Stmt.expressions]
  have hpart : optionalStart ∈ guardedElement.subterms := by
    simp [guardedElement, optionalStart, subtermsOf]
  obtain ⟨-, hparts⟩ := hexpressions guardedElement hmem
  obtain ⟨-, hcaught⟩ := hparts optionalStart hpart [] frame
  obtain ⟨-, -, -, ⟨chain, hchain, hstart, -⟩, hends⟩ := hcaught frame hshorts
  exact ⟨hcompile, hshorts, ⟨chain, hchain, hstart, hends chain hstart⟩, hbody [.null] {}⟩

end LiveMarkup
