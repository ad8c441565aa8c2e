import LiveMarkup.Proofs.Conduct
import LiveMarkup.Proofs.Mirroring
import Mathlib

/-!
# Optional links

A chain of members and calls is computed from its beginning: whatever a link goes on from is
computed before anything to the right of the link.  An optional link looks at the value it goes on
from, and if that is nullish, or a cell that holds such a value, the chain around it is `undefined`
and nothing to the right of the link is computed.

One kind of link looks at its value later.  What the call of a member goes on from is the member,
and that is looked up only when the receiver and the arguments have been computed.  So the arguments
of an optional call of a member are computed also if there is no such member.

## Main definitions

* `Expr.before?` — what an optional link goes on from, where that is computed by itself.
* `Expr.Breaks` — a link that ends the chain it belongs to.

## Main results

* `Expr.Breaks.ends_chain` — every such link ends every chain that it is a link of.
* `nullish_link_ends_chain` — what is left alone then.
* `arguments_come_before_missing_member` — the arguments of the call of a member are not.
-/

namespace LiveMarkup

open Eval Syntax

namespace Eval

variable {α β : Type}

/-- How a computation ends, and in which frame. -/
abbrev Evaluation.outcome (k : Evaluation α) (held : List Entity) (frame : Frame) :
    Except Interrupt α × Frame := (k held).run.run frame

namespace Evaluation

variable {k : Evaluation α} {f : α → Evaluation β} {held es : List Entity} {frame after : Frame}

theorem outcome_bind_ok {x : α} (h : k.outcome held frame = (.ok x, after)) :
    (k >>= f).outcome held frame = (f x).outcome held after := by
  unfold outcome at h ⊢
  rw [run_bind, h]

theorem outcome_bind_error {i : Interrupt} (h : k.outcome held frame = (.error i, after)) :
    (k >>= f).outcome held frame = (.error i, after) := by
  unfold outcome at h ⊢
  rw [run_bind, h]

theorem outcome_holding [Referring α] {result : Except Interrupt α}
    (h : k.outcome (es ++ held) frame = (result, after)) :
    (holding es k).outcome held frame =
      (result, after.letGo (Referring.entities result ++ held) es) := by
  have hholding : (holding es k).outcome held frame =
      ((k.outcome (es ++ held) frame).1, (k.outcome (es ++ held) frame).2.letGo
        (Referring.entities (k.outcome (es ++ held) frame).1 ++ held) es) := rfl
  rw [hholding, h]

theorem outcome_keeping_error {i : Interrupt}
    (h : k.outcome (es ++ held) frame = (.error i, after)) :
    (keeping es k).outcome held frame =
      (.error i, after.letGo (Referring.entities i ++ held) es) := by
  unfold outcome at h ⊢
  rw [run_keeping, h]

theorem outcome_keeping_ok {x : α} (h : k.outcome (es ++ held) frame = (.ok x, after)) :
    (keeping es k).outcome held frame = (.ok x, after) := by
  unfold outcome at h ⊢
  rw [run_keeping, h]

theorem outcome_tryCatch_error {handler : Interrupt → Evaluation α} {i : Interrupt}
    (h : k.outcome held frame = (.error i, after)) :
    (tryCatch k handler).outcome held frame = (handler i).outcome held after := by
  unfold outcome at h ⊢
  rw [run_tryCatch, h]

theorem outcome_ask (f : Store → α) (held : List Entity) (frame : Frame) :
    (ask f).outcome held frame = (.ok (f frame.store), frame) := rfl

/-- Something is done to the store, and the failure is passed on if it fails. -/
theorem outcome_attempt {f : Store → Outcome α} {t : Store} {result : Except EvalError α}
    (h : f frame.store = (t, result)) :
    (attempt f).outcome held frame = (result.mapError .failed, { frame with store := t }) := by
  have hact : (act f).outcome held frame = (.ok result, { frame with store := t }) := by
    show (Except.ok (f frame.store).2, { frame with store := (f frame.store).1 }) = _
    rw [h]
  refine (outcome_bind_ok hact).trans ?_
  cases result <;> rfl

theorem outcome_unwrap (v : Value) (held : List Entity) (frame : Frame) :
    (askOf v Store.unwrap).outcome held frame = (.ok (frame.store.unwrap v),
      frame.letGo ((frame.store.unwrap v).entity?.toList ++ held) v.entity?.toList) :=
  outcome_holding (outcome_ask _ _ _)

/-- An optional link ends the computation if its target is nullish. -/
theorem outcome_checkLink {target : Value} (h : holdsNullish frame.store target = true) :
    (checkLink true target).outcome held frame = (.error .shortCircuit, frame) := by
  unfold checkLink
  refine (outcome_bind_ok (outcome_ask _ held frame)).trans ?_
  rw [h]
  rfl

/-- An optional call of a member ends the computation if there is nothing to call. -/
theorem outcome_callMemberOf {receiver : Value} {name : String} {args : List Value}
    (h : (callMember frame.store receiver name args true).2 = .ok none) :
    (callMemberOf receiver name args true).outcome held frame = (.error .shortCircuit, frame) := by
  have hcall : callMember frame.store receiver name args true = (frame.store, .ok none) :=
    Prod.ext (callMember_of_none h).2 h
  have hattempt : (attempt fun s => callMember s receiver name args true).outcome held frame =
      (.ok none, frame) := (outcome_attempt hcall).trans rfl
  exact outcome_bind_ok hattempt

end Evaluation

end Eval

/-! ### Chains -/

namespace Syntax

/-- Whether an expression is a member, whose call is the call of a member. -/
def Expr.isMember : Expr → Bool
  | .member .. | .index .. => true
  | _ => false

/-- What an optional link goes on from, where that is computed by itself.  What the call of a member
goes on from is not. -/
def Expr.before? : Expr → Option Expr
  | .member e _ true | .index e _ true => some e
  | .call callee _ true => if callee.isMember then none else some callee
  | _ => none

end Syntax

theorem entity?_of_isNullish {v : Value} (h : v.isNullish = true) : v.entity? = none := by
  cases v
  case null | undefined => rfl
  all_goals cases h

theorem evalReceiver_eq_none {e : Expr} : evalReceiver e = none ↔ e.isMember = false := by
  cases e <;> simp [evalReceiver, Expr.isMember]

/-- An optional link that ends the chain it belongs to, when the chain is computed from a frame
while something is held, and the frame in which it does. -/
inductive Syntax.Expr.Breaks (held : List Entity) (frame : Frame) : Expr → Frame → Prop
  /-- What the link goes on from is nullish. -/
  | value {link before : Expr} {v : Value} {f : Frame} (hbefore : link.before? = some before)
    (hrun : (evalExpr before).outcome held frame = (.ok v, f))
    (hnullish : holdsNullish f.store v = true) :
    Breaks held frame link (f.letGo held v.entity?.toList)
  /-- The receiver of the call has no such member to call. -/
  | member {callee : Expr} {args : List Expr} {receiver : Evaluation (Value × String)} {r : Value}
    {name : String} {vs : List Value} {f g : Frame}
    (hreceiver : evalReceiver callee = some receiver)
    (hrun : receiver.outcome held frame = (.ok (r, name), f))
    (hargs : (evalList [] args).outcome (r.entity?.toList ++ held) f = (.ok vs, g))
    (hnone : (callMember g.store r name vs true).2 = .ok none) :
    Breaks held frame (.call callee args true)
      ((g.letGo (r.entity?.toList ++ held) (references vs)).letGo held r.entity?.toList)

namespace Syntax.Expr.Breaks

open Evaluation

variable {held : List Entity} {frame after : Frame} {link : Expr}

/-- What an optional link goes on from is nullish, or holds something nullish. -/
theorem receiver_of_value {before : Expr} {v : Value} {f : Frame}
    (hbefore : link.before? = some before)
    (hrun : (evalExpr before).outcome held frame = (.ok v, f))
    (hnullish : holdsNullish f.store v = true) {receiver : Evaluation (Value × String)}
    (hreceiver : evalReceiver link = some receiver) :
    receiver.outcome held frame = (.error .shortCircuit, f.letGo held v.entity?.toList) := by
  cases link with
  | member object property optional =>
    cases optional <;> cases hbefore
    cases hreceiver
    exact (outcome_bind_ok hrun).trans
      (outcome_bind_error (outcome_keeping_error (outcome_checkLink hnullish)))
  | index object key optional =>
    cases optional <;> cases hbefore
    cases hreceiver
    exact (outcome_bind_ok hrun).trans (outcome_bind_error
      (outcome_keeping_error (outcome_bind_error (outcome_checkLink hnullish))))
  | _ => cases hreceiver

theorem expr_of_value {before : Expr} {v : Value} {f : Frame}
    (hbefore : link.before? = some before)
    (hrun : (evalExpr before).outcome held frame = (.ok v, f))
    (hnullish : holdsNullish f.store v = true) :
    (evalExpr link).outcome held frame =
      (.error .shortCircuit, f.letGo held v.entity?.toList) := by
  cases link with
  | member object property optional =>
    cases optional <;> cases hbefore
    rw [evalExpr]
    exact (outcome_bind_ok hrun).trans
      (outcome_holding (outcome_bind_error (outcome_checkLink hnullish)))
  | index object key optional =>
    cases optional <;> cases hbefore
    rw [evalExpr]
    exact (outcome_bind_ok hrun).trans
      (outcome_holding (outcome_bind_error (outcome_checkLink hnullish)))
  | call callee args optional =>
    cases optional
    case false => cases hbefore
    rw [before?] at hbefore
    split at hbefore
    case isTrue => cases hbefore
    next hplain =>
      cases hbefore
      rw [evalExpr, evalReceiver_eq_none.2 (Bool.eq_false_iff.2 hplain)]
      refine (outcome_bind_ok hrun).trans ?_
      -- what is nullish refers to nothing, so only the cell that holds it, if any, is let go
      have hnothing : (f.store.unwrap v).entity? = none := entity?_of_isNullish hnullish
      refine (outcome_bind_ok (outcome_unwrap v held f)).trans ?_
      rw [hnothing, Option.toList_none, holding_nil]
      rw [show (true && (f.store.unwrap v).isNullish) = true from hnullish, if_pos rfl]
      rfl
  | _ => cases hbefore

/-- Whichever way the link ends the chain, its own evaluation ends so. -/
theorem ends_link (h : link.Breaks held frame after) :
    (evalExpr link).outcome held frame = (.error .shortCircuit, after) := by
  cases h with
  | value hbefore hrun hnullish => exact expr_of_value hbefore hrun hnullish
  | @member callee args receiver r name vs f g hreceiver hrun hargs hnone =>
    rw [evalExpr, hreceiver]
    refine (outcome_bind_ok hrun).trans (outcome_holding ?_)
    exact (outcome_bind_ok hargs).trans (outcome_holding (outcome_callMemberOf hnone))

/-- Likewise where the link is the member that is called. -/
theorem ends_receiver (h : link.Breaks held frame after)
    {receiver : Evaluation (Value × String)} (hreceiver : evalReceiver link = some receiver) :
    receiver.outcome held frame = (.error .shortCircuit, after) := by
  cases h with
  | value hbefore hrun hnullish => exact receiver_of_value hbefore hrun hnullish hreceiver
  | member => cases hreceiver

/-- A link that ends its chain ends it however the chain goes on. -/
theorem ends_chain (h : link.Breaks held frame after) (chain : Expr) (hlink : link ∈ chain.links) :
    (evalExpr chain).outcome held frame = (.error .shortCircuit, after) ∧
      ∀ receiver, evalReceiver chain = some receiver →
        receiver.outcome held frame = (.error .shortCircuit, after) := by
  -- by induction on the chain: a link that is not its last is one of what the last goes on from
  cases chain with
  | member object property optional =>
    rcases List.mem_cons.1 hlink with rfl | hbefore
    · exact ⟨h.ends_link, fun receiver => h.ends_receiver⟩
    · have hobject := (h.ends_chain object hbefore).1
      refine ⟨?_, fun receiver hreceiver => ?_⟩
      · rw [evalExpr]
        exact outcome_bind_error hobject
      · cases hreceiver
        exact outcome_bind_error hobject
  | index object key optional =>
    rcases List.mem_cons.1 hlink with rfl | hbefore
    · exact ⟨h.ends_link, fun receiver => h.ends_receiver⟩
    · have hobject := (h.ends_chain object hbefore).1
      refine ⟨?_, fun receiver hreceiver => ?_⟩
      · rw [evalExpr]
        exact outcome_bind_error hobject
      · cases hreceiver
        exact outcome_bind_error hobject
  | call callee args optional =>
    rcases List.mem_cons.1 hlink with rfl | hbefore
    · exact ⟨h.ends_link, fun receiver => h.ends_receiver⟩
    · obtain ⟨hcallee, hreceiver⟩ := h.ends_chain callee hbefore
      refine ⟨?_, nofun⟩
      rw [evalExpr]
      cases hmember : evalReceiver callee with
      | some receiver => exact outcome_bind_error (hreceiver receiver hmember)
      | none => exact outcome_bind_error hcallee
  | _ => cases hlink

end Syntax.Expr.Breaks

/-- A chain that a link ends is `undefined`. -/
theorem optionalChain_of_breaks {held : List Entity} {frame after : Frame} {link chain : Expr}
    (h : link.Breaks held frame after) (hlink : link ∈ chain.links) :
    (evalExpr (.optionalChain chain)).outcome held frame = (.ok .undefined, after) := by
  rw [evalExpr]
  exact Evaluation.outcome_tryCatch_error (h.ends_chain chain hlink).1

theorem Eval.Frame.SameValues.trans {f g h : Frame} (hfg : f.SameValues g) (hgh : g.SameValues h) :
    f.SameValues h where
  slots := hgh.slots.trans hfg.slots
  params := hgh.params.trans hfg.params
  store := hgh.store.trans hfg.store

/-- A nullish optional link ends the chain.  Wherever the link stands in the chain, if what it goes
on from has been computed and is nullish, or a cell that holds something nullish, then the chain is
`undefined`, and all slots, contents, cells and queues are as they were when that value had been
computed.  Nothing to the right of the link is computed: no index, no argument and no later link.

An optional call of a member goes on from the member, which is looked up only after the arguments
have been computed.  If there is nothing to call then, the chain is `undefined`, and all is as it
was when the arguments had been computed. -/
theorem nullish_link_ends_chain (chain link : Expr) (hlink : link ∈ chain.links)
    (held : List Entity) (frame : Frame) :
    (∀ before v f, link.before? = some before →
      (evalExpr before).outcome held frame = (.ok v, f) → holdsNullish f.store v = true →
        ∃ after, (evalExpr (.optionalChain chain)).outcome held frame = (.ok .undefined, after) ∧
          f.SameValues after) ∧
    ∀ callee args receiver r name vs f g, link = .call callee args true →
      evalReceiver callee = some receiver → receiver.outcome held frame = (.ok (r, name), f) →
      (evalList [] args).outcome (r.entity?.toList ++ held) f = (.ok vs, g) →
      (callMember g.store r name vs true).2 = .ok none →
        ∃ after, (evalExpr (.optionalChain chain)).outcome held frame = (.ok .undefined, after) ∧
          g.SameValues after := by
  constructor
  · intro before v f hbefore hrun hnullish
    exact ⟨_, optionalChain_of_breaks (.value hbefore hrun hnullish) hlink, f.sameValues_letGo _ _⟩
  · rintro callee args receiver r name vs f g rfl hreceiver hrun hargs hnone
    exact ⟨_, optionalChain_of_breaks (.member hreceiver hrun hargs hnone) hlink,
      (g.sameValues_letGo _ _).trans (Frame.sameValues_letGo _ _ _)⟩

/-- The call `o?.f(x = true)`. -/
def guardedCall : Expr :=
  .call (.member (.param 0 "o") "f" true) [.assign .assign (.param 1 "x") (.literal (.bool true))]
    false

/-- The call `o.f?.(x = true)`. -/
def maybeCall : Expr :=
  .call (.member (.param 0 "o") "f" false) [.assign .assign (.param 1 "x") (.literal (.bool true))]
    true

/-- A cell and an object without a function. -/
def uncallableStore : Store where
  objects := #[Bindings.ofList [("f", .null)]]
  cells := #[{ held := .bool false }]

/-- With `null` for `o` the argument is not computed: the cell of `x` holds what it held. -/
theorem guardedCall_ends_early :
    ∃ after, (evalExpr (.optionalChain guardedCall)).outcome []
        ⟨#[.null, .cell ⟨0⟩], 2, uncallableStore⟩ = (.ok .undefined, after) ∧
      after.store.held ⟨0⟩ = .bool false := by
  have hlink : Expr.member (.param 0 "o") "f" true ∈ guardedCall.links := by
    simp [guardedCall, Expr.links]
  obtain ⟨after, hrun, hsame⟩ :=
    (nullish_link_ends_chain guardedCall _ hlink [] ⟨#[.null, .cell ⟨0⟩], 2, uncallableStore⟩).1
      (.param 0 "o") .null _ rfl rfl rfl
  refine ⟨after, hrun, ?_⟩
  rw [Store.held, Store.cellState, hsame.store.cells]
  rfl

/-- With an object for `o` whose property `f` is `null` the argument is computed: the value at the
link is `null` with the cell of `x` as it was, and when the chain is `undefined` the cell has been
written and has a pass. -/
theorem arguments_come_before_missing_member :
    let frame : Frame := ⟨#[.object ⟨0⟩, .cell ⟨0⟩], 2, uncallableStore⟩
    let result := (evalExpr (.optionalChain maybeCall)).outcome [] frame
    Code.compile "o.f?.(x = true)" ["o", "x"] .expression =
        .ok ⟨.expression, ["o", "x"], .expression (.optionalChain maybeCall), 2⟩ ∧
      (evalExpr (.member (.param 0 "o") "f" false)).outcome [] frame = (.ok .null, frame) ∧
      frame.store.held ⟨0⟩ = .bool false ∧ frame.store.queue defaultQueue = [] ∧
      result.1 = .ok .undefined ∧ result.2.store.held ⟨0⟩ = .bool true ∧
      result.2.store.queue defaultQueue = [⟨0⟩] := by
  refine ⟨by cbv, rfl, rfl, rfl, rfl, rfl, rfl⟩

end LiveMarkup
