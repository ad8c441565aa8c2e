import LiveMarkup.Eval.Member
import LiveMarkup.Proofs.StoreLaws
import Mathlib.Logic.Relation

/-!
# Changes of the store

Whatever a text or a host does to a store is made of a few kinds of change.  A property of stores
that every kind of change keeps is kept by all that is done, and only here and where a computation
is shown to be made of changes does a proof have to look at what a computation is.

Which changes a computation may make is a permission: texts make fewer kinds of change than a host.

## Main definitions

* `Change`, `Store.apply` — the kinds of change, and what they do.
* `Store.Leads` — a store that comes from another by permitted changes.
* `Change.IsEvaluation`, `evaluating` — the changes that texts make.
* `Change.IsHandling`, `handling` — those of them that come without a write.

## Main results

* `Store.Leads.keeps` — a property that every permitted change keeps is kept.
* `Store.handles_letGo`, `Store.handles_callBuiltin`, `Store.evaluates_setCell`, … — the operations
  on a store are made of changes.
-/

namespace LiveMarkup

/-- A change of a store. -/
inductive Change
  | setItems (r : ArrayRef) (items : List Value)
  | setProperties (r : ObjectRef) (properties : Bindings Value)
  | newArray (items : List Value)
  | newObject (properties : Bindings Value)
  | newCell (held : Value) (scheduler : Scheduler)
  | newHostFunction (f : HostFunction)
  | newQueue
  | notice (notices : List Notice)
  /-- All that has happened is taken down elsewhere. -/
  | collect
  | trigger (c : CellRef)
  /-- A value is put into a cell, which requests a pass. -/
  | write (c : CellRef) (v : Value)
  /-- Something is gone. -/
  | leave (e : Entity)
  | pin (pinned : List Entity)
  | subscribe (c : CellRef) (k : CallbackRef)
  | unsubscribe (c : CellRef) (k : CallbackRef)
  | unsubscribeAll (c : CellRef)
  | listen (c : CellRef)
  | poll (r : StreamRef) (waker : String)
  | stopReading (r : StreamRef)
  | detach (r : StreamRef)
  /-- The streams of a cell are told of a pass. -/
  | finishPass (c : CellRef)

namespace Store

/-- What a change makes of a store. -/
def apply (s : Store) : Change → Store
  | .setItems r items => s.setItems r items
  | .setProperties r properties => s.setProperties r properties
  | .newArray items => (s.newArray items).1
  | .newObject properties => (s.newObject properties).1
  | .newCell held scheduler => (s.newCell held scheduler).1
  | .newHostFunction f => (s.newHostFunction f).1
  | .newQueue => s.newQueue.1
  | .notice notices => s.notice notices
  | .collect => { s with notices := [] }
  | .trigger c => s.trigger c
  | .write c v => (s.commit c v).trigger c
  | .leave e => { s with gone := e :: s.gone }
  | .pin pinned => { s with pinned }
  | .subscribe c k => s.subscribe c k
  | .unsubscribe c k => s.unsubscribe c k
  | .unsubscribeAll c => s.unsubscribeAll c
  | .listen c => (s.listen c).1
  | .poll r waker => (s.poll r waker).1
  | .stopReading r => s.stopReading r
  | .detach r => s.detach r
  | .finishPass c => s.finishPass c

/-- A store that comes from another by changes that are permitted. -/
def Leads (permitted : Store → Change → Prop) : Store → Store → Prop :=
  Relation.ReflTransGen fun s t => ∃ x, permitted s x ∧ t = s.apply x

namespace Leads

variable {permitted also : Store → Change → Prop} {s t u : Store}

theorem refl (s : Store) : Leads permitted s s := Relation.ReflTransGen.refl

theorem trans (h : Leads permitted s t) (h' : Leads permitted t u) : Leads permitted s u :=
  Relation.ReflTransGen.trans h h'

theorem single {x : Change} (h : permitted s x) : Leads permitted s (s.apply x) :=
  Relation.ReflTransGen.single ⟨x, h, rfl⟩

theorem mono (h : Leads permitted s t) (hsub : ∀ s x, permitted s x → also s x) :
    Leads also s t := by
  refine Relation.ReflTransGen.mono ?_ s t h
  rintro s _ ⟨x, hx, ht⟩
  exact ⟨x, hsub s x hx, ht⟩

/-- What every permitted change keeps is kept. -/
theorem keeps {I : Store → Prop} (h : Leads permitted s t)
    (hstep : ∀ s x, permitted s x → I s → I (s.apply x)) (hs : I s) : I t := by
  induction h with
  | refl => exact hs
  | tail _ hlast ih =>
    obtain ⟨x, hx, rfl⟩ := hlast
    exact hstep _ x hx ih

/-- A reflexive and transitive relation that holds across every permitted change holds across all
of them. -/
theorem relates {R : Store → Store → Prop} (h : Leads permitted s t) (hrefl : ∀ s, R s s)
    (htrans : ∀ s t u, R s t → R t u → R s u)
    (hstep : ∀ s x, permitted s x → R s (s.apply x)) : R s t := by
  induction h with
  | refl => exact hrefl s
  | tail _ hlast ih =>
    obtain ⟨x, hx, rfl⟩ := hlast
    exact htrans _ _ _ ih (hstep _ x hx)

/-- Changes one after another, each of which is permitted wherever it is made. -/
theorem foldl {α : Type} (f : Store → α → Store) (hf : ∀ s a, Leads permitted s (f s a))
    (l : List α) (s : Store) : Leads permitted s (l.foldl f s) := by
  induction l generalizing s with
  | nil => exact refl s
  | cons a l ih => exact (hf s a).trans (ih (f s a))

end Leads

end Store

/-! ### The changes that texts make -/

/-- The changes that the evaluation of a text is made of. -/
def Change.IsEvaluation : Change → Prop
  | .setItems _ _ | .setProperties _ _ | .newArray _ | .newObject _ | .notice _ | .trigger _
  | .write _ _ | .leave _ | .detach _ => True
  | _ => False

/-- The permission to make the changes that texts make. -/
def evaluating (_ : Store) (x : Change) : Prop := x.IsEvaluation

/-- The changes that a text makes without a write to a cell or a property. -/
def Change.IsHandling : Change → Prop
  | .setItems _ _ | .newArray _ | .newObject _ | .notice _ | .trigger _ | .leave _
  | .detach _ => True
  | _ => False

/-- The permission to make the changes that a text makes without a write. -/
def handling (_ : Store) (x : Change) : Prop := x.IsHandling

theorem Change.IsHandling.isEvaluation {x : Change} (h : x.IsHandling) : x.IsEvaluation := by
  cases x <;> first | exact h | trivial

namespace Store

open Eval

/-- A store that comes from another by changes that texts make. -/
abbrev Evaluates : Store → Store → Prop := Leads evaluating

/-- A store that comes from another by changes that texts make without a write. -/
abbrev Handles : Store → Store → Prop := Leads handling

theorem Evaluates.by {s : Store} (x : Change) (h : x.IsEvaluation) : s.Evaluates (s.apply x) :=
  Leads.single h

theorem Handles.by {s : Store} (x : Change) (h : x.IsHandling) : s.Handles (s.apply x) :=
  Leads.single h

theorem Handles.evaluates {s t : Store} (h : s.Handles t) : s.Evaluates t :=
  h.mono fun _ _ hx => hx.isEvaluation

/-! ### Contents -/

theorem handles_setItems (s : Store) (r : ArrayRef) (items : List Value) :
    s.Handles (s.setItems r items) :=
  Handles.by (.setItems r items) trivial

theorem evaluates_setItems (s : Store) (r : ArrayRef) (items : List Value) :
    s.Evaluates (s.setItems r items) :=
  (s.handles_setItems r items).evaluates

theorem evaluates_setProperties (s : Store) (r : ObjectRef) (properties : Bindings Value) :
    s.Evaluates (s.setProperties r properties) :=
  Evaluates.by (.setProperties r properties) trivial

theorem handles_newArray (s : Store) (items : List Value) :
    s.Handles (s.newArrayValue items).1 :=
  Handles.by (.newArray items) trivial

theorem evaluates_newArray (s : Store) (items : List Value) :
    s.Evaluates (s.newArrayValue items).1 :=
  (s.handles_newArray items).evaluates

theorem handles_newObject (s : Store) (properties : Bindings Value) :
    s.Handles (s.newObject properties).1 :=
  Handles.by (.newObject properties) trivial

theorem evaluates_newObject (s : Store) (properties : Bindings Value) :
    s.Evaluates (s.newObject properties).1 :=
  (s.handles_newObject properties).evaluates

theorem handles_setItem {s t : Store} {r : ArrayRef} {i : Nat} {v : Value}
    (h : s.setItem r i v = .ok t) : s.Handles t := by
  simp only [setItem] at h
  split at h
  · cases h
    exact s.handles_setItems r _
  · cases hgrowth : checkGrowth (s.items r).length i with
    | error e => rw [hgrowth] at h; cases h
    | ok =>
      rw [hgrowth] at h
      cases h
      exact s.handles_setItems r _

theorem handles_setLength {s t : Store} {r : ArrayRef} {n : Nat} (h : s.setLength r n = .ok t) :
    s.Handles t := by
  simp only [setLength] at h
  split at h
  · cases hgrowth : checkGrowth (s.items r).length (n - 1) with
    | error e => rw [hgrowth] at h; cases h
    | ok =>
      rw [hgrowth] at h
      cases h
      exact s.handles_setItems r _
  · cases h
    exact s.handles_setItems r _

/-- A property of an object is replaced; of an array, its elements are set. -/
theorem setProperty_cases {s t : Store} {target v : Value} {key : String}
    (h : s.setProperty target key v = .ok t) :
    (∃ r, target = .object r ∧ t = s.setProperties r ((s.properties r).insert key v)) ∨
      s.Handles t := by
  unfold setProperty at h
  split at h
  · next r =>
    cases h
    exact .inl ⟨r, rfl, rfl⟩
  · next r =>
    refine .inr ?_
    split at h
    · split at h
      · exact handles_setLength h
      · cases h
    · split at h
      · exact handles_setItem h
      · cases h
  · cases h

theorem evaluates_setProperty {s t : Store} {target v : Value} {key : String}
    (h : s.setProperty target key v = .ok t) : s.Evaluates t := by
  rcases setProperty_cases h with ⟨r, rfl, rfl⟩ | hhandles
  · exact s.evaluates_setProperties r _
  · exact hhandles.evaluates

/-! ### Cells -/

theorem handles_trigger (s : Store) (c : CellRef) : s.Handles (s.trigger c) :=
  Handles.by (.trigger c) trivial

theorem evaluates_trigger (s : Store) (c : CellRef) : s.Evaluates (s.trigger c) :=
  (s.handles_trigger c).evaluates

theorem evaluates_setCell (s : Store) (c : CellRef) (v : Value) :
    s.Evaluates (s.setCell c v).1 := by
  unfold setCell
  split
  · exact Evaluates.by (.write c v) trivial
  · exact .refl s

/-- An edit in place is followed by a request for a pass. -/
theorem setCellProperty_cases {s t : Store} {c : CellRef} {key : String} {v : Value}
    (h : s.setCellProperty c key v = .ok t) :
    ∃ u, s.setProperty (s.held c) key v = .ok u ∧ t = u.trigger c := by
  unfold setCellProperty at h
  cases hwrite : s.setProperty (s.held c) key v with
  | error e => rw [hwrite] at h; cases h
  | ok u =>
    rw [hwrite] at h
    cases h
    exact ⟨u, rfl, rfl⟩

theorem evaluates_setCellProperty {s t : Store} {c : CellRef} {key : String} {v : Value}
    (h : s.setCellProperty c key v = .ok t) : s.Evaluates t := by
  obtain ⟨u, hwrite, rfl⟩ := setCellProperty_cases h
  exact (evaluates_setProperty hwrite).trans (u.evaluates_trigger c)

/-! ### Lifetime -/

theorem handles_endStreams (s : Store) (c : CellRef) : s.Handles (s.endStreams c) :=
  Leads.foldl detach (fun _ r => Handles.by (.detach r) trivial) _ s

theorem handles_letGoWithin (kept : List Entity) (fuel : Nat) (pending : List Loss) (s : Store) :
    s.Handles (s.letGoWithin kept fuel pending) := by
  -- by induction on the fuel, since what goes puts its own losses in front
  induction fuel generalizing s pending with
  | zero => exact .refl s
  | succ fuel ih =>
    match pending with
    | [] => exact .refl s
    | .streams c :: rest => exact (s.handles_endStreams c).trans (ih rest _)
    | .reference e :: rest =>
      unfold letGoWithin
      split
      · exact ih rest s
      · exact (Handles.by (.leave e) trivial).trans (ih _ _)

theorem handles_letGo (s : Store) (kept lost : List Entity) :
    s.Handles (s.letGo kept lost) := by
  unfold letGo
  split
  · exact .refl s
  · exact handles_letGoWithin kept _ _ s

theorem evaluates_letGo (s : Store) (kept lost : List Entity) :
    s.Evaluates (s.letGo kept lost) :=
  (s.handles_letGo kept lost).evaluates

/-! ### Members and methods -/

theorem handles_callHost (s : Store) (f : HostFunction) (args : List Value) :
    s.Handles (s.callHost f args).1 := by
  cases f
  case record => exact Handles.by (.notice _) trivial
  all_goals exact .refl s

theorem handles_callFunction (s : Store) (f : Function) (args : List Value) :
    s.Handles (s.callFunction f args).1 := by
  cases f with
  | builtin f => exact .refl s
  | host f _ => exact s.handles_callHost f args

theorem handles_stringMethod (s : Store) (m : StringMethod) (text : String) (args : List Value) :
    s.Handles (m.apply text args s).1 := by
  cases m
  case split => exact s.handles_newArray _
  all_goals exact .refl s

theorem handles_arrayMethod (s : Store) (m : ArrayMethod) (r : ArrayRef) (args : List Value) :
    s.Handles (m.apply r args s).1 := by
  cases m
  case push | pop | shift | unshift | reverse => exact s.handles_setItems r _
  case slice | concat => exact s.handles_newArray _
  case splice => exact (s.handles_setItems r _).trans (handles_newArray _ _)
  all_goals exact .refl s

theorem handles_callBuiltin {s t : Store} {receiver : Value} {name : String} {args : List Value}
    {result : Except EvalError Value}
    (h : s.callBuiltin receiver name args = some (t, result)) : s.Handles t := by
  unfold callBuiltin at h
  cases hown : s.ownMethod? receiver name args with
  | none =>
    -- what every value can do changes nothing
    rw [hown, Option.none_or, Option.map_eq_some_iff] at h
    obtain ⟨v, -, hv⟩ := h
    cases hv
    exact .refl s
  | some outcome =>
    rw [hown, Option.some_or] at h
    cases h
    cases receiver <;> simp only [ownMethod?, Option.map_eq_some_iff, reduceCtorEq] at hown
    case string text =>
      obtain ⟨m, -, hm⟩ := hown
      have := s.handles_stringMethod m text args
      rwa [hm] at this
    case array r =>
      obtain ⟨m, -, hm⟩ := hown
      have := s.handles_arrayMethod m r args
      cases hm
      exact this
    case number x =>
      obtain ⟨_, -, hresult⟩ := hown
      cases hresult
      exact .refl s

theorem handles_afterMethod (s : Store) (receiver held : Value) (name : String) :
    s.Handles (afterMethod s receiver held name) := by
  unfold afterMethod
  split
  · next c _ =>
    split
    · exact s.handles_trigger c
    · exact .refl s
  · exact .refl s

end Store

end LiveMarkup
