import LiveMarkup.Proofs.CellWrites
import LiveMarkup.Proofs.Conduct

/-!
# Expressions that only read

An expression without assignments and updates can still change something: it can call a method.  Six
methods of arrays change the array they are called on, and a call through a cell then requests a
pass.  An expression that names none of the six, and whose only members called under a computed name
are those of `Math`, leaves everything that was there as it was.  What it makes is its own: a method
that gives an array gives a new one.

## Main definitions

* `changingMethods` — the six.
* `Expr.ReadOnly` — the expressions that only read.
* `Store.Intact` — what was there is as it was.

## Main results

* `mutatesArray_iff` — the six are all that change an array.
* `reading_evalExpr` — evaluating an expression that only reads leaves everything as it was.
* `read_only_leaves_all_intact` — the same for runs.
-/

namespace LiveMarkup

open Eval Syntax

/-- The names of the methods that change the array they are called on. -/
def changingMethods : List String := ["push", "pop", "shift", "unshift", "reverse", "splice"]

/-- No other method changes an array. -/
theorem mutatesArray_iff (name : String) :
    Store.mutatesArray name = true ↔ name ∈ changingMethods := by
  constructor
  · intro h
    rw [Store.mutatesArray] at h
    cases hlookup : ArrayMethod.named.lookup name with
    | none =>
      rw [hlookup] at h
      cases h
    | some m =>
      rw [hlookup, Option.any_some] at h
      obtain ⟨before, after, hnamed, -⟩ := List.lookup_eq_some_iff.1 hlookup
      have hmem : (name, m) ∈ ArrayMethod.named := by simp [hnamed]
      have hlisted : ∀ p ∈ ArrayMethod.named, p.2.mutates = true → p.1 ∈ changingMethods := by
        decide
      exact hlisted _ hmem h
  · have hchanges : ∀ name ∈ changingMethods, Store.mutatesArray name = true := by decide
    exact hchanges name

namespace Syntax

/-- Whether the call of a callee runs no method that changes what it is called on.  A member that is
not a member of `Math` has to be called under a name that is written down. -/
def Expr.CallsHarmlessly : Expr → Prop
  | .member _ name _ => name ∉ changingMethods
  | .index (.global .math) _ _ => True
  | .index _ _ _ => False
  | _ => True

/-- Whether an expression does no more than read, apart from what its parts do. -/
def Expr.Reads : Expr → Prop
  | .assign .. | .update .. => False
  | .call callee _ _ => callee.CallsHarmlessly
  | _ => True

/-- An expression that only reads. -/
def Expr.ReadOnly (e : Expr) : Prop := e.All Expr.Reads

end Syntax

/-! ### What is left as it was -/

/-- Everything that was in the store is as it was: all cells, with what they hold, what they held
before and their marks, all passes that are waiting, and the contents of all arrays and objects
that have been made. -/
structure Store.Intact (s t : Store) : Prop where
  cells : t.cells = s.cells
  queues : t.queues = s.queues
  spawned : t.spawned = s.spawned
  arrays_size_le : s.arrays.size ≤ t.arrays.size
  objects_size_le : s.objects.size ≤ t.objects.size
  items (r : ArrayRef) (hmade : s.hasMade (.array r)) : t.items r = s.items r
  properties (r : ObjectRef) (hmade : s.hasMade (.object r)) : t.properties r = s.properties r

namespace Store

variable {s t u : Store}

theorem Intact.refl (s : Store) : s.Intact s :=
  ⟨rfl, rfl, rfl, Nat.le_refl _, Nat.le_refl _, fun _ _ => rfl, fun _ _ => rfl⟩

theorem Intact.trans (h : s.Intact t) (h' : t.Intact u) : s.Intact u where
  cells := h'.cells.trans h.cells
  queues := h'.queues.trans h.queues
  spawned := h'.spawned.trans h.spawned
  arrays_size_le := Nat.le_trans h.arrays_size_le h'.arrays_size_le
  objects_size_le := Nat.le_trans h.objects_size_le h'.objects_size_le
  items r hmade := by
    have hstill : t.hasMade (.array r) :=
      decide_eq_true (Nat.lt_of_lt_of_le (of_decide_eq_true hmade) h.arrays_size_le)
    exact (h'.items r hstill).trans (h.items r hmade)
  properties r hmade := by
    have hstill : t.hasMade (.object r) :=
      decide_eq_true (Nat.lt_of_lt_of_le (of_decide_eq_true hmade) h.objects_size_le)
    exact (h'.properties r hstill).trans (h.properties r hmade)

/-- What goes leaves its contents behind. -/
theorem Intact.of_sameContents (h : t.SameContents s) : s.Intact t where
  cells := h.cells
  queues := h.queues
  spawned := h.spawned
  arrays_size_le := Nat.le_of_eq (congrArg Array.size h.arrays.symm)
  objects_size_le := Nat.le_of_eq (congrArg Array.size h.objects.symm)
  items r _ := by rw [Store.items, Store.items, h.arrays]
  properties r _ := by rw [Store.properties, Store.properties, h.objects]

theorem intact_letGo (s : Store) (kept lost : List Entity) : s.Intact (s.letGo kept lost) :=
  .of_sameContents (sameContents_letGo s kept lost)

theorem intact_newArray (s : Store) (vs : List Value) : s.Intact (s.newArrayValue vs).1 where
  cells := rfl
  queues := rfl
  spawned := rfl
  arrays_size_le := by
    rw [newArrayValue, newArray, Array.size_push]
    exact Nat.le_succ _
  objects_size_le := Nat.le_refl _
  items r hmade := (s.items_newArray vs r).trans (if_neg (Nat.ne_of_lt (of_decide_eq_true hmade)))
  properties _ _ := rfl

theorem intact_newObject (s : Store) (b : Bindings Value) : s.Intact (s.newObject b).1 where
  cells := rfl
  queues := rfl
  spawned := rfl
  arrays_size_le := Nat.le_refl _
  objects_size_le := by
    rw [newObject, Array.size_push]
    exact Nat.le_succ _
  items _ _ := rfl
  properties r hmade :=
    (s.properties_newObject b r).trans (if_neg (Nat.ne_of_lt (of_decide_eq_true hmade)))

/-! ### Calls -/

theorem intact_stringMethod (s : Store) (m : StringMethod) (text : String) (args : List Value) :
    s.Intact (m.apply text args s).1 := by
  cases m
  case split => exact s.intact_newArray _
  all_goals exact .refl s

theorem intact_arrayMethod (s : Store) {m : ArrayMethod} (hm : m.mutates = false) (r : ArrayRef)
    (args : List Value) : s.Intact (m.apply r args s).1 := by
  cases m
  case push | pop | shift | unshift | reverse | splice => cases hm
  case slice | concat => exact s.intact_newArray _
  all_goals exact .refl s

/-- What a builtin method makes of the store: only methods of strings and arrays make anything of
it. -/
theorem callBuiltin_cases {receiver : Value} {name : String} {args : List Value}
    {result : Except EvalError Value} (h : s.callBuiltin receiver name args = some (t, result)) :
    t = s ∨ (∃ text m, receiver = .string text ∧ t = (StringMethod.apply m text args s).1) ∨
      ∃ r m, receiver = .array r ∧ ArrayMethod.named.lookup name = some m ∧
        t = (m.apply r args s).1 := by
  unfold callBuiltin at h
  cases hown : s.ownMethod? receiver name args with
  | none =>
    -- what every value can do
    rw [hown, Option.none_or, Option.map_eq_some_iff] at h
    obtain ⟨v, -, hv⟩ := h
    cases hv
    exact .inl rfl
  | some outcome =>
    rw [hown, Option.some_or] at h
    cases h
    cases receiver <;> simp only [ownMethod?, Option.map_eq_some_iff, reduceCtorEq] at hown
    case string text =>
      obtain ⟨m, -, hm⟩ := hown
      exact .inr (.inl ⟨text, m, rfl, by rw [hm]⟩)
    case array r =>
      obtain ⟨m, hlookup, hm⟩ := hown
      cases hm
      exact .inr (.inr ⟨r, m, rfl, hlookup, rfl⟩)
    case number x =>
      obtain ⟨_, -, hresult⟩ := hown
      cases hresult
      exact .inl rfl

theorem intact_callBuiltin {receiver : Value} {name : String} {args : List Value}
    {result : Except EvalError Value} (hquiet : editedBy name receiver = false)
    (h : s.callBuiltin receiver name args = some (t, result)) : s.Intact t := by
  rcases callBuiltin_cases h with rfl | ⟨text, m, -, rfl⟩ | ⟨r, m, rfl, hlookup, rfl⟩
  · exact .refl t
  · exact s.intact_stringMethod m text args
  · refine s.intact_arrayMethod ?_ r args
    rwa [editedBy, mutatesArray, hlookup, Option.any_some] at hquiet

/-- No function changes anything that was there. -/
theorem intact_callFunction (s : Store) (f : Function) (args : List Value) :
    s.Intact (s.callFunction f args).1 := by
  cases f with
  | builtin f => exact .refl s
  | host f _ =>
    cases f
    case record =>
      exact ⟨rfl, rfl, rfl, Nat.le_refl _, Nat.le_refl _, fun _ _ => rfl, fun _ _ => rfl⟩
    all_goals exact .refl s

/-- A call of a member that changes nothing that was there: it goes under another name than the six,
or the member is one of an object. -/
def Harmless (receiver : Value) (name : String) : Prop :=
  name ∉ changingMethods ∨ ∃ r, receiver = .object r

theorem Harmless.editedBy {receiver : Value} {name : String} (h : Harmless receiver name) :
    editedBy name (s.unwrap receiver) = false := by
  rcases h with hname | ⟨r, rfl⟩
  · unfold Store.editedBy
    split
    · rwa [← mutatesArray_iff, Bool.not_eq_true] at hname
    · rfl
  · rfl

/-- After a method that changes nothing no pass is requested. -/
theorem Harmless.afterMethod {receiver : Value} {name : String} (h : Harmless receiver name)
    (s t : Store) : Eval.afterMethod t receiver (s.unwrap receiver) name = t := by
  have hquiet := h.editedBy (s := s)
  unfold Eval.afterMethod
  split
  · next c r heq =>
    rw [heq, Store.editedBy] at hquiet
    rw [hquiet]
    rfl
  · rfl

theorem intact_callMember {receiver : Value} {name : String} (h : Harmless receiver name)
    (s : Store) (args : List Value) (optional : Bool) :
    s.Intact (callMember s receiver name args optional).1 := by
  have hbuiltin : s.Intact (callBuiltinMember s receiver name args optional).1 := by
    unfold callBuiltinMember
    dsimp only
    split
    · next t v hcall =>
      rw [h.afterMethod]
      exact intact_callBuiltin h.editedBy hcall
    · next t e hcall => exact intact_callBuiltin h.editedBy hcall
    · split <;> exact .refl s
  unfold callMember
  dsimp only
  split
  · exact .refl s
  · split
    · exact hbuiltin
    · split
      · next f _ =>
        have hcall := s.intact_callFunction f args
        unfold callMemberFunction
        split <;> simp_all
      · split <;> exact .refl s

end Store

/-! ### Evaluation -/

namespace Eval

open Evaluation Store

/-- To read only: the slots stay as they are, and so does all that was in the store. -/
def reading : Conduct where
  leads f g := g.slots = f.slots ∧ f.store.Intact g.store
  refl f := ⟨rfl, .refl f.store⟩
  trans h h' := ⟨h'.1.trans h.1, h.2.trans h'.2⟩
  letGo f kept lost :=
    let h := f.sameValues_letGo kept lost
    ⟨h.slots, .of_sameContents h.store⟩
  newArray f vs := ⟨rfl, f.store.intact_newArray vs⟩
  newObject f b := ⟨rfl, f.store.intact_newObject b⟩
  callFunction f g args := ⟨rfl, f.store.intact_callFunction g args⟩

/-- The members that a callee of a harmless call can turn out to be. -/
theorem harmless_of_yields {callee : Expr} (hcallee : callee.CallsHarmlessly)
    {receiver : Evaluation (Value × String)} (hreceiver : evalReceiver callee = some receiver)
    {x : Value × String} (hx : receiver.Yields x) : Harmless x.1 x.2 := by
  cases callee with
  | member object name optional =>
    rw [evalReceiver] at hreceiver
    cases hreceiver
    obtain ⟨v, -, hv⟩ := yields_bind hx
    obtain ⟨-, -, hpair⟩ := yields_bind hv
    cases yields_pure hpair
    exact .inl hcallee
  | index object key optional =>
    rw [evalReceiver] at hreceiver
    cases hreceiver
    obtain ⟨v, hobject, hv⟩ := yields_bind hx
    obtain ⟨name, -, hpair⟩ := yields_bind hv
    cases yields_pure hpair
    -- only the members of `Math` are called under a computed name
    have hmath : object = .global .math := by
      unfold Expr.CallsHarmlessly at hcallee
      split at hcallee <;> simp_all
    subst hmath
    cases yields_pure hobject
    exact .inr ⟨mathObject, rfl⟩
  | _ => cases hreceiver

/-- What only reads does so whatever its parts are. -/
theorem suits_reading {e : Expr} (he : e.Reads) : Suits reading e := by
  cases e with
  | call callee args optional =>
    intro receiver r hreceiver hr f vs opt
    exact ⟨rfl, intact_callMember (harmless_of_yields he hreceiver hr) f.store vs opt⟩
  | assign | update => exact he.elim
  | _ => trivial

/-- Evaluating an expression that only reads leaves everything as it was. -/
theorem reading_evalExpr (e : Expr) (he : e.ReadOnly) (held : List Entity) (frame : Frame) :
    reading.leads frame ((evalExpr e held).run.run frame).2 := by
  have hconducted : e.All (Conducted reading true) :=
    fun x hx => ⟨suits_reading (he x hx), .inl rfl⟩
  exact (observes_evalExpr e hconducted held frame).1

theorem intact_call {code : Code} {e : Expr} (hbody : code.body = .expression e)
    (he : e.ReadOnly) (args : List Value) (s : Store) : s.Intact (code.call args s).1 := by
  simp only [Code.call, hbody, evalBody]
  exact (reading_evalExpr e he (references args) (code.frame args s)).2.trans (intact_letGo _ _ _)

end Eval

/-! ### Runs -/

theorem Interpreter.intact_letGoRead (s : Store) (context : Context)
    (result : Except InterpreterError Value) : s.Intact (letGoRead s context result) := by
  unfold letGoRead
  split
  · exact s.intact_letGo _ _
  · exact .refl s

theorem Interpreter.intact_runIn (i : Interpreter) (s : Store) {source : String}
    {context : Context} {mode : Mode} {f : CompiledFunction} {e : Expr}
    (hcompile : (i.compile source (i.contextOf context).names mode).2 = .ok f)
    (hbody : f.code.body = .expression e) (he : e.ReadOnly) (manner : Manner) :
    s.Intact (i.runIn s source context mode manner).2.1 := by
  have hrun : s.Intact (i.run s source context mode).2.1 := by
    simp only [run]
    revert hcompile
    rcases i.compile source (i.contextOf context).names mode with ⟨_, e' | f'⟩
    · intro hcompile
      cases hcompile
    · intro hcompile
      cases hcompile
      exact intact_call hbody he _ s
  have hread : s.Intact (i.runRead s source context mode).2.1 :=
    hrun.trans (intact_letGoRead _ _ _)
  cases manner with
  | raw => exact hrun
  | read | absorbing => exact hread

/-- Expressions that only read have no effect.  Wherever such an expression is evaluated, by itself,
as the body of a function or in a run of its text, in any context and store, and whether it succeeds
or fails: no slot changes, every cell is as it was, with what it holds, what it held before and
whether it is marked, every queue is as it was, and so are the elements of every array and the
properties of every object, in their order, that had been made before.

Functions of a host that are called through a value or a member change none of this either, so
nothing is asked of the context. -/
theorem read_only_leaves_all_intact (e : Expr) (he : e.ReadOnly) :
    (∀ held (frame : Frame), (((evalExpr e) held).run.run frame).2.slots = frame.slots ∧
      frame.store.Intact (((evalExpr e) held).run.run frame).2.store) ∧
    (∀ (code : Code) (args : List Value) (s : Store), code.body = .expression e →
      s.Intact (code.call args s).1) ∧
    ∀ (i : Interpreter) (s : Store) (source : String) (context : Context) (mode : Mode)
      (manner : Manner) (f : CompiledFunction),
      (i.compile source (i.contextOf context).names mode).2 = .ok f →
        f.code.body = .expression e → s.Intact (i.runIn s source context mode manner).2.1 := by
  exact ⟨reading_evalExpr e he, fun code args s hbody => intact_call hbody he args s,
    fun i s source context mode manner f hcompile hbody =>
      i.intact_runIn s hcompile hbody he manner⟩

/-- Lists made of a list: `[xs.concat(xs), xs.slice()]`. -/
def listsOfList : Expr :=
  .array [
    .call (.member (.param 0 "xs") "concat" false) [.param 0 "xs"] false,
    .call (.member (.param 0 "xs") "slice" false) [] false]

/-- A cell with a list of two elements. -/
def pairInCell : Store where
  arrays := #[[.null, .undefined]]
  cells := #[{ held := .array ⟨0⟩ }]

/-- Three arrays are made, and the list in the cell is as it was. -/
theorem listsOfList_leaves_all_intact :
    listsOfList.ReadOnly ∧
      pairInCell.Intact (Code.call ⟨.expression, ["xs"], .expression listsOfList, 1⟩ [.cell ⟨0⟩]
        pairInCell).1 ∧
      (Code.call ⟨.expression, ["xs"], .expression listsOfList, 1⟩ [.cell ⟨0⟩]
        pairInCell).1.arrays.size = 4 := by
  have hreads : listsOfList.ReadOnly := by
    simp [listsOfList, Expr.ReadOnly, Expr.All, Expr.subterms, subtermsOf, Expr.Reads,
      Expr.CallsHarmlessly, changingMethods]
  exact ⟨hreads, (read_only_leaves_all_intact listsOfList hreads).2.1 _ _ _ rfl, by decide⟩

end LiveMarkup
