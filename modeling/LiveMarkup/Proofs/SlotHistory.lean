import LiveMarkup.Proofs.CellVariables
import LiveMarkup.Proofs.Conduct
import LiveMarkup.Proofs.InRange

/-!
# The history of a slot

A slot gets a value from the declaration of its variable, from an assignment or from an update.  The
stores of a run are all of these in order, each with the frame as it is when the value is stored;
a declaration counts as a write of its slot.  Between two stores no slot changes: each store finds
the slots as the one before it has left them.

An expression stores only to the targets that it has.  So a slot that is no target is stored to at
most as often as it is declared, and if that is once, it keeps its value from then on.

## Main definitions

* `Stmt.stores`, `Code.stores` — the stores of a statement and of a call.
* `Threads` — stores that lead from the slots of one frame to those of another.
* `Expr.Spares` — an assignment or an update with another target than a slot.
* `Stmt.allSlots` — the slots that a statement declares, with those of the statements inside it.

## Main results

* `threads_call` — the stores of a call lead from its first frame to its last.
* `Threads.slot_eq` — a slot that is not stored to keeps its value.
* `atMost_stores` — how often a slot is stored to.
* `Threads.slot_of_declared_once` — a slot that is stored to once keeps its value.
-/

namespace LiveMarkup

open Eval Syntax
open Eval.Evaluation

/-! ### Stores -/

namespace Syntax

/-- The stores of a declaration. -/
def declarationStores : List (Nat × Option Expr) → Trace
  | [] => .silent
  | (slot, some e) :: rest =>
    e.writes.andThen (evalExpr e) fun v =>
      (Trace.write (.slot slot) v).andThen (fillSlot slot v) fun _ => declarationStores rest
  | (slot, none) :: rest =>
    (Trace.write (.slot slot) .undefined).andThen (fillSlot slot .undefined) fun _ =>
      declarationStores rest

mutual

/-- The stores of a statement. -/
def Stmt.stores : Stmt → Trace
  | .empty | .returns none => .silent
  | .expression e | .returns (some e) => e.writes
  | .block statements => statementsStores statements
  | .declare declarators => declarationStores declarators
  | .conditional test consequent alternate =>
    test.writes.andThen (evalExpr test) fun test =>
      .after (askOf test Store.isTruthy) fun holds =>
        if holds then consequent.stores else alternateStores alternate

/-- The stores of statements one after another. -/
def statementsStores : List Stmt → Trace
  | [] => .silent
  | s :: rest => s.stores.andThen (execStmt s) fun _ => statementsStores rest

/-- The stores of a statement if there is one. -/
def alternateStores : Option Stmt → Trace
  | none => .silent
  | some s => s.stores

end

/-- The stores of what a function says to do. -/
def Body.stores : Body → Trace
  | .expression e => e.writes
  | .statements list => statementsStores list

end Syntax

namespace Eval

/-- The stores of a call of a function. -/
def Code.stores (code : Code) (args : List Value) (s : Store) : List Write :=
  code.body.stores (references args) (code.frame args s)

/-! ### From frame to frame -/

/-- The slots are the same, and as many of them are parameters. -/
structure Frame.SameSlots (f g : Frame) : Prop where
  slots : g.slots = f.slots
  params : g.params = f.params

/-- A frame with the slots that a write leaves. -/
def Write.after (w : Write) : Frame :=
  match w.place with
  | .slot i => w.frame.writeSlot i w.value
  | _ => w.frame

/-- The stores lead from the slots of one frame to those of another: each begins where the one
before it has ended. -/
def Threads : List Write → Frame → Frame → Prop
  | [], f, g => f.SameSlots g
  | w :: ws, f, g => f.SameSlots w.frame ∧ Threads ws w.after g

variable {α : Type} {f g k : Frame} {ws ws' : List Write} {i : Nat}

theorem Frame.SameSlots.refl (f : Frame) : f.SameSlots f := ⟨rfl, rfl⟩

theorem Frame.SameSlots.trans (hfg : f.SameSlots g) (hgh : g.SameSlots k) : f.SameSlots k :=
  ⟨hgh.slots.trans hfg.slots, hgh.params.trans hfg.params⟩

theorem Frame.SameSlots.slot (hfg : f.SameSlots g) (i : Nat) : g.slot i = f.slot i := by
  rw [Frame.slot, Frame.slot, hfg.slots]

theorem Frame.sameSlots_letGo (f : Frame) (kept lost : List Entity) :
    f.SameSlots (f.letGo kept lost) := by
  unfold Frame.letGo
  split <;> exact ⟨rfl, rfl⟩

namespace Threads

theorem of_same (hfg : f.SameSlots g) (hgh : Threads ws g k) : Threads ws f k := by
  cases ws with
  | nil => exact hfg.trans hgh
  | cons w ws => exact ⟨hfg.trans hgh.1, hgh.2⟩

theorem append (hfg : Threads ws f g) (hgh : Threads ws' g k) : Threads (ws ++ ws') f k := by
  induction ws generalizing f with
  | nil => exact of_same hfg hgh
  | cons w ws ih => exact ⟨hfg.1, ih hfg.2⟩

theorem of_append (h : Threads (ws ++ ws') f k) : ∃ g, Threads ws f g ∧ Threads ws' g k := by
  induction ws generalizing f with
  | nil => exact ⟨f, .refl f, h⟩
  | cons w ws ih =>
    obtain ⟨g, hws, hws'⟩ := ih h.2
    exact ⟨g, ⟨h.1, hws⟩, hws'⟩

end Threads

/-! #### One slot -/

theorem slot_writeSlot_of_ne {j : Nat} (hij : j ≠ i) (f : Frame) (v : Value) :
    (f.writeSlot j v).slot i = f.slot i := by
  have hset : (f.setSlot j v).slot i = f.slot i := by
    rw [slot_setSlot, if_neg fun h => hij h.1]
  unfold Frame.writeSlot
  split
  · split
    · rfl
    · exact hset
  · exact hset

/-- The slot of a variable has what is written to it, whatever it held. -/
theorem slot_writeSlot (hparams : f.params ≤ i) (hi : i < f.slots.size) (v : Value) :
    (f.writeSlot i v).slot i = v := by
  have hset : (f.setSlot i v).slot i = v := by rw [slot_setSlot, if_pos ⟨rfl, hi⟩]
  unfold Frame.writeSlot
  split
  · rw [if_neg (by omega)]
    exact hset
  · exact hset

theorem params_writeSlot (f : Frame) (i : Nat) (v : Value) :
    (f.writeSlot i v).params = f.params := by
  unfold Frame.writeSlot
  split
  · split <;> rfl
  · rfl

/-- Whether a write goes to a slot. -/
def Write.fills (w : Write) (i : Nat) : Bool :=
  match w.place with
  | .slot j => j == i
  | _ => false

theorem slot_after {w : Write} (hw : w.fills i = false) : w.after.slot i = w.frame.slot i := by
  unfold Write.after
  unfold Write.fills at hw
  split
  · next j hplace =>
    rw [hplace] at hw
    exact slot_writeSlot_of_ne (beq_eq_false_iff_ne.1 hw) _ _
  · rfl

theorem size_after (w : Write) : w.after.slots.size = w.frame.slots.size := by
  unfold Write.after
  split
  · exact Checked.size_writeSlot _ _ _
  · rfl

theorem params_after (w : Write) : w.after.params = w.frame.params := by
  unfold Write.after
  split
  · exact params_writeSlot _ _ _
  · rfl

/-- What is written to the slot of a variable is in it afterwards. -/
theorem slot_after_of_fills {w : Write} (hw : w.fills i = true) (hparams : w.frame.params ≤ i)
    (hi : i < w.frame.slots.size) : w.after.slot i = w.value := by
  unfold Write.after
  unfold Write.fills at hw
  split
  · next j hplace =>
    rw [hplace] at hw
    cases beq_iff_eq.1 hw
    exact slot_writeSlot hparams hi _
  · next hplace =>
    split at hw
    · next j hslot => exact absurd hslot (hplace j)
    · cases hw

namespace Threads

theorem shape (h : Threads ws f g) : g.slots.size = f.slots.size ∧ g.params = f.params := by
  induction ws generalizing f with
  | nil => exact ⟨congrArg Array.size h.slots, h.params⟩
  | cons w ws ih =>
    obtain ⟨hsize, hparams⟩ := ih h.2
    rw [size_after, h.1.slots] at hsize
    rw [params_after, h.1.params] at hparams
    exact ⟨hsize, hparams⟩

/-- A slot that is not stored to keeps its value all the time. -/
theorem slot_eq (h : Threads ws f g) (hws : ∀ w ∈ ws, w.fills i = false) :
    g.slot i = f.slot i ∧ ∀ w ∈ ws, w.frame.slot i = f.slot i := by
  induction ws generalizing f with
  | nil => exact ⟨h.slot i, List.forall_mem_nil _⟩
  | cons w ws ih =>
    obtain ⟨hw, hrest⟩ := List.forall_mem_cons.1 hws
    obtain ⟨hlast, hall⟩ := ih h.2 hrest
    have hfirst : w.after.slot i = f.slot i := (slot_after hw).trans (h.1.slot i)
    refine ⟨hlast.trans hfirst, List.forall_mem_cons.2 ⟨h.1.slot i, fun x hx => ?_⟩⟩
    exact (hall x hx).trans hfirst

/-- The slot of a variable keeps the value of the last store to it. -/
theorem slot_of_last {w : Write} (h : Threads (ws ++ w :: ws') f g) (hw : w.fills i = true)
    (hparams : f.params ≤ i) (hi : i < f.slots.size) (hlast : ∀ x ∈ ws', x.fills i = false) :
    g.slot i = w.value ∧ ∀ x ∈ ws', x.frame.slot i = w.value := by
  obtain ⟨m, hbefore, hsame, hafter⟩ := of_append h
  obtain ⟨hsize, hcount⟩ := hbefore.shape
  have hvalue : w.after.slot i = w.value := by
    refine slot_after_of_fills hw ?_ ?_
    · rw [hsame.params, hcount]
      exact hparams
    · rw [hsame.slots, hsize]
      exact hi
  have hkept := hafter.slot_eq hlast
  rw [hvalue] at hkept
  exact hkept

end Threads

/-! ### Every run -/

theorem sameSlots_replacing {change : Evaluation Unit} {held : List Entity}
    (h : f.SameSlots ((change held).run.run g).2) :
    f.SameSlots ((replacing change held).run.run g).2 := by
  rw [run_replacing]
  revert h
  rcases (change held).run.run g with ⟨i | x, after⟩ <;> intro h
  · exact h
  · exact h.trans (after.sameSlots_letGo _ _)

theorem sameSlots_attempt (change : Store → Outcome α) (held : List Entity) (f : Frame) :
    f.SameSlots ((attempt change held).run.run f).2 := by
  rw [attempt, run_bind]
  show f.SameSlots ((ofExcept (change f.store).2 held).run.run
    { f with store := (change f.store).1 }).2
  cases (change f.store).2 <;> exact ⟨rfl, rfl⟩

/-- Writing a place leaves the slots that the write says. -/
theorem sameSlots_writePlace (place : Place) (v : Value) (held : List Entity) (f : Frame) :
    (Write.mk f place v).after.SameSlots ((writePlace place v held).run.run f).2 := by
  refine sameSlots_replacing ?_
  cases place with
  | slot i => exact .refl _
  | unbound name => exact .refl f
  | property object key => exact sameSlots_attempt _ held f

/-- In frames with so many parameters, the writes lead from one frame to the other. -/
def slotLedger (n : Nat) : Ledger where
  holds ws f g := f.params = n → Threads ws f g
  refl f _ := .refl f
  append hws hws' hn := (hws hn).append (hws' ((hws hn).shape.2.trans hn))
  handles _ _ _ _ := ⟨rfl, rfl⟩
  write place v held f _ := ⟨.refl f, sameSlots_writePlace place v held f⟩

variable {n : Nat}

/-- A declaration writes the slot of its variable. -/
theorem threads_fillSlot {i : Nat} (hi : n ≤ i) (v : Value) :
    Recorded (slotLedger n) (fillSlot i v) (.write (.slot i) v) := by
  intro held f hparams
  refine ⟨.refl f, sameSlots_replacing ?_⟩
  have hwrite : f.writeSlot i v = f.setSlot i v := by
    unfold Frame.writeSlot
    split
    · exact if_neg (by omega)
    · rfl
  show (f.writeSlot i v).SameSlots (f.setSlot i v)
  rw [hwrite]
  exact .refl _

theorem threads_declareAll (declarators : List (Nat × Option Expr))
    (h : ∀ d ∈ declarators, n ≤ d.1) :
    Recorded (slotLedger n) (declareAll declarators) (declarationStores declarators) := by
  induction declarators with
  | nil => exact silent_pure ()
  | cons declarator rest ih =>
    obtain ⟨slot, init⟩ := declarator
    obtain ⟨hslot, hrest⟩ := List.forall_mem_cons.1 h
    unfold declareAll
    cases init with
    | none => exact (threads_fillSlot hslot _).bind fun _ => ih hrest
    | some e =>
      exact (recorded_evalExpr e).bind fun v => (threads_fillSlot hslot v).bind fun _ => ih hrest

mutual

/-- The stores of a statement lead from frame to frame. -/
theorem threads_execStmt (s : Stmt) (hs : s.All (Stmt.DeclaresFrom n)) :
    Recorded (slotLedger n) (execStmt s) s.stores := by
  cases s with
  | empty => exact silent_pure ()
  | expression e =>
    rw [execStmt, Stmt.stores]
    exact (recorded_evalExpr e).before fun v => silent_letGo _
  | block statements =>
    rw [execStmt, Stmt.stores]
    exact threads_execList statements (Stmt.all_block.1 hs).2
  | declare declarators =>
    rw [execStmt, Stmt.stores]
    exact threads_declareAll declarators (Stmt.all_declare.1 hs)
  | conditional test consequent alternate =>
    obtain ⟨-, hconsequent, halternate⟩ := Stmt.all_conditional.1 hs
    rw [execStmt, Stmt.stores]
    refine (recorded_evalExpr test).bind fun test => (silent_askOf test _).after fun holds => ?_
    split
    · exact threads_execStmt consequent hconsequent
    · exact threads_execOption alternate halternate
  | returns value =>
    unfold execStmt
    cases value with
    | none => exact (silent_pure _).before fun v => silent_throw _
    | some e => exact (recorded_evalExpr e).before fun v => silent_throw _

theorem threads_execList (statements : List Stmt)
    (h : ∀ s ∈ statements, s.All (Stmt.DeclaresFrom n)) :
    Recorded (slotLedger n) (execList statements) (statementsStores statements) := by
  cases statements with
  | nil => exact silent_pure ()
  | cons s rest =>
    obtain ⟨hs, hrest⟩ := List.forall_mem_cons.1 h
    rw [execList, statementsStores]
    exact (threads_execStmt s hs).bind fun _ => threads_execList rest hrest

theorem threads_execOption (s : Option Stmt) (h : ∀ x ∈ s, x.All (Stmt.DeclaresFrom n)) :
    Recorded (slotLedger n) (execOption s) (alternateStores s) := by
  cases s with
  | none => exact silent_pure ()
  | some s =>
    rw [execOption, alternateStores]
    exact threads_execStmt s (h s rfl)

end

theorem threads_evalBody (body : Body) (h : body.All (Stmt.DeclaresFrom n)) :
    Recorded (slotLedger n) (evalBody body) body.stores := by
  cases body with
  | expression e => exact recorded_evalExpr e
  | statements statements => exact (threads_execList statements h).before fun _ => silent_pure _

/-- The stores of a call lead from its first frame to its last. -/
theorem threads_call {source : String} {params : List String} {mode : Mode} {code : Code}
    (h : Code.compile source params mode = .ok code) (args : List Value) (s : Store) :
    Threads (code.stores args s) (code.frame args s) (code.lastFrame args s) :=
  threads_evalBody code.body (slots_of_compile h).2.1 (references args) (code.frame args s) rfl

/-! ### The targets of stores -/

end Eval

namespace Syntax

/-- The slot that an assignment to an expression writes. -/
def Expr.slot? : Expr → Option Nat
  | .param slot _ | .declared slot _ => some slot
  | _ => none

/-- An assignment or an update has another target than a slot. -/
def Expr.Spares (i : Nat) : Expr → Prop
  | .assign _ target _ | .update _ _ target => target.slot? ≠ some i
  | _ => True

end Syntax

namespace Eval

/-- The writes of a trace go past a slot. -/
def Trace.Misses (i : Nat) (t : Trace) : Prop :=
  ∀ (held : List Entity) (frame : Frame), ∀ w ∈ t held frame, w.fills i = false

namespace Trace

variable {β : Type} {i : Nat} {t : Trace} {k : Evaluation β} {next : β → Trace}

theorem misses_silent : silent.Misses i := fun _ _ => List.forall_mem_nil _

theorem misses_write {place : Place} (h : place ≠ .slot i) (v : Value) :
    (Trace.write place v).Misses i := by
  intro held frame w hw
  cases List.mem_singleton.1 hw
  unfold Write.fills
  split
  · next j hplace => exact beq_eq_false_iff_ne.2 fun hj => h (hj ▸ hplace)
  · rfl

theorem Misses.within (h : t.Misses i) (es : List Entity) : (t.within es).Misses i :=
  fun held frame => h (es ++ held) frame

theorem Misses.andThen_yields (h : t.Misses i) (hnext : ∀ x, k.Yields x → (next x).Misses i) :
    (t.andThen k next).Misses i := by
  intro held frame
  unfold Trace.andThen
  refine List.forall_mem_append.2 ⟨h held frame, ?_⟩
  split
  · next x after hrun => exact hnext x ⟨held, frame, by rw [hrun]⟩ held after
  · exact List.forall_mem_nil _

theorem Misses.andThen (h : t.Misses i) (hnext : ∀ x, (next x).Misses i) :
    (t.andThen k next).Misses i :=
  h.andThen_yields fun x _ => hnext x

theorem misses_after (hnext : ∀ x, (next x).Misses i) : (Trace.after k next).Misses i :=
  misses_silent.andThen hnext

end Trace

/-- An expression stands for the place of a slot only if it is the name that has it. -/
theorem yields_evalPlace {e : Expr} {i : Nat} (h : (evalPlace e).Yields (.slot i)) :
    e.slot? = some i := by
  cases e with
  | param slot name | declared slot name =>
    rw [evalPlace] at h
    cases yields_pure h
    rfl
  | unbound name =>
    rw [evalPlace] at h
    cases yields_pure h
  | member object property optional =>
    rw [evalPlace] at h
    obtain ⟨v, -, h⟩ := yields_bind h
    cases yields_pure h
  | index object key optional =>
    rw [evalPlace] at h
    obtain ⟨v, -, h⟩ := yields_bind h
    obtain ⟨name, -, h⟩ := yields_bind h
    cases yields_pure h
  | _ =>
    obtain ⟨held, frame, hrun⟩ := h
    cases hrun

open Trace

mutual

/-- An expression that spares a slot does not write it. -/
theorem misses_writes {i : Nat} (e : Expr) (he : e.All (Expr.Spares i)) : e.writes.Misses i := by
  cases e with
  | literal | param | declared | global | unbound => exact misses_silent
  | array items =>
    rw [Expr.writes]
    exact misses_listWrites [] items (all_array.1 he).2
  | object properties =>
    rw [Expr.writes]
    exact misses_propertiesWrites .empty properties (all_object.1 he).2
  | member object property optional =>
    rw [Expr.writes]
    exact misses_writes object (all_member.1 he).2
  | index object key optional =>
    obtain ⟨-, hobject, hkey⟩ := all_index.1 he
    rw [Expr.writes]
    exact (misses_writes object hobject).andThen fun target =>
      (misses_after fun _ => misses_writes key hkey).within _
  | call callee args optional =>
    obtain ⟨-, hcallee, hargs⟩ := all_call.1 he
    rw [Expr.writes]
    cases evalReceiver callee with
    | some receiver =>
      exact (misses_receiverWrites callee hcallee).andThen fun receiver =>
        (misses_listWrites [] args hargs).within _
    | none =>
      refine (misses_writes callee hcallee).andThen fun f =>
        misses_after fun f => Misses.within ?_ _
      split
      · exact misses_silent
      · exact misses_listWrites [] args hargs
  | optionalChain chain =>
    rw [Expr.writes]
    exact misses_writes chain (all_optionalChain.1 he).2
  | unary op operand =>
    rw [Expr.writes]
    split
    · exact misses_silent
    · exact misses_writes operand (all_unary.1 he).2
  | binary op left right =>
    obtain ⟨-, hleft, hright⟩ := all_binary.1 he
    rw [Expr.writes]
    exact (misses_writes left hleft).andThen fun v => (misses_writes right hright).within _
  | logical op left right =>
    obtain ⟨-, hleft, hright⟩ := all_logical.1 he
    rw [Expr.writes]
    refine (misses_writes left hleft).andThen fun v => misses_after fun stops => ?_
    split
    · exact misses_silent
    · exact (misses_writes right hright).within _
  | conditional test consequent alternate =>
    obtain ⟨-, htest, hconsequent, halternate⟩ := all_conditional.1 he
    rw [Expr.writes]
    refine (misses_writes test htest).andThen fun v => misses_after fun holds => ?_
    split
    · exact misses_writes consequent hconsequent
    · exact misses_writes alternate halternate
  | assign op target value =>
    obtain ⟨hspares, htarget, hvalue⟩ := all_assign.1 he
    rw [Expr.writes]
    -- the place is the one that the target stands for
    refine (misses_placeWrites target htarget).andThen_yields fun place hplace =>
      Misses.andThen ?_ fun v => misses_write (fun hslot => ?_) v
    · cases op with
      | assign => exact (misses_writes value hvalue).within _
      | compound op =>
        exact (misses_after fun current => (misses_writes value hvalue).within _).within _
    · subst hslot
      exact hspares (yields_evalPlace hplace)
  | update op result target =>
    obtain ⟨hspares, htarget⟩ := all_update.1 he
    rw [Expr.writes]
    refine (misses_placeWrites target htarget).andThen_yields fun place hplace =>
      misses_after fun old => misses_write (fun hslot => ?_) _
    subst hslot
    exact hspares (yields_evalPlace hplace)

theorem misses_listWrites {i : Nat} (done : List Value) (es : List Expr)
    (hes : ∀ e ∈ es, e.All (Expr.Spares i)) : (listWrites done es).Misses i := by
  cases es with
  | nil => exact misses_silent
  | cons e rest =>
    obtain ⟨he, hrest⟩ := List.forall_mem_cons.1 hes
    rw [listWrites]
    exact ((misses_writes e he).within _).andThen fun v =>
      misses_listWrites (done ++ [v]) rest hrest

theorem misses_propertiesWrites {i : Nat} (done : Bindings Value) (es : List (String × Expr))
    (hes : ∀ p ∈ es, p.2.All (Expr.Spares i)) : (propertiesWrites done es).Misses i := by
  match es, hes with
  | [], _ => exact misses_silent
  | (key, e) :: rest, hes =>
    obtain ⟨he, hrest⟩ := List.forall_mem_cons.1 hes
    rw [propertiesWrites]
    exact ((misses_writes e he).within _).andThen fun v => misses_after fun _ =>
      misses_propertiesWrites _ rest hrest

theorem misses_placeWrites {i : Nat} (e : Expr) (he : e.All (Expr.Spares i)) :
    e.placeWrites.Misses i := by
  cases e with
  | member object property optional =>
    rw [Expr.placeWrites]
    exact misses_writes object (all_member.1 he).2
  | index object key optional =>
    obtain ⟨-, hobject, hkey⟩ := all_index.1 he
    rw [Expr.placeWrites]
    exact (misses_writes object hobject).andThen fun v => (misses_writes key hkey).within _
  | _ => exact misses_silent

theorem misses_receiverWrites {i : Nat} (e : Expr) (he : e.All (Expr.Spares i)) :
    e.receiverWrites.Misses i := by
  cases e with
  | member object property optional =>
    rw [Expr.receiverWrites]
    exact misses_writes object (all_member.1 he).2
  | index object key optional =>
    obtain ⟨-, hobject, hkey⟩ := all_index.1 he
    rw [Expr.receiverWrites]
    exact (misses_writes object hobject).andThen fun v =>
      (misses_after fun _ => misses_writes key hkey).within _
  | _ => exact misses_silent

end

end Eval

/-! ### How often a slot is stored to -/

namespace Syntax

/-- The slots that statements declare, with those of the statements inside them. -/
def slotsOf (statements : List Stmt) : List Nat := (partsOf statements).flatMap Stmt.slots

/-- The slots that a statement declares, with those of the statements inside it. -/
def Stmt.allSlots (s : Stmt) : List Nat := s.parts.flatMap Stmt.slots

theorem slotsOf_cons (s : Stmt) (rest : List Stmt) :
    slotsOf (s :: rest) = s.allSlots ++ slotsOf rest := by
  rw [slotsOf, partsOf, List.flatMap_append, Stmt.allSlots, slotsOf]

theorem allSlots_block (statements : List Stmt) :
    (Stmt.block statements).allSlots = slotsOf statements := by
  simp [Stmt.allSlots, Stmt.parts, Stmt.slots, slotsOf]

theorem allSlots_declare (declarators : List (Nat × Option Expr)) :
    (Stmt.declare declarators).allSlots = declarators.map Prod.fst := by
  simp [Stmt.allSlots, Stmt.parts, Stmt.slots]

theorem allSlots_conditional (test : Expr) (consequent : Stmt) (alternate : Option Stmt) :
    (Stmt.conditional test consequent alternate).allSlots =
      consequent.allSlots ++ slotsOf alternate.toList := by
  cases alternate <;> simp [Stmt.allSlots, Stmt.parts, Stmt.slots, partsOfOption, slotsOf, partsOf]

/-- The expressions of a statement spare a slot. -/
def Stmt.Spares (i : Nat) (s : Stmt) : Prop := ∀ e ∈ s.expressions, e.All (Expr.Spares i)

end Syntax

namespace Eval

/-- A trace has at most so many writes of a slot. -/
def Trace.AtMost (i n : Nat) (t : Trace) : Prop :=
  ∀ (held : List Entity) (frame : Frame), (t held frame).countP (·.fills i) ≤ n

namespace Trace

variable {β : Type} {i m n : Nat} {t : Trace} {k : Evaluation β} {next : β → Trace}

theorem Misses.atMost (h : t.Misses i) (n : Nat) : t.AtMost i n := by
  intro held frame
  have hnone : (t held frame).countP (·.fills i) = 0 :=
    List.countP_eq_zero.2 fun w hw => by simp [h held frame w hw]
  omega

theorem AtMost.andThen (h : t.AtMost i m) (hnext : ∀ x, (next x).AtMost i n) :
    (t.andThen k next).AtMost i (m + n) := by
  intro held frame
  unfold Trace.andThen
  rw [List.countP_append]
  refine Nat.add_le_add (h held frame) ?_
  split
  · next x after hrun => exact hnext x held after
  · exact Nat.zero_le n

/-- What goes past a slot does not count. -/
theorem Misses.andThen_atMost (h : t.Misses i) (hnext : ∀ x, (next x).AtMost i n) :
    (t.andThen k next).AtMost i n := by
  have hboth := (h.atMost 0).andThen (k := k) hnext
  rwa [Nat.zero_add] at hboth

theorem atMost_after (hnext : ∀ x, (next x).AtMost i n) : (Trace.after k next).AtMost i n :=
  misses_silent.andThen_atMost hnext

theorem atMost_write (slot : Nat) (v : Value) :
    (Trace.write (.slot slot) v).AtMost i (if slot = i then 1 else 0) := by
  intro held frame
  simp [Trace.write, List.countP_cons, Write.fills]

end Trace

open Trace

theorem atMost_declarationStores {i : Nat} (declarators : List (Nat × Option Expr))
    (h : ∀ d ∈ declarators, ∀ e ∈ d.2, e.All (Expr.Spares i)) :
    (declarationStores declarators).AtMost i ((declarators.map Prod.fst).count i) := by
  induction declarators with
  | nil => exact misses_silent.atMost _
  | cons declarator rest ih =>
    obtain ⟨slot, init⟩ := declarator
    obtain ⟨hinit, hrest⟩ := List.forall_mem_cons.1 h
    have hfill (v : Value) : ((Trace.write (.slot slot) v).andThen (fillSlot slot v) fun _ =>
        declarationStores rest).AtMost i ((((slot, init) :: rest).map Prod.fst).count i) := by
      have hcount := (atMost_write (i := i) slot v).andThen (k := fillSlot slot v)
        fun _ => ih hrest
      simpa [List.count_cons, Nat.add_comm] using hcount
    cases init with
    | none => exact hfill .undefined
    | some e => exact (misses_writes e (hinit e rfl)).andThen_atMost hfill

mutual

/-- A statement whose expressions spare a slot stores to it at most as often as it declares it. -/
theorem atMost_stores {i : Nat} (s : Stmt) (hs : s.All (Stmt.Spares i)) :
    s.stores.AtMost i (s.allSlots.count i) := by
  cases s with
  | empty => exact misses_silent.atMost _
  | expression e =>
    rw [Stmt.stores]
    exact (misses_writes e (Stmt.all_expression.1 hs e List.mem_cons_self)).atMost _
  | block statements =>
    rw [Stmt.stores, allSlots_block]
    exact atMost_statementsStores statements (Stmt.all_block.1 hs).2
  | declare declarators =>
    rw [Stmt.stores, allSlots_declare]
    refine atMost_declarationStores declarators fun d hd e he => Stmt.all_declare.1 hs e ?_
    exact List.mem_filterMap.2 ⟨d, hd, he⟩
  | conditional test consequent alternate =>
    obtain ⟨htest, hconsequent, halternate⟩ := Stmt.all_conditional.1 hs
    have hfirst := atMost_stores consequent hconsequent
    have hsecond := atMost_alternateStores alternate halternate
    rw [Stmt.stores, allSlots_conditional, List.count_append]
    -- only one of the branches is executed
    refine (misses_writes test (htest test List.mem_cons_self)).andThen_atMost fun v =>
      atMost_after fun holds => ?_
    intro held frame
    split
    · exact (hfirst held frame).trans (Nat.le_add_right _ _)
    · exact (hsecond held frame).trans (Nat.le_add_left _ _)
  | returns value =>
    cases value with
    | none => exact misses_silent.atMost _
    | some e =>
      rw [Stmt.stores]
      exact (misses_writes e (Stmt.all_returns.1 hs e List.mem_cons_self)).atMost _

theorem atMost_statementsStores {i : Nat} (statements : List Stmt)
    (h : ∀ s ∈ statements, s.All (Stmt.Spares i)) :
    (statementsStores statements).AtMost i ((slotsOf statements).count i) := by
  cases statements with
  | nil => exact misses_silent.atMost _
  | cons s rest =>
    obtain ⟨hs, hrest⟩ := List.forall_mem_cons.1 h
    rw [statementsStores, slotsOf_cons, List.count_append]
    exact (atMost_stores s hs).andThen fun _ => atMost_statementsStores rest hrest

theorem atMost_alternateStores {i : Nat} (s : Option Stmt)
    (h : ∀ x ∈ s, x.All (Stmt.Spares i)) :
    (alternateStores s).AtMost i ((slotsOf s.toList).count i) := by
  cases s with
  | none => exact misses_silent.atMost _
  | some s =>
    have hs := atMost_stores s (h s rfl)
    rw [alternateStores, Option.toList_some, slotsOf_cons, List.count_append]
    exact fun held frame => (hs held frame).trans (Nat.le_add_right _ _)

end

/-- A slot of a variable that is no target, and is declared once, keeps the value that is stored to
it: nothing is stored to it again, and it has this value at every later store and in the end. -/
theorem Threads.slot_of_declared_once {statements : List Stmt} {i : Nat} {held : List Entity}
    {f g : Frame} (hspares : ∀ s ∈ statements, s.All (Stmt.Spares i))
    (honce : (slotsOf statements).Nodup) (hparams : f.params ≤ i) (hi : i < f.slots.size)
    (h : Threads (statementsStores statements held f) f g) {before later : List Write} {w : Write}
    (hsplit : statementsStores statements held f = before ++ w :: later)
    (hw : w.fills i = true) :
    (∀ x ∈ later, x.fills i = false ∧ x.frame.slot i = w.value) ∧ g.slot i = w.value := by
  have hcount : (before ++ w :: later).countP (·.fills i) ≤ 1 :=
    hsplit ▸ (atMost_statementsStores statements hspares held f).trans
      (List.nodup_iff_count_le_one.1 honce i)
  have hlater : ∀ x ∈ later, x.fills i = false := by
    rw [List.countP_append, List.countP_cons, if_pos hw] at hcount
    have hnone : later.countP (·.fills i) = 0 := by omega
    exact fun x hx => Bool.eq_false_iff.2 (List.countP_eq_zero.1 hnone x hx)
  rw [hsplit] at h
  obtain ⟨hlast, hall⟩ := h.slot_of_last hw hparams hi hlater
  exact ⟨fun x hx => ⟨hlater x hx, hall x hx⟩, hlast⟩

end Eval

end LiveMarkup
