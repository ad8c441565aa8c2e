import LiveMarkup.Proofs.BindingLaws
import LiveMarkup.Proofs.DeclaredSlots
import LiveMarkup.Proofs.Variables

/-!
# Slots under another list of parameters

A tree refers to parameters and variables by slots, which are counted from the parameters on.  With
another list of parameters every slot is another one, but the tree is the same otherwise, if the two
lists have the same of the names that are looked up: the last parameter of a name goes where the
other list has that name last, and the variables keep their order after the parameters.

## Main definitions

* `Rebinding` — two lists of parameters that have the same of some names.
* `Rebinding.slot` — the slot in place of a slot.
* `Expr.renumber`, `Stmt.renumber`, `ParserState.renumber` — trees and states with other slots.
* `Expr.Placed`, `Stmt.Placed`, `ParserState.Placed` — trees and states whose slots are those of
  parameters and variables that there are.

## Main results

* `Rebinding.slot_inj` — different variables keep different slots.
* `placed_resolve`, `resolve_renumber` — what a name stands for.
-/

namespace LiveMarkup.Syntax

/-! ### Positions of names -/

section Positions

variable {params : List String} {name : String} {i : Nat}

/-- At the last position of a name stands the name. -/
theorem getElem?_of_lastPosition? (h : lastPosition? params name = some i) :
    params[i]? = some name := by
  obtain ⟨k, hk, rfl⟩ := Option.map_eq_some_iff.1 h
  obtain ⟨hlt, hname, -⟩ := List.findIdx?_eq_some_iff_getElem.1 hk
  rw [List.length_reverse] at hlt
  rw [List.getElem_reverse, beq_iff_eq] at hname
  rw [← hname]
  exact List.getElem?_eq_getElem _

theorem lt_of_lastPosition? (h : lastPosition? params name = some i) : i < params.length :=
  (List.getElem?_eq_some_iff.1 (getElem?_of_lastPosition? h)).1

theorem lastPosition?_eq_none_iff : lastPosition? params name = none ↔ name ∉ params := by
  rw [lastPosition?, Option.map_eq_none_iff, List.findIdx?_eq_none_iff]
  constructor
  · intro h hmem
    simpa using h name (List.mem_reverse.2 hmem)
  · rintro h other hother
    exact beq_false_of_ne fun heq => h (heq ▸ List.mem_reverse.1 hother)

theorem mem_of_lastPosition? (h : lastPosition? params name = some i) : name ∈ params :=
  List.mem_of_getElem? (getElem?_of_lastPosition? h)

theorem exists_lastPosition? (h : name ∈ params) : ∃ i, lastPosition? params name = some i :=
  Option.ne_none_iff_exists'.1 fun hnone => lastPosition?_eq_none_iff.1 hnone h

end Positions

/-! ### Slots -/

/-- Two lists of parameters, and names each of which is in both of them or in none. -/
structure Rebinding where
  params : List String
  others : List String
  names : List String
  same : ∀ name ∈ names, name ∈ params ↔ name ∈ others

namespace Rebinding

variable (ρ : Rebinding)

/-- The slot in place of a slot. -/
def slot (i : Nat) : Nat :=
  match ρ.params[i]? with
  | some name => (lastPosition? ρ.others name).getD 0
  | none => i - ρ.params.length + ρ.others.length

variable {ρ} {i j : Nat} {name : String}

/-- A parameter goes where the other list has its name last. -/
theorem slot_of_param (h : lastPosition? ρ.params name = some i) (hname : name ∈ ρ.names) :
    lastPosition? ρ.others name = some (ρ.slot i) := by
  obtain ⟨k, hk⟩ := exists_lastPosition? ((ρ.same name hname).1 (mem_of_lastPosition? h))
  rw [slot, getElem?_of_lastPosition? h]
  dsimp only
  rw [hk, Option.getD_some]

theorem slot_of_le (h : ρ.params.length ≤ i) :
    ρ.slot i = i - ρ.params.length + ρ.others.length := by
  rw [slot, List.getElem?_eq_none h]

theorem slot_length (ρ : Rebinding) : ρ.slot ρ.params.length = ρ.others.length := by
  rw [slot_of_le (Nat.le_refl _), Nat.sub_self, Nat.zero_add]

theorem slot_succ (h : ρ.params.length ≤ i) : ρ.slot (i + 1) = ρ.slot i + 1 := by
  rw [slot_of_le h, slot_of_le (Nat.le_succ_of_le h)]
  omega

/-- Different variables have different slots again. -/
theorem slot_inj (hi : ρ.params.length ≤ i) (hj : ρ.params.length ≤ j) :
    ρ.slot i = ρ.slot j ↔ i = j := by
  rw [slot_of_le hi, slot_of_le hj]
  omega

end Rebinding

/-! ### Trees -/

section Trees

variable (σ : Nat → Nat)

mutual

/-- The expression with other slots. -/
def Expr.renumber : Expr → Expr
  | .literal l => .literal l
  | .array items => .array (renumberList items)
  | .object properties => .object (renumberProperties properties)
  | .param slot name => .param (σ slot) name
  | .declared slot name => .declared (σ slot) name
  | .global g => .global g
  | .unbound name => .unbound name
  | .member object property optional => .member object.renumber property optional
  | .index object key optional => .index object.renumber key.renumber optional
  | .call callee args optional => .call callee.renumber (renumberList args) optional
  | .optionalChain chain => .optionalChain chain.renumber
  | .unary op operand => .unary op operand.renumber
  | .binary op left right => .binary op left.renumber right.renumber
  | .logical op left right => .logical op left.renumber right.renumber
  | .conditional test consequent alternate =>
    .conditional test.renumber consequent.renumber alternate.renumber
  | .assign op target value => .assign op target.renumber value.renumber
  | .update op result target => .update op result target.renumber

/-- The expressions with other slots. -/
def renumberList : List Expr → List Expr
  | [] => []
  | e :: rest => e.renumber :: renumberList rest

/-- The properties with other slots in their values. -/
def renumberProperties : List (String × Expr) → List (String × Expr)
  | [] => []
  | (key, e) :: rest => (key, e.renumber) :: renumberProperties rest

end

/-- The declarators with other slots. -/
def renumberDeclarators (declarators : List (Nat × Option Expr)) : List (Nat × Option Expr) :=
  declarators.map fun (slot, init) => (σ slot, init.map (Expr.renumber σ))

mutual

/-- The statement with other slots. -/
def Stmt.renumber : Stmt → Stmt
  | .empty => .empty
  | .expression e => .expression (e.renumber σ)
  | .block statements => .block (renumberStatements statements)
  | .declare declarators => .declare (renumberDeclarators σ declarators)
  | .conditional test consequent alternate =>
    .conditional (test.renumber σ) consequent.renumber (renumberOption alternate)
  | .returns value => .returns (value.map (Expr.renumber σ))

/-- The statements with other slots. -/
def renumberStatements : List Stmt → List Stmt
  | [] => []
  | s :: rest => s.renumber :: renumberStatements rest

/-- The statement that may be missing with other slots. -/
def renumberOption : Option Stmt → Option Stmt
  | none => none
  | some s => some s.renumber

end

/-- What a text says to do, with other slots. -/
def Body.renumber : Body → Body
  | .expression e => .expression (e.renumber σ)
  | .statements list => .statements (renumberStatements σ list)

theorem renumberList_eq (items : List Expr) :
    renumberList σ items = items.map (Expr.renumber σ) := by
  induction items with
  | nil => rfl
  | cons e rest ih => rw [renumberList, ih, List.map_cons]

theorem renumberProperties_eq (properties : List (String × Expr)) :
    renumberProperties σ properties = properties.map fun p => (p.1, p.2.renumber σ) := by
  induction properties with
  | nil => rfl
  | cons p rest ih => rw [renumberProperties, ih, List.map_cons]

theorem renumberStatements_eq (statements : List Stmt) :
    renumberStatements σ statements = statements.map (Stmt.renumber σ) := by
  induction statements with
  | nil => rfl
  | cons s rest ih => rw [renumberStatements, ih, List.map_cons]

theorem isUnary_renumber (e : Expr) : (e.renumber σ).isUnary = e.isUnary := by cases e <;> rfl

end Trees

/-! ### Slots that there are -/

/-- A parameter is the last one of its name, which is among the names; a variable has its slot after
the parameters and before `n`. -/
def Expr.InPlace (ρ : Rebinding) (n : Nat) : Expr → Prop
  | .param slot name => name ∈ ρ.names ∧ lastPosition? ρ.params name = some slot
  | .declared slot _ => ρ.params.length ≤ slot ∧ slot < n
  | _ => True

/-- All slots in the expression are in place. -/
def Expr.Placed (ρ : Rebinding) (n : Nat) (e : Expr) : Prop := e.All (InPlace ρ n)

/-- The slots that a statement declares, without those of the statements inside it. -/
def Stmt.slots : Stmt → List Nat
  | .declare declarators => declarators.map (·.1)
  | _ => []

/-- All slots in the statement are in place. -/
def Stmt.Placed (ρ : Rebinding) (n : Nat) (s : Stmt) : Prop :=
  s.All fun x => (∀ e ∈ x.expressions, e.Placed ρ n) ∧
    ∀ slot ∈ x.slots, ρ.params.length ≤ slot ∧ slot < n

/-- All slots are in place. -/
def Body.Placed (ρ : Rebinding) (n : Nat) : Body → Prop
  | .expression e => e.Placed ρ n
  | .statements list => ∀ s ∈ list, s.Placed ρ n

section Placed

variable {ρ : Rebinding} {n m : Nat}

theorem Expr.Placed.mono {e : Expr} (h : e.Placed ρ n) (hnm : n ≤ m) : e.Placed ρ m := by
  intro x hx
  have hplace := h x hx
  cases x with
  | declared slot name => exact ⟨hplace.1, Nat.lt_of_lt_of_le hplace.2 hnm⟩
  | _ => exact hplace

theorem Stmt.Placed.mono {s : Stmt} (h : s.Placed ρ n) (hnm : n ≤ m) : s.Placed ρ m :=
  fun x hx => ⟨fun e he => ((h x hx).1 e he).mono hnm,
    fun slot hslot => ⟨((h x hx).2 slot hslot).1, Nat.lt_of_lt_of_le ((h x hx).2 slot hslot).2 hnm⟩⟩

end Placed

/-! ### States of the parser -/

/-- The variable in another slot. -/
def Local.renumber (σ : Nat → Nat) (l : Local) : Local := { l with slot := σ l.slot }

/-- The state over the other list of parameters. -/
def ParserState.renumber (ρ : Rebinding) (s : ParserState) : ParserState where
  params := ρ.others
  tokens := s.tokens
  locals := s.locals.map (Local.renumber ρ.slot)
  nextSlot := ρ.slot s.nextSlot

/-- A state over the first list of parameters, in which the variables have slots after them, and in
which the words of the tokens to come that can name a variable are among the names. -/
structure ParserState.Placed (ρ : Rebinding) (s : ParserState) : Prop where
  params : s.params = ρ.params
  next : ρ.params.length ≤ s.nextSlot
  locals : ∀ l ∈ s.locals, ρ.params.length ≤ l.slot ∧ l.slot < s.nextSlot
  names : ∀ t ∈ s.tokens, ∀ name, t.kind = .name name → isReserved name = false → name ∈ ρ.names

section States

variable {ρ : Rebinding} {s : ParserState} {n : Nat}

theorem skip_renumber (s : ParserState) : (s.renumber ρ).skip = s.skip.renumber ρ := by
  obtain ⟨params, tokens, locals, slot⟩ := s
  cases tokens with
  | nil => rfl
  | cons t rest =>
    obtain ⟨kind, place, newline⟩ := t
    cases kind <;> rfl

theorem ParserState.Placed.skip (h : s.Placed ρ) : s.skip.Placed ρ := by
  unfold ParserState.skip
  split
  · next t rest heq =>
    split
    · exact h
    · exact ⟨h.params, h.next, h.locals,
        fun t' ht' => h.names t' (heq ▸ List.mem_cons_of_mem t ht')⟩
  · exact h

/-- The name that comes next is among the names, if it is not reserved. -/
theorem ParserState.Placed.mem_names (h : s.Placed ρ) {name : String}
    (hname : s.next.kind = .name name) (hfree : isReserved name = false) : name ∈ ρ.names := by
  obtain ⟨params, tokens, locals, slot⟩ := s
  cases tokens with
  | nil => cases hname
  | cons t rest => exact h.names t List.mem_cons_self name hname hfree

/-- What a name stands for is in place. -/
theorem placed_resolve (h : s.Placed ρ) {name : String} (hname : name ∈ ρ.names) :
    (s.resolve name).Placed ρ s.nextSlot := by
  unfold ParserState.resolve
  split
  · next l hfind => exact all_declared.2 (h.locals l (List.mem_of_find?_eq_some hfind))
  · split
    · next slot hslot => exact all_param.2 ⟨hname, h.params ▸ hslot⟩
    · split
      · exact all_literal.2 trivial
      · split
        · exact all_global.2 trivial
        · exact all_unbound.2 trivial

/-- A name stands for the same over the other list, but for the slot. -/
theorem resolve_renumber (h : s.Placed ρ) {name : String} (hname : name ∈ ρ.names) :
    (s.renumber ρ).resolve name = (s.resolve name).renumber ρ.slot := by
  have hfind : (s.renumber ρ).locals.find? (fun l => l.name == name) =
      (s.locals.find? fun l => l.name == name).map (Local.renumber ρ.slot) :=
    List.find?_map ..
  rw [ParserState.resolve, hfind, ParserState.resolve]
  cases s.locals.find? fun l => l.name == name with
  | some l => rfl
  | none =>
    dsimp only [Option.map_none]
    rw [h.params]
    cases hslot : lastPosition? ρ.params name with
    | some slot =>
      rw [show (s.renumber ρ).params = ρ.others from rfl, Rebinding.slot_of_param hslot hname]
      rfl
    | none =>
      -- a name that is in neither list is a builtin or unbound, whatever the lists are
      have hother : lastPosition? ρ.others name = none := by
        rw [lastPosition?_eq_none_iff] at hslot ⊢
        exact fun hmem => hslot ((ρ.same name hname).2 hmem)
      rw [show (s.renumber ρ).params = ρ.others from rfl, hother]
      dsimp only
      split
      · rfl
      · split <;> rfl

/-- Constants are the same. -/
theorem isConstant_renumber (h : s.Placed ρ) {slot : Nat} (hslot : ρ.params.length ≤ slot) :
    (s.renumber ρ).isConstant (ρ.slot slot) = s.isConstant slot := by
  unfold ParserState.isConstant ParserState.renumber
  rw [List.any_map, Bool.eq_iff_iff, List.any_eq_true, List.any_eq_true]
  refine exists_congr fun l => and_congr_right fun hl => ?_
  have hsame : (l.renumber ρ.slot).slot = ρ.slot slot ↔ l.slot = slot :=
    Rebinding.slot_inj (h.locals l hl).1 hslot
  simp only [Function.comp_apply, Bool.and_eq_true, beq_iff_eq, hsame]
  exact Iff.rfl

end States

end LiveMarkup.Syntax
