import LiveMarkup.Proofs.Rebinding
import LiveMarkup.Proofs.SealedChains
import Mathlib.Data.List.Nodup

/-!
# What expressions see

The parsers of expressions only read which variables can be seen: they neither declare a variable
nor hide one.  A name stands for the variable that is seen under it, the latest one that has it, and
what an expression assigns to is no constant.  A target is refused as a constant only where a
constant is seen under its name.

The parsers look at slots only to compare them.  So with other slots for the variables they go the
same way and give the same tree with the other slots.

## Main definitions

* `visible?` — the variable that is seen under a name.
* `Expr.Minds` — names stand for what is seen, and no target for a constant.
* `Counterpart` — a state with other slots for its variables.
* `Grammar.named`, `declare` — the two steps of a declarator.
* `Alike` — a parser that declares nothing, run in a state and in its counterpart.

## Main results

* `sees_grammar` — the parsers of expressions of every grammar.
* `Alike.outcome` — what becomes of a state in which such a parser is run.
-/

namespace LiveMarkup.Syntax

open Slotted (renumber renumber_list renumber_properties)

/-! ### Variables that are seen -/

/-- The variable that is seen under a name. -/
def visible? (locals : List Local) (name : String) : Option Local :=
  locals.find? fun l => l.name == name

/-- An expression that is no constant, where the given variables can be seen. -/
def Expr.Unlocked (locals : List Local) (e : Expr) : Prop :=
  ∀ slot name, e = .declared slot name →
    ∃ l, visible? locals name = some l ∧ l.slot = slot ∧ l.constant = false

/-- A name stands for the variable that is seen under it, and no target is a constant. -/
def Expr.Minds (locals : List Local) : Expr → Prop
  | .declared slot name => ∃ l, visible? locals name = some l ∧ l.slot = slot
  | .assign _ target _ | .update _ _ target => target.Unlocked locals
  | _ => True

/-- A statement without others inside it that declares nothing, and whose expressions mind what can
be seen. -/
structure Stmt.Minds (locals : List Local) (x : Stmt) : Prop where
  alone : x.parts = [x]
  silent : x.slots = []
  expressions : ∀ e ∈ x.expressions, e.All (Expr.Minds locals)

/-- A fault that there may be where the given variables can be seen: a target is a constant only
under a name under which a constant is seen. -/
def SyntaxFault.Fair (locals : List Local) : SyntaxFault → Prop
  | .constantTarget name => ∃ l, visible? locals name = some l ∧ l.constant = true
  | _ => True

/-- No two variables that can be seen share a slot. -/
def ParserState.Distinct (s : ParserState) : Prop := (s.locals.map Local.slot).Nodup

theorem eq_of_slot {s : ParserState} (h : s.Distinct) {l m : Local} (hl : l ∈ s.locals)
    (hm : m ∈ s.locals) (heq : l.slot = m.slot) : l = m :=
  List.inj_on_of_nodup_map h hl hm heq

theorem minds_resolve (s : ParserState) (name : String) :
    (s.resolve name).All (Expr.Minds s.locals) := by
  unfold ParserState.resolve
  split
  · next l hfind => exact all_declared.2 ⟨l, hfind, rfl⟩
  · split
    · exact all_param.2 trivial
    · split
      · exact all_literal.2 trivial
      · split
        · exact all_global.2 trivial
        · exact all_unbound.2 trivial

/-! ### Other slots -/

/-- The second state has other slots for the variables of the first, different slots for different
ones, and the same slots for its parameters.  Where the next variable goes does not matter. -/
structure Counterpart (σ : Nat → Nat) (s s' : ParserState) : Prop where
  injective : Function.Injective σ
  fixed : ∀ i < s.params.length, σ i = i
  params : s'.params = s.params
  locals : s'.locals = s.locals.map (Local.renumber σ)

variable {σ : Nat → Nat} {s s' : ParserState}

/-- A state is its own counterpart, with the same slots. -/
theorem Counterpart.refl (s : ParserState) : Counterpart id s s where
  injective := Function.injective_id
  fixed _ _ := rfl
  params := rfl
  locals := s.locals.map_id.symm

theorem Counterpart.resolve (h : Counterpart σ s s') (name : String) :
    s'.resolve name = (s.resolve name).renumber σ := by
  have hfind : (s'.locals.find? fun l => l.name == name) =
      (s.locals.find? fun l => l.name == name).map (Local.renumber σ) := by
    rw [h.locals]
    exact List.find?_map ..
  rw [ParserState.resolve, hfind, ParserState.resolve, h.params]
  cases s.locals.find? fun l => l.name == name with
  | some l => rfl
  | none =>
    dsimp only [Option.map_none]
    split
    · next slot hslot => rw [Expr.renumber, h.fixed slot (lt_of_lastPosition? hslot)]
    · split
      · rfl
      · split <;> rfl

theorem Counterpart.isConstant (h : Counterpart σ s s') (slot : Nat) :
    s'.isConstant (σ slot) = s.isConstant slot := by
  unfold ParserState.isConstant
  rw [h.locals, List.any_map]
  refine congrArg _ (funext fun l => ?_)
  have hsame : (σ l.slot == σ slot) = (l.slot == slot) :=
    Bool.eq_iff_iff.2 (by rw [beq_iff_eq, beq_iff_eq, h.injective.eq_iff])
  simp only [Function.comp_apply, Local.renumber, hsame]

/-! ### Runs and parsers -/

variable {α β : Type} [Slotted α] [Slotted β]

/-- Runs in a state and in its counterpart: both fail with the same fault, or both give the same
result but for the slots.  Only tokens have been taken. -/
inductive EndsAlike (σ : Nat → Nat) (s s' : ParserState) (F : α → Prop) :
    Except Located (α × ParserState) → Except Located (α × ParserState) → Prop
  | error {fault : SyntaxFault} (place : List Char) (h : fault.Fair s.locals) :
    EndsAlike σ s s' F (.error (fault, place)) (.error (fault, place))
  | ok {x : α} (tokens : List Token) (h : F x) :
    EndsAlike σ s s' F (.ok (x, { s with tokens })) (.ok (renumber σ x, { s' with tokens }))

/-- Before any tokens, the parsers run alike in a state and in its counterpart. -/
def Alike (σ : Nat → Nat) (s s' : ParserState) (p q : Parser α) (F : α → Prop) : Prop :=
  ∀ tokens, EndsAlike σ s s' F (p.run { s with tokens }) (q.run { s' with tokens })

/-- A run on its own: it fails where it may, or only takes tokens. -/
theorem Alike.outcome {p q : Parser α} {F : α → Prop} (h : Alike σ s s' p q F) :
    (∃ fault place, p.run s = .error (fault, place) ∧ fault.Fair s.locals) ∨
      ∃ x tokens, p.run s = .ok (x, { s with tokens }) ∧ F x := by
  have hrun := h s.tokens
  generalize p.run { s with tokens := s.tokens } = r, q.run { s' with tokens := s.tokens } = r'
    at hrun ⊢
  cases hrun with
  | error place hfair => exact .inl ⟨_, place, rfl, hfair⟩
  | ok tokens hx => exact .inr ⟨_, tokens, rfl, hx⟩

namespace Alike

variable {p q : Parser α} {k l : α → Parser β} {F F' : α → Prop} {G : β → Prop}

theorem pure {x y : α} (hx : F x) (hxy : y = renumber σ x) :
    Alike σ s s' (Pure.pure x) (Pure.pure y) F := by
  intro tokens
  subst hxy
  exact .ok tokens hx

theorem faultAt (place : List Char) {fault : SyntaxFault}
    (h : fault.Fair s.locals := by trivial) :
    Alike σ s s' (Syntax.faultAt place fault) (Syntax.faultAt place fault) F :=
  fun _ => .error place h

theorem bind (hp : Alike σ s s' p q F)
    (hk : ∀ x, F x → Alike σ s s' (k x) (l (renumber σ x)) G) :
    Alike σ s s' (p >>= k) (q >>= l) G := by
  intro tokens
  rw [StateT.run_bind, StateT.run_bind]
  have hrun := hp tokens
  generalize p.run { s with tokens } = r, q.run { s' with tokens } = r' at hrun
  cases hrun with
  | error place h => exact .error place h
  | @ok x rest hx => exact hk x hx rest

/-- A step without slots in its result. -/
theorem step {γ : Type} {p : Parser γ} {k l : γ → Parser β}
    (hp : @Alike γ (Slotted.plain γ) σ s s' p p fun _ => True)
    (hk : ∀ x, Alike σ s s' (k x) (l x) G) : Alike σ s s' (p >>= k) (p >>= l) G :=
  @bind σ s s' γ β (Slotted.plain γ) _ p p k l _ _ hp fun x _ => hk x

/-- What would come after a fault does not matter. -/
theorem faulty {γ : Type} (place : List Char) (k l : γ → Parser β) {fault : SyntaxFault}
    (h : fault.Fair s.locals := by trivial) :
    Alike σ s s' (Syntax.faultAt place fault >>= k) (Syntax.faultAt place fault >>= l) G :=
  fun _ => .error place h

/-! #### Tokens -/

theorem peek : Alike σ s s' Syntax.peek Syntax.peek fun _ => True :=
  fun tokens => .ok tokens trivial

theorem faultHere {fault : SyntaxFault} (h : fault.Fair s.locals) :
    Alike σ s s' (Syntax.faultHere fault) (Syntax.faultHere fault) F :=
  step peek fun _ => faultAt _ h

theorem advance : Alike σ s s' Syntax.advance Syntax.advance fun _ => True := by
  intro tokens
  have hskip (t : ParserState) : ({ t with tokens } : ParserState).skip =
      { t with tokens := ({ s with tokens } : ParserState).skip.tokens } := by
    unfold ParserState.skip
    cases tokens with
    | nil => rfl
    | cons token rest =>
      obtain ⟨kind, place, newline⟩ := token
      cases kind <;> rfl
  have hrun (t : ParserState) : Syntax.advance.run { t with tokens } =
      .ok (({ s with tokens } : ParserState).next,
        { t with tokens := ({ s with tokens } : ParserState).skip.tokens }) := by
    rw [← hskip t]
    rfl
  rw [hrun, hrun]
  exact .ok _ trivial

theorem atSymbol (symbol : Symbol) :
    Alike σ s s' (Syntax.atSymbol symbol) (Syntax.atSymbol symbol) fun _ => True :=
  step peek fun _ => pure trivial rfl

theorem eat (symbol : Symbol) :
    Alike σ s s' (Syntax.eat symbol) (Syntax.eat symbol) fun _ => True := by
  refine step (atSymbol symbol) fun b => ?_
  split
  · exact step advance fun _ => pure trivial rfl
  · exact pure trivial rfl

theorem expect (symbol : Symbol) :
    Alike σ s s' (Syntax.expect symbol) (Syntax.expect symbol) fun _ => True := by
  refine step (eat symbol) fun b => ?_
  cases b with
  | true => exact pure trivial rfl
  | false => exact step peek fun _ => faultHere trivial

theorem atWord (word : String) :
    Alike σ s s' (Syntax.atWord word) (Syntax.atWord word) fun _ => True :=
  step peek fun _ => pure trivial rfl

theorem atFinish : Alike σ s s' Syntax.atFinish Syntax.atFinish fun _ => True :=
  step peek fun _ => pure trivial rfl

theorem unexpected : Alike σ s s' (Syntax.unexpected : Parser α) Syntax.unexpected F :=
  step peek fun _ => faultHere trivial

theorem terminator :
    Alike σ s s' Grammar.terminator Grammar.terminator fun _ => True := by
  refine step (eat .semicolon) fun b => ?_
  split
  · exact pure trivial rfl
  · refine step peek fun token => ?_
    split
    · exact pure trivial rfl
    · exact faultAt _

theorem propertyName : Alike σ s s' Syntax.propertyName Syntax.propertyName fun _ => True := by
  refine step advance fun token => ?_
  split
  · exact pure trivial rfl
  · exact faultAt _

theorem resolve (h : Counterpart σ s s') (name : String) :
    Alike σ s s' (Syntax.resolve name) (Syntax.resolve name) (Expr.All (Expr.Minds s.locals)) := by
  intro tokens
  have hrun : (Syntax.resolve name).run { s' with tokens } =
      .ok ((s.resolve name).renumber σ, { s' with tokens }) := by
    rw [← h.resolve]
    rfl
  rw [hrun]
  exact .ok tokens (minds_resolve s name)

/-! #### Targets -/

/-- A variable is refused as a target just if it is a constant. -/
theorem checkDeclared (h : Counterpart σ s s') (hdistinct : s.Distinct) {slot : Nat}
    {name : String} (hname : (Expr.declared slot name).Minds s.locals) (place : List Char) :
    Alike σ s s' (Syntax.checkAssignable (.declared slot name) place)
      (Syntax.checkAssignable (.declared (σ slot) name) place)
      fun _ => (Expr.declared slot name).Unlocked s.locals := by
  intro tokens
  have hrun (i : Nat) (t : ParserState) :
      (Syntax.checkAssignable (.declared i name) place).run { t with tokens } =
        if t.isConstant i then .error (.constantTarget name, place)
        else .ok ((), { t with tokens }) := by
    show (if t.isConstant i then _ else _ : Parser Unit).run _ = _
    split <;> rfl
  obtain ⟨l, hl, hslot⟩ := hname
  rw [hrun, hrun, h.isConstant]
  split
  · next hconstant =>
    -- the constant in the slot is the one that is seen under the name
    obtain ⟨m, hm, hmatch⟩ := List.any_eq_true.1 hconstant
    obtain ⟨hsame, hm'⟩ := Bool.and_eq_true_iff.1 hmatch
    have heq : m = l := eq_of_slot hdistinct hm (List.mem_of_find?_eq_some hl)
      ((beq_iff_eq.1 hsame).trans hslot.symm)
    exact .error place ⟨l, hl, heq ▸ hm'⟩
  · next hconstant =>
    refine .ok tokens ?_
    rintro _ _ ⟨⟩
    refine ⟨l, hl, hslot, Bool.eq_false_iff.2 fun hlocked => hconstant ?_⟩
    exact List.any_eq_true.2 ⟨l, List.mem_of_find?_eq_some hl,
      Bool.and_eq_true_iff.2 ⟨beq_iff_eq.2 hslot, hlocked⟩⟩

theorem checkAssignable (h : Counterpart σ s s') (hdistinct : s.Distinct) {target : Expr}
    (htarget : target.All (Expr.Minds s.locals)) (place : List Char) :
    Alike σ s s' (Syntax.checkAssignable target place)
      (Syntax.checkAssignable (target.renumber σ) place) fun _ => target.Unlocked s.locals := by
  cases target with
  | declared slot name => exact checkDeclared h hdistinct (all_declared.1 htarget) place
  | param | unbound => exact fun tokens => .ok tokens nofun
  | member object property optional | index object key optional =>
    cases optional with
    | true => exact fun _ => .error place trivial
    | false => exact fun tokens => .ok tokens nofun
  | _ => exact fun _ => .error place trivial

/-! #### Lists -/

section Lists

variable {item : Parser α}

theorem nil :
    Alike σ s s' (Pure.pure [] : Parser (List α)) (Pure.pure []) fun xs => ∀ x ∈ xs, F x :=
  pure nofun rfl

theorem cons {x : α} {p q : Parser (List α)} (hx : F x)
    (h : Alike σ s s' p q fun xs => ∀ x ∈ xs, F x) :
    Alike σ s s' (do return x :: (← p)) (do return renumber σ x :: (← q))
      fun xs => ∀ x ∈ xs, F x :=
  h.bind fun _ hxs => pure (List.forall_mem_cons.2 ⟨hx, hxs⟩) rfl

theorem commaSeparated {close : Symbol} (h : Alike σ s s' item item F) (fuel : Nat) :
    Alike σ s s' (commaSeparated close item fuel) (commaSeparated close item fuel)
      fun xs => ∀ x ∈ xs, F x := by
  induction fuel with
  | zero => exact nil
  | succ fuel ih =>
    refine step (atSymbol close) fun b => ?_
    split
    · exact nil
    · refine h.bind fun x hx => step (eat .comma) fun b => ?_
      split
      · exact cons hx ih
      · exact cons hx nil

theorem arrayItems {F : Expr → Prop} {item : Parser Expr} (h : Alike σ s s' item item F)
    (hhole : F (.literal .undefined)) (fuel : Nat) :
    Alike σ s s' (arrayItems item fuel) (arrayItems item fuel) fun xs => ∀ x ∈ xs, F x := by
  induction fuel with
  | zero => exact nil
  | succ fuel ih =>
    refine step (atSymbol .rightBracket) fun b => ?_
    split
    · exact nil
    · refine step (eat .comma) fun b => ?_
      split
      · exact cons hhole ih
      · refine h.bind fun x hx => step (eat .comma) fun b => ?_
        split
        · exact cons hx ih
        · exact cons hx nil

/-- The tokens are the same, and so is the fuel. -/
theorem fueled {p : Nat → Parser α} (h : ∀ fuel, Alike σ s s' (p fuel) (p fuel) F) :
    Alike σ s s' (Syntax.fueled p) (Syntax.fueled p) F :=
  fun tokens => h tokens.length tokens

end Lists

end Alike

/-! ### Declarators -/

/-- The name of a variable and its first value. -/
def Grammar.named (inner : Grammar) (constant : Bool) : Parser (String × Option Expr) := do
  let token ← advance
  match token.kind with
  | .name name =>
    if isReserved name then faultAt token.place (.reservedVariable name)
    return (name, ← inner.initializer constant token.place)
  | found => faultAt token.place (.expectedVariable found)

/-- Gives a variable the next slot. -/
def declare (constant : Bool) (d : String × Option Expr) : Parser (Nat × Option Expr) := do
  let slot := (← get).nextSlot
  modify fun s => { s with nextSlot := slot + 1, locals := ⟨d.1, slot, constant⟩ :: s.locals }
  return (slot, d.2)

/-- A variable is declared after its first value has been parsed. -/
theorem declarator_eq (inner : Grammar) (constant : Bool) :
    inner.declarator constant = inner.named constant >>= declare constant := by
  unfold Grammar.declarator Grammar.named
  rw [bind_assoc]
  refine bind_congr fun token => ?_
  cases token.kind with
  | name name =>
    dsimp only
    split
    · rfl
    · rw [bind_assoc]
      refine bind_congr fun init => ?_
      rw [pure_bind]
      rfl
  | _ => rfl

/-! ### Grammars -/

/-- A parser of expressions runs alike in a state and in its counterpart, and its result minds what
can be seen. -/
abbrev Sees (σ : Nat → Nat) (s s' : ParserState) (p : Parser Expr) : Prop :=
  Alike σ s s' p p (Expr.All (Expr.Minds s.locals))

/-- The parsers of expressions of a grammar run alike. -/
structure Grammar.Sees (σ : Nat → Nat) (s s' : ParserState) (g : Grammar) : Prop where
  assignment : Syntax.Sees σ s s' g.assignment
  unary : Syntax.Sees σ s s' g.unary
  power : Syntax.Sees σ s s' g.power
  operand (tier : Nat) : Syntax.Sees σ s s' (g.operand tier)
  chain (tier : Nat) {left : Expr} (hleft : left.All (Expr.Minds s.locals)) :
    Alike σ s s' (g.chain tier left) (g.chain tier (left.renumber σ))
      (Expr.All (Expr.Minds s.locals))
  link (optional : Bool) {e : Expr} (he : e.All (Expr.Minds s.locals)) :
    Alike σ s s' (g.link optional e) (g.link optional (e.renumber σ))
      (Expr.All (Expr.Minds s.locals))

theorem sees_exhausted : Grammar.exhausted.Sees σ s s' where
  assignment := .faultHere trivial
  unary := .faultHere trivial
  power := .faultHere trivial
  operand _ := .faultHere trivial
  chain _ _ _ := .faultHere trivial
  link _ _ _ := .faultHere trivial

namespace Grammar.Sees

variable {g : Grammar} (h : Counterpart σ s s') (hdistinct : s.Distinct) (hg : g.Sees σ s s')

/-! #### Primary expressions -/

include h in
theorem word (place : List Char) (name : String) :
    Syntax.Sees σ s s' (Grammar.word place name) := by
  unfold Grammar.word
  split
  · exact .pure (all_literal.2 trivial) rfl
  · exact .pure (all_literal.2 trivial) rfl
  · exact .pure (all_literal.2 trivial) rfl
  · split
    · exact .faultAt _
    · exact .resolve h name

include hg

theorem propertyValue : Syntax.Sees σ s s' g.propertyValue :=
  .step (.expect .colon) fun _ => hg.assignment

include h in
theorem property : Alike σ s s' g.property g.property fun p => p.2.All (Expr.Minds s.locals) := by
  have hvalue (key : String) : Alike σ s s' (do return (key, ← g.propertyValue))
      (do return (key, ← g.propertyValue)) fun p => p.2.All (Expr.Minds s.locals) :=
    hg.propertyValue.bind fun e he => .pure he rfl
  refine .step .advance fun token => ?_
  split
  · refine .step (.atSymbol .colon) fun b => ?_
    split
    · exact hvalue _
    · dsimp only
      split
      · exact .faulty _ _ _
      · exact Alike.bind (.resolve h _) fun e he => .pure he rfl
  · exact hvalue _
  · exact hvalue _
  · exact .faultAt _

include h in
theorem primary : Syntax.Sees σ s s' g.primary := by
  refine .step .advance fun token => ?_
  split
  · exact .pure (all_literal.2 trivial) rfl
  · exact .pure (all_literal.2 trivial) rfl
  · exact word h _ _
  · exact hg.assignment.bind fun e he => .step (.expect .rightParen) fun _ => .pure he rfl
  · refine Alike.bind (.fueled (.arrayItems hg.assignment (all_literal.2 trivial)))
      fun items hitems => .step (.expect .rightBracket) fun _ =>
        .pure (all_array.2 ⟨trivial, hitems⟩) ?_
    rw [renumber_list]
    rfl
  · refine Alike.bind (.fueled (.commaSeparated (hg.property h))) fun properties hproperties =>
      .step (.expect .rightBrace) fun _ => .pure (all_object.2 ⟨trivial, hproperties⟩) ?_
    rw [renumber_properties]
    rfl
  · exact .faultAt _

/-! #### Chains of members and calls -/

theorem arguments : Alike σ s s' g.arguments g.arguments
    fun args => ∀ e ∈ args, e.All (Expr.Minds s.locals) :=
  .step (.expect .leftParen) fun _ =>
    Alike.bind (.fueled (.commaSeparated hg.assignment)) fun _ hargs =>
      .step (.expect .rightParen) fun _ => .pure hargs rfl

theorem bracketed : Syntax.Sees σ s s' g.bracketed :=
  hg.assignment.bind fun _ hkey => .step (.expect .rightBracket) fun _ => .pure hkey rfl

section Links

variable {e : Expr} (he : e.All (Expr.Minds s.locals))

include he

theorem optionalLink : Alike σ s s' (g.optionalLink e) (g.optionalLink (e.renumber σ))
    (Expr.All (Expr.Minds s.locals)) := by
  refine .step .peek fun token => ?_
  split
  · refine hg.arguments.bind fun args hargs => .pure (all_call.2 ⟨trivial, he, hargs⟩) ?_
    rw [renumber_list]
    rfl
  · exact .step .advance fun _ => hg.bracketed.bind fun key hkey =>
      .pure (all_index.2 ⟨trivial, he, hkey⟩) rfl
  · exact .step .propertyName fun _ => .pure (all_member.2 ⟨trivial, he⟩) rfl

theorem links (optional : Bool) : Alike σ s s' (g.links optional e)
    (g.links optional (e.renumber σ)) (Expr.All (Expr.Minds s.locals)) := by
  refine .step .peek fun token => ?_
  split
  · exact hg.link optional he
  · cases optional with
    | true => exact .pure (all_optionalChain.2 ⟨trivial, he⟩) rfl
    | false => exact .pure he rfl

theorem linkHere (optional : Bool) : Alike σ s s' (g.linkHere optional e)
    (g.linkHere optional (e.renumber σ)) (Expr.All (Expr.Minds s.locals)) := by
  refine .step .peek fun token => ?_
  split
  · exact .step .advance fun _ => .step .propertyName fun _ =>
      hg.links (all_member.2 ⟨trivial, he⟩) optional
  · exact .step .advance fun _ => (hg.optionalLink he).bind fun _ hlink => hg.links hlink true
  · exact .step .advance fun _ => hg.bracketed.bind fun key hkey =>
      hg.links (all_index.2 ⟨trivial, he, hkey⟩) optional
  · refine hg.arguments.bind fun args hargs => ?_
    rw [renumber_list]
    exact hg.links (all_call.2 ⟨trivial, he, hargs⟩) optional

end Links

/-! #### Operators -/

include h hdistinct

theorem postfixed : Syntax.Sees σ s s' g.postfixed := by
  refine Alike.bind ((hg.primary h).bind fun e he => hg.links he false) fun e he =>
    .step .peek fun token => ?_
  split
  · exact .pure he rfl
  · split
    · exact .pure he rfl
    · exact Alike.bind (.checkAssignable h hdistinct he token.place) fun _ hfree =>
        .step .advance fun _ => .pure (all_update.2 ⟨hfree, he⟩) rfl

theorem unaryHere : Syntax.Sees σ s s' g.unaryHere := by
  refine .step .peek fun token => ?_
  split
  · exact .step .advance fun _ => hg.unary.bind fun target htarget =>
      Alike.bind (.checkAssignable h hdistinct htarget token.place) fun _ hfree =>
        .pure (all_update.2 ⟨hfree, htarget⟩) rfl
  · split
    · exact .step .advance fun _ => hg.unary.bind fun operand hoperand =>
        .pure (all_unary.2 ⟨trivial, hoperand⟩) rfl
    · exact hg.postfixed h hdistinct

omit h hdistinct in
theorem exponent : Syntax.Sees σ s s' g.exponent := by
  refine hg.unary.bind fun base hbase => .step (.atSymbol .starStar) fun b => ?_
  split
  · have hpower : Alike σ s s' (do
        let _ ← advance
        return Expr.binary .pow base (← g.power)) (do
        let _ ← advance
        return Expr.binary .pow (base.renumber σ) (← g.power)) (Expr.All (Expr.Minds s.locals)) :=
      .step .advance fun _ => hg.power.bind fun _ hright =>
        .pure (all_binary.2 ⟨trivial, hbase, hright⟩) rfl
    simp only [Slotted.renumber, isUnary_renumber]
    split
    · exact .step (.faultHere trivial) fun _ => hpower
    · exact hpower
  · exact .pure hbase rfl

omit h hdistinct in
theorem chainHere (tier : Nat) {left : Expr} (hleft : left.All (Expr.Minds s.locals)) :
    Alike σ s s' (g.chainHere tier left) (g.chainHere tier (left.renumber σ))
      (Expr.All (Expr.Minds s.locals)) := by
  refine .step .peek fun token => ?_
  split
  · exact .pure hleft rfl
  · next joint _ =>
    refine .step .advance fun _ => (hg.operand tier).bind fun right hright => ?_
    cases joint with
    | binary op => exact hg.chain tier (all_binary.2 ⟨trivial, hleft, hright⟩)
    | logical op => exact hg.chain tier (all_logical.2 ⟨trivial, hleft, hright⟩)

omit h hdistinct in
theorem tiers (tier : Nat) : Syntax.Sees σ s s' (g.tiers tier) := by
  induction tier with
  | zero => exact hg.exponent
  | succ tier ih => exact ih.bind fun _ hleft => hg.chainHere tier hleft

omit h hdistinct in
theorem conditional : Syntax.Sees σ s s' g.conditional := by
  refine (hg.tiers tierCount).bind fun test htest => .step (.eat .question) fun b => ?_
  split
  · exact hg.assignment.bind fun _ hconsequent => .step (.expect .colon) fun _ =>
      hg.assignment.bind fun _ halternate =>
        .pure (all_conditional.2 ⟨trivial, htest, hconsequent, halternate⟩) rfl
  · exact .pure htest rfl

theorem assignmentHere : Syntax.Sees σ s s' g.assignmentHere := by
  refine hg.conditional.bind fun target htarget => .step .peek fun token => ?_
  split
  · exact .pure htarget rfl
  · exact Alike.bind (.checkAssignable h hdistinct htarget token.place) fun _ hfree =>
      .step .advance fun _ => hg.assignment.bind fun _ hvalue =>
        .pure (all_assign.2 ⟨hfree, htarget, hvalue⟩) rfl

theorem deeper : g.deeper.Sees σ s s' where
  assignment := hg.assignmentHere h hdistinct
  unary := hg.unaryHere h hdistinct
  power := hg.exponent
  operand := hg.tiers
  chain tier _ hleft := hg.chainHere tier hleft
  link optional _ he := hg.linkHere he optional

/-! #### Statements without declarations -/

omit h hdistinct

theorem returnStatement :
    Alike σ s s' g.returnStatement g.returnStatement (Stmt.Minds s.locals) := by
  refine .step .advance fun _ => .step .peek fun token => ?_
  split
  · exact .step .terminator fun _ => .pure ⟨rfl, rfl, nofun⟩ rfl
  · exact hg.assignment.bind fun value hvalue =>
      .step .terminator fun _ => .pure ⟨rfl, rfl, List.forall_mem_singleton.2 hvalue⟩ rfl

theorem expressionStatement :
    Alike σ s s' g.expressionStatement g.expressionStatement (Stmt.Minds s.locals) :=
  hg.assignment.bind fun _ he =>
    .step .terminator fun _ => .pure ⟨rfl, rfl, List.forall_mem_singleton.2 he⟩ rfl

theorem initializer (constant : Bool) (place : List Char) :
    Alike σ s s' (g.initializer constant place) (g.initializer constant place)
      fun init => ∀ e ∈ init, e.All (Expr.Minds s.locals) := by
  refine .step (.eat .assign) fun b => ?_
  split
  · refine hg.assignment.bind fun e he => .pure ?_ rfl
    rintro _ ⟨⟩
    exact he
  · dsimp only
    split
    · exact .faulty _ _ _
    · exact .pure nofun rfl

theorem named (constant : Bool) : Alike σ s s' (g.named constant) (g.named constant)
    fun d => ∀ e ∈ d.2, e.All (Expr.Minds s.locals) := by
  refine .step .advance fun token => ?_
  split
  · dsimp only
    split
    · exact .faulty _ _ _
    · exact (hg.initializer constant _).bind fun init hinit => .pure hinit rfl
  · exact .faultAt _

end Grammar.Sees

/-- The parsers of expressions of every grammar run alike. -/
theorem sees_grammar (h : Counterpart σ s s') (hdistinct : s.Distinct) (levels : Nat) :
    (grammar levels).Sees σ s s' := by
  induction levels with
  | zero => exact sees_exhausted
  | succ levels ih => exact ih.deeper h hdistinct

end LiveMarkup.Syntax
