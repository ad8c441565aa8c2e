import LiveMarkup.Eval.Evaluator
import LiveMarkup.Proofs.Scoping
import Mathlib

/-!
# What a statement leaves to be seen

Variables that are declared in a block are not seen after it, and expressions declare none.  So the
names after a statement stand for what they would stand for without it, unless the statement is a
declaration; the variables that are declared after it only have later slots.  A declaration that is
a branch of a choice is seen after the choice, though, as if the choice were a block without
braces.

A parser is run from two states that can see the same, once with later slots for what it declares.

## Main definitions

* `Stmt.exposed` — the slots of the variables that a statement leaves to be seen.
* `ParserState.Orderly` — a state such as parsers leave behind.
* `shift` — later slots, from a given slot on.
* `Displaced` — a state, and one that can see the same with later slots.
* `Displaces` — a parser in two such states.
* `restOf` — what comes after a statement in its list.

## Main results

* `displaces_statement` — the parsers of statements of every grammar.
* `names_mean_the_same_after` — what a statement leaves behind, and what comes after it.
* `branch_redirects_later_names` — a declaration as a branch.
-/

namespace LiveMarkup.Syntax

open Slotted (renumber renumber_statements)

/-! ### Variables that are left to be seen -/

mutual

/-- The slots of the variables of a statement that are seen after it. -/
def Stmt.exposed : Stmt → List Nat
  | .empty | .expression _ | .block _ | .returns _ => []
  | .declare declarators => declarators.map Prod.fst
  | .conditional _ consequent alternate => consequent.exposed ++ exposedOption alternate

/-- The slots of the variables of a statement that may be missing. -/
def exposedOption : Option Stmt → List Nat
  | none => []
  | some s => s.exposed

end

/-- The variables with these slots have been declared, and nothing else has become visible or
invisible. -/
def ParserState.Grows (s : ParserState) (slots : List Nat) (t : ParserState) : Prop :=
  ∃ added, t.locals = added ++ s.locals ∧ added.map Local.slot = slots.reverse

theorem ParserState.Grows.refl (s : ParserState) : s.Grows [] s := ⟨[], rfl, rfl⟩

theorem ParserState.Grows.trans {s t u : ParserState} {slots slots' : List Nat}
    (h : s.Grows slots t) (h' : t.Grows slots' u) : s.Grows (slots ++ slots') u := by
  obtain ⟨added, hadded, hslots⟩ := h
  obtain ⟨added', hadded', hslots'⟩ := h'
  refine ⟨added' ++ added, ?_, ?_⟩
  · rw [hadded', hadded, List.append_assoc]
  · rw [List.map_append, hslots, hslots', List.reverse_append]

theorem Stmt.parts_ne_nil (s : Stmt) : s.parts ≠ [] := by
  cases s <;> simp [Stmt.parts]

theorem exposed_of_minds {locals : List Local} {s : Stmt} (h : s.Minds locals) :
    s.exposed = [] := by
  cases s with
  | declare declarators => exact h.silent
  | conditional test consequent alternate =>
    -- a choice has a statement inside it
    have hparts := (List.cons.inj h.alone).2
    exact absurd (List.append_eq_nil_iff.1 hparts).1 consequent.parts_ne_nil
  | _ => rfl

/-! ### Later slots -/

/-- The slots of the parameters come first, and no two variables that can be seen share a slot or
have the next one. -/
structure ParserState.Orderly (s : ParserState) : Prop where
  params_le : s.params.length ≤ s.nextSlot
  distinct : s.Distinct
  slot_lt : ∀ l ∈ s.locals, l.slot < s.nextSlot

/-- Slots from `n` on are `d` later. -/
def shift (n d i : Nat) : Nat := if i < n then i else i + d

variable {n d : Nat}

theorem shift_of_lt {i : Nat} (h : i < n) : shift n d i = i := if_pos h

theorem shift_of_le {i : Nat} (h : n ≤ i) : shift n d i = i + d := if_neg (Nat.not_lt_of_le h)

theorem shift_injective (n d : Nat) : Function.Injective (shift n d) := by
  intro i j h
  unfold shift at h
  split at h <;> split at h <;> omega

/-- The second state can see the same as the first, and has the same tokens to come, with slots that
are `d` later from slot `n` on. -/
structure Displaced (n d : Nat) (s s' : ParserState) : Prop where
  params : s'.params = s.params
  params_le : s.params.length ≤ n
  tokens : s'.tokens = s.tokens
  locals : s'.locals = s.locals.map (Local.renumber (shift n d))
  next : s'.nextSlot = s.nextSlot + d
  le_next : n ≤ s.nextSlot
  orderly : s.Orderly

namespace Displaced

variable {s s' : ParserState}

theorem counterpart (h : Displaced n d s s') : Counterpart (shift n d) s s' where
  injective := shift_injective n d
  fixed _ hi := shift_of_lt (Nat.lt_of_lt_of_le hi h.params_le)
  params := h.params
  locals := h.locals

/-- There is one such state only. -/
theorem unique {t' : ParserState} (h : Displaced n d s s') (h' : Displaced n d s t') :
    s' = t' := by
  obtain ⟨params, tokens, locals, next⟩ := s'
  obtain ⟨params', tokens', locals', next'⟩ := t'
  cases h.params.trans h'.params.symm
  cases h.tokens.trans h'.tokens.symm
  cases h.locals.trans h'.locals.symm
  cases h.next.trans h'.next.symm
  rfl

/-- Other tokens may come. -/
theorem before (h : Displaced n d s s') (tokens : List Token) :
    Displaced n d { s with tokens } { s' with tokens } where
  params := h.params
  params_le := h.params_le
  tokens := rfl
  locals := h.locals
  next := h.next
  le_next := h.le_next
  orderly := ⟨h.orderly.params_le, h.orderly.distinct, h.orderly.slot_lt⟩

/-- What could be seen before a block can be seen after it. -/
theorem restore {t t' : ParserState} (h : Displaced n d s s') (h' : Displaced n d t t')
    (hnext : s.nextSlot ≤ t.nextSlot) :
    Displaced n d { t with locals := s.locals } { t' with locals := s'.locals } where
  params := h'.params
  params_le := h'.params_le
  tokens := h'.tokens
  locals := h.locals
  next := h'.next
  le_next := h'.le_next
  orderly := ⟨h'.orderly.params_le, h.orderly.distinct,
    fun l hl => Nat.lt_of_lt_of_le (h.orderly.slot_lt l hl) hnext⟩

/-- A variable gets the next slot. -/
theorem declare (h : Displaced n d s s') (name : String) (constant : Bool) :
    Displaced n d
      { s with nextSlot := s.nextSlot + 1, locals := ⟨name, s.nextSlot, constant⟩ :: s.locals }
      { s' with
        nextSlot := s'.nextSlot + 1, locals := ⟨name, s'.nextSlot, constant⟩ :: s'.locals } where
  params := h.params
  params_le := h.params_le
  tokens := h.tokens
  locals := by
    rw [h.locals, h.next, List.map_cons, Local.renumber, shift_of_le h.le_next]
  next := by rw [h.next, Nat.add_right_comm]
  le_next := Nat.le_succ_of_le h.le_next
  orderly := by
    refine ⟨Nat.le_succ_of_le h.orderly.params_le, List.nodup_cons.2 ⟨?_, h.orderly.distinct⟩, ?_⟩
    · intro hmem
      obtain ⟨l, hl, hslot⟩ := List.mem_map.1 hmem
      exact absurd hslot (Nat.ne_of_lt (h.orderly.slot_lt l hl))
    · refine List.forall_mem_cons.2 ⟨Nat.lt_succ_self _, fun l hl => ?_⟩
      exact Nat.lt_succ_of_lt (h.orderly.slot_lt l hl)

end Displaced

/-- A state is displaced from itself by nothing. -/
theorem ParserState.Orderly.displaced {s : ParserState} (h : s.Orderly) :
    Displaced s.nextSlot 0 s s where
  params := rfl
  params_le := h.params_le
  tokens := rfl
  locals := by
    have hsame : Local.renumber (shift s.nextSlot 0) = id := by
      funext l
      have hslot : shift s.nextSlot 0 l.slot = l.slot := by
        unfold shift
        split <;> rfl
      rw [Local.renumber, hslot]
      rfl
    rw [hsame, List.map_id]
  next := rfl
  le_next := Nat.le_refl _
  orderly := h

/-! ### Runs and parsers -/

variable {α β : Type} [Slotted α] [Slotted β]

/-- A parser may leave the second state behind in place of the first: the parameters are the same,
and no slot has been given back. -/
structure ParserState.Precedes (s t : ParserState) : Prop where
  params : t.params = s.params
  next : s.nextSlot ≤ t.nextSlot

theorem ParserState.Precedes.refl (s : ParserState) : s.Precedes s := ⟨rfl, Nat.le_refl _⟩

theorem ParserState.Precedes.trans {s t u : ParserState} (h : s.Precedes t) (h' : t.Precedes u) :
    s.Precedes u :=
  ⟨h'.params.trans h.params, Nat.le_trans h.next h'.next⟩

/-- Runs from two states: both fail with the same fault at the same place, or both give the same but
for the slots. -/
inductive EndsDisplaced (n d : Nat) (s : ParserState) (F : α → ParserState → Prop) :
    Except Located (α × ParserState) → Except Located (α × ParserState) → Prop
  | error (e : Located) : EndsDisplaced n d s F (.error e) (.error e)
  | ok {x : α} {t t' : ParserState} (ht : Displaced n d t t') (hnext : s.Precedes t)
    (hF : F x t) : EndsDisplaced n d s F (.ok (x, t)) (.ok (renumber (shift n d) x, t'))

/-- What becomes of the first state. -/
theorem EndsDisplaced.outcome {s t : ParserState} {F : α → ParserState → Prop} {x : α}
    {b : Except Located (α × ParserState)} (h : EndsDisplaced n d s F (.ok (x, t)) b) :
    t.Orderly ∧ s.Precedes t ∧ F x t := by
  cases h with
  | ok ht hnext hF => exact ⟨ht.orderly, hnext, hF⟩

/-- The parsers run alike from two states. -/
def Displaces (n d : Nat) (s s' : ParserState) (p q : Parser α) (F : α → ParserState → Prop) :
    Prop :=
  EndsDisplaced n d s F (p.run s) (q.run s')

namespace Displaces

variable {s s' : ParserState} {p q : Parser α} {k l : α → Parser β} {F : α → ParserState → Prop}
  {G : β → ParserState → Prop}

theorem pure (h : Displaced n d s s') {x y : α} (hx : F x s) (hxy : y = renumber (shift n d) x) :
    Displaces n d s s' (Pure.pure x) (Pure.pure y) F := by
  subst hxy
  exact .ok h (.refl s) hx

theorem bind (hp : Displaces n d s s' p q F)
    (hk : ∀ x t t', Displaced n d t t' → s.Precedes t → F x t →
      Displaces n d t t' (k x) (l (renumber (shift n d) x)) G) :
    Displaces n d s s' (p >>= k) (q >>= l) G := by
  unfold Displaces at hp ⊢
  rw [StateT.run_bind, StateT.run_bind]
  generalize p.run s = a, q.run s' = b at hp
  cases hp with
  | error e => exact .error e
  | @ok x t t' ht hnext hF =>
    have hrest := hk x t t' ht hnext hF
    unfold Displaces at hrest
    show EndsDisplaced n d s G ((k x).run t) ((l (renumber (shift n d) x)).run t')
    generalize (k x).run t = a, (l (renumber (shift n d) x)).run t' = b at hrest
    cases hrest with
    | error e => exact .error e
    | ok ht' hnext' hG => exact .ok ht' (hnext.trans hnext') hG

/-- A parser that declares nothing only takes tokens. -/
theorem quiet (h : Displaced n d s s') {F : α → Prop} (hp : Alike (shift n d) s s' p q F) :
    Displaces n d s s' p q fun x t => F x ∧ ∃ tokens, t = { s with tokens } := by
  have hself : { s' with tokens := s.tokens } = s' := by rw [← h.tokens]
  have hrun := hp s.tokens
  rw [hself] at hrun
  change EndsAlike (shift n d) s s' F (p.run s) (q.run s') at hrun
  unfold Displaces
  generalize p.run s = a, q.run s' = b at hrun
  cases hrun with
  | error place hfair => exact .error _
  | ok tokens hx =>
    have ht' : Displaced n d { s with tokens } { s' with tokens } := h.before tokens
    exact .ok ht' ⟨rfl, Nat.le_refl _⟩ ⟨hx, tokens, rfl⟩

/-- What is parsed after a parser that declares nothing starts before other tokens. -/
theorem quietly {γ : Type} [Slotted γ] {p q : Parser γ} {k l : γ → Parser β} {F : γ → Prop}
    (h : Displaced n d s s') (hp : Alike (shift n d) s s' p q F)
    (hk : ∀ x tokens, F x → Displaced n d { s with tokens } { s' with tokens } →
      Displaces n d { s with tokens } { s' with tokens } (k x) (l (renumber (shift n d) x)) G) :
    Displaces n d s s' (p >>= k) (q >>= l) G := by
  refine (quiet h hp).bind ?_
  rintro x t t' ht - ⟨hx, tokens, rfl⟩
  cases ht.unique (h.before tokens)
  exact hk x tokens hx ht

/-- A step that declares nothing, without slots in its result. -/
theorem step {γ : Type} {p : Parser γ} {k l : γ → Parser β} (h : Displaced n d s s')
    (hp : @Alike γ (Slotted.plain γ) (shift n d) s s' p p fun _ => True)
    (hk : ∀ x tokens, Displaced n d { s with tokens } { s' with tokens } →
      Displaces n d { s with tokens } { s' with tokens } (k x) (l x) G) :
    Displaces n d s s' (p >>= k) (p >>= l) G :=
  @quietly n d β _ s s' G γ (Slotted.plain γ) p p k l _ h hp fun x tokens _ => hk x tokens

theorem fueled (h : Displaced n d s s') {p q : Nat → Parser α}
    (hp : ∀ fuel, Displaces n d s s' (p fuel) (q fuel) F) :
    Displaces n d s s' (Syntax.fueled p) (Syntax.fueled q) F := by
  have hrun : (Syntax.fueled q).run s' = (q s.tokens.length).run s' := by
    rw [← h.tokens]
    rfl
  unfold Displaces
  rw [hrun]
  exact hp s.tokens.length

theorem post {F' : α → ParserState → Prop} (h : Displaces n d s s' p q F)
    (hF : ∀ x t, F x t → F' x t) : Displaces n d s s' p q F' := by
  unfold Displaces at h ⊢
  generalize p.run s = a, q.run s' = b at h
  cases h with
  | error e => exact .error e
  | ok ht hnext hx => exact .ok ht hnext (hF _ _ hx)

end Displaces

/-! ### Statements -/

/-- A parser of statements runs alike from two states, and leaves to be seen what its statement
exposes. -/
def DisplacesStatement (n d : Nat) (p : Parser Stmt) : Prop :=
  ∀ s s', Displaced n d s s' → Displaces n d s s' p p fun x t => s.Grows x.exposed t

namespace Displaces

variable {s s' : ParserState} {item : Parser Stmt}

/-- What comes after a statement in its list. -/
theorem itemsUntil {stop : Parser Bool}
    (hstop : ∀ {s s' : ParserState}, Alike (shift n d) s s' stop stop fun _ => True)
    (hitem : DisplacesStatement n d item) (fuel : Nat) (h : Displaced n d s s') :
    Displaces n d s s' (Syntax.itemsUntil stop item fuel) (Syntax.itemsUntil stop item fuel)
      fun _ _ => True := by
  induction fuel generalizing s s' with
  | zero => exact pure h trivial rfl
  | succ fuel ih =>
    refine step h hstop fun b tokens h => ?_
    split
    · exact pure h trivial rfl
    · refine (hitem _ _ h).bind fun x t t' ht _ _ => ?_
      exact (ih ht).bind fun xs u u' hu _ _ => pure hu trivial rfl

/-! #### Declarations -/

theorem declare (h : Displaced n d s s') (constant : Bool) (v : String × Option Expr) :
    Displaces n d s s' (Syntax.declare constant v)
      (Syntax.declare constant (renumber (shift n d) v)) fun x t => s.Grows [x.1] t := by
  have hslot : renumber (shift n d) (s.nextSlot, v.2) =
      (s'.nextSlot, (renumber (shift n d) v).2) := by
    rw [h.next, ← shift_of_le h.le_next]
    rfl
  have hgrows : s.Grows [s.nextSlot]
      { s with nextSlot := s.nextSlot + 1, locals := ⟨v.1, s.nextSlot, constant⟩ :: s.locals } :=
    ⟨[⟨v.1, s.nextSlot, constant⟩], rfl, rfl⟩
  have hok := EndsDisplaced.ok (F := fun (x : Nat × Option Expr) t => s.Grows [x.1] t)
    (s := s) (x := (s.nextSlot, v.2)) (h.declare v.1 constant) ⟨rfl, Nat.le_succ _⟩ hgrows
  rw [hslot] at hok
  exact hok

theorem declarator {levels : Nat} (constant : Bool) (h : Displaced n d s s') :
    Displaces n d s s' ((grammar levels).declarator constant)
      ((grammar levels).declarator constant) fun x t => s.Grows [x.1] t := by
  have hsees := sees_grammar h.counterpart h.orderly.distinct levels
  rw [declarator_eq]
  exact quietly h (hsees.named constant) fun v tokens _ h => declare h constant v

theorem separatedByComma {item : Parser (Nat × Option Expr)}
    (hitem : ∀ s s', Displaced n d s s' →
      Displaces n d s s' item item fun x t => s.Grows [x.1] t)
    (fuel : Nat) (h : Displaced n d s s') :
    Displaces n d s s' (Syntax.separatedByComma item fuel) (Syntax.separatedByComma item fuel)
      fun xs t => s.Grows (xs.map Prod.fst) t := by
  induction fuel generalizing s s' with
  | zero => exact pure h (.refl s) rfl
  | succ fuel ih =>
    refine (hitem s s' h).bind fun x t t' ht _ hx => step ht (.eat .comma) fun b tokens ht => ?_
    split
    · exact (ih ht).bind fun xs u u' hu _ hxs => pure hu (hx.trans hxs) rfl
    · exact pure ht hx rfl

theorem declaration {levels : Nat} (h : Displaced n d s s') :
    Displaces n d s s' (grammar levels).declaration (grammar levels).declaration
      fun x t => s.Grows x.exposed t := by
  refine step h (.atWord "const") fun constant _ h => step h .advance fun _ _ h => ?_
  refine bind (fueled h fun fuel => separatedByComma (fun _ _ => declarator constant) fuel h) ?_
  exact fun ds t t' ht _ hds => step ht .terminator fun _ _ ht => pure ht hds rfl

/-! #### Statements with statements inside them -/

theorem seeing {k l : ParserState → Parser Stmt} {G : Stmt → ParserState → Prop}
    (h : Displaces n d s s' (k s) (l s') G) : Displaces n d s s' (get >>= k) (get >>= l) G :=
  h

/-- A statement in braces comes before the end of the text. -/
theorem unfinished {g : Grammar} (hinner : DisplacesStatement n d g.statement) :
    DisplacesStatement n d (do
      if ← Syntax.atFinish then Syntax.unexpected
      g.statement) := by
  intro s s' h
  refine step h .atFinish fun b tokens h => ?_
  dsimp only
  split
  · exact step h .unexpected fun _ _ h => hinner _ _ h
  · exact hinner _ _ h

theorem block {g : Grammar} (hinner : DisplacesStatement n d g.statement) :
    DisplacesStatement n d g.block := by
  intro s s' h
  refine step h (.expect .leftBrace) fun _ _ h => seeing ?_
  refine bind (fueled h fun fuel =>
    itemsUntil (.atSymbol .rightBrace) (unfinished hinner) fuel h) ?_
  intro statements t t' ht hnext _
  refine step ht (.expect .rightBrace) fun _ _ ht => ?_
  -- the variables in the block are not seen any more
  have hgrows : s.Grows (Stmt.block statements).exposed { t with locals := s.locals } :=
    ⟨[], rfl, rfl⟩
  rw [renumber_statements]
  exact EndsDisplaced.ok (h.restore ht hnext.next) ⟨rfl, Nat.le_refl _⟩ hgrows

theorem ifStatement {levels : Nat} (hinner : DisplacesStatement n d (grammar levels).statement) :
    DisplacesStatement n d (grammar levels).ifStatement := by
  intro s s' h
  refine step h .advance fun _ _ h => step h (.expect .leftParen) fun _ _ h => ?_
  have hsees := sees_grammar h.counterpart h.orderly.distinct levels
  refine quietly h hsees.assignment fun test _ _ h => step h (.expect .rightParen) fun _ _ h => ?_
  refine (hinner _ _ h).bind fun consequent t t' ht _ hconsequent => ?_
  refine step ht (.atWord "else") fun b _ ht => ?_
  split
  · refine step ht .advance fun _ _ ht => ?_
    refine (hinner _ _ ht).bind fun alternate u u' hu _ halternate => pure hu ?_ rfl
    exact hconsequent.trans halternate
  · exact pure ht (hconsequent.trans (.refl _)) rfl

/-- A statement that leaves nothing to be seen. -/
theorem simple {p : Parser Stmt} (h : Displaced n d s s')
    (hp : Alike (shift n d) s s' p p (Stmt.Minds s.locals)) :
    Displaces n d s s' p p fun x t => s.Grows x.exposed t := by
  refine (quiet h hp).post ?_
  rintro x _ ⟨hx, tokens, rfl⟩
  rw [exposed_of_minds hx]
  exact .refl s

theorem statementHere {levels : Nat}
    (hinner : DisplacesStatement n d (grammar levels).statement) :
    DisplacesStatement n d (grammar levels).statementHere := by
  intro s s' h
  refine step h (.eat .semicolon) fun b _ h => ?_
  split
  · exact pure h (.refl s) rfl
  · refine step h .peek fun token _ h => ?_
    have hsees := sees_grammar h.counterpart h.orderly.distinct levels
    split
    · exact block hinner _ _ h
    · exact ifStatement hinner _ _ h
    · exact simple h hsees.returnStatement
    · exact declaration h
    · exact declaration h
    · exact declaration h
    · exact simple h hsees.expressionStatement

end Displaces

/-- The parsers of statements of every grammar run alike. -/
theorem displaces_statement (n d levels : Nat) :
    DisplacesStatement n d (grammar levels).statement := by
  induction levels with
  | zero => exact fun s s' h => .simple h (.faultHere trivial)
  | succ levels ih => exact Displaces.statementHere ih

/-! ### Names after statements -/

/-- What comes after a statement in its list, which is a list in braces or the whole text. -/
def restOf (levels : Nat) (braces : Bool) (fuel : Nat) : Parser (List Stmt) :=
  if braces then
    itemsUntil (atSymbol .rightBrace) (do
      if ← atFinish then unexpected
      (grammar levels).statement) fuel
  else itemsUntil atFinish (grammar levels).statement fuel

theorem displaces_restOf {levels : Nat} (braces : Bool) (fuel : Nat) {s s' : ParserState}
    (h : Displaced n d s s') :
    Displaces n d s s' (restOf levels braces fuel) (restOf levels braces fuel) fun _ _ => True := by
  have hstatement := displaces_statement n d levels
  cases braces with
  | true => exact .itemsUntil (.atSymbol .rightBrace) (.unfinished hstatement) fuel h
  | false => exact .itemsUntil .atFinish hstatement fuel h

/-- Where nothing else can be seen than before, only the next slot is a later one. -/
theorem displaced_of_locals {s t : ParserState} (hs : s.Orderly) (hst : s.Precedes t)
    (hlocals : t.locals = s.locals) :
    Displaced s.nextSlot (t.nextSlot - s.nextSlot) { s with tokens := t.tokens } t where
  params := hst.params
  params_le := hs.params_le
  tokens := rfl
  locals := by
    have hsame : ∀ l ∈ s.locals,
        Local.renumber (shift s.nextSlot (t.nextSlot - s.nextSlot)) l = l := fun l hl => by
      rw [Local.renumber, shift_of_lt (hs.slot_lt l hl)]
    rw [hlocals, List.map_congr_left hsame, List.map_id']
  next := (Nat.add_sub_of_le hst.next).symm
  le_next := Nat.le_refl _
  orderly := ⟨hs.params_le, hs.distinct, hs.slot_lt⟩

/-- What a statement leaves behind.  Its variables are seen after it just if they are exposed.  If
none is, then every name stands for what it stands for before the statement, and what comes after it
is parsed as it is without the statement, but for later slots. -/
theorem after_statement {levels : Nat} {s t : ParserState} {x : Stmt} (hs : s.Orderly)
    (h : (grammar levels).statement.run s = .ok (x, t)) :
    t.Orderly ∧ t.params = s.params ∧ s.Grows x.exposed t ∧
      (x.exposed = [] → (∀ name, t.resolve name = s.resolve name) ∧
        ∀ braces fuel, EndsDisplaced s.nextSlot (t.nextSlot - s.nextSlot)
          { s with tokens := t.tokens } (fun _ _ => True)
          ((restOf levels braces fuel).run { s with tokens := t.tokens })
          ((restOf levels braces fuel).run t)) := by
  have hrun := displaces_statement s.nextSlot 0 levels s s hs.displaced
  unfold Displaces at hrun
  rw [h] at hrun
  obtain ⟨ht, hst, hgrows⟩ := hrun.outcome
  refine ⟨ht, hst.params, hgrows, fun hexposed => ?_⟩
  obtain ⟨added, hadded, hslots⟩ := hexposed ▸ hgrows
  obtain rfl : added = [] := List.map_eq_nil_iff.1 hslots
  have hlocals : t.locals = s.locals := hadded
  refine ⟨fun name => ?_, fun braces fuel => ?_⟩
  · rw [ParserState.resolve, hlocals, hst.params]
    rfl
  · exact displaces_restOf braces fuel (displaced_of_locals hs hst hlocals)

/-! ### Where statements begin -/

/-- What stands before the first branch of a choice. -/
def Grammar.condition (inner : Grammar) : Parser Expr := do
  let _ ← advance
  expect .leftParen
  let test ← inner.assignment
  expect .rightParen
  return test

/-- A state in which a statement of a text begins, with so many levels left: the first one of the
text, one after another, the first one in a block, or a branch of a choice. -/
inductive BeginsStatement (params : List String) (tokens : List Token) : Nat → ParserState → Prop
  | first : BeginsStatement params tokens maxNesting (.start params tokens)
  | after {levels : Nat} {s t : ParserState} {x : Stmt}
    (hs : BeginsStatement params tokens levels s)
    (h : (grammar levels).statement.run s = .ok (x, t)) : BeginsStatement params tokens levels t
  | inside {levels : Nat} {s : ParserState} (hs : BeginsStatement params tokens (levels + 1) s)
    (h : s.next.kind = .symbol .leftBrace) : BeginsStatement params tokens levels s.skip
  | branch {levels : Nat} {s t : ParserState} {test : Expr}
    (hs : BeginsStatement params tokens (levels + 1) s) (hword : s.next.kind = .name "if")
    (h : (grammar levels).condition.run s = .ok (test, t)) : BeginsStatement params tokens levels t
  | otherwise {levels : Nat} {s : ParserState} (hs : BeginsStatement params tokens levels s)
    (h : s.next.kind = .name "else") : BeginsStatement params tokens levels s.skip

theorem ParserState.Orderly.before {s : ParserState} (h : s.Orderly) (tokens : List Token) :
    ({ s with tokens } : ParserState).Orderly :=
  ⟨h.params_le, h.distinct, h.slot_lt⟩

theorem ParserState.Orderly.skip {s : ParserState} (h : s.Orderly) : s.skip.Orderly := by
  unfold ParserState.skip
  split
  · split
    · exact h
    · exact h.before _
  · exact h

/-- Statements begin in orderly states. -/
theorem BeginsStatement.orderly {params : List String} {tokens : List Token} {levels : Nat}
    {s : ParserState} (h : BeginsStatement params tokens levels s) : s.Orderly := by
  induction h with
  | first => exact ⟨Nat.le_refl _, List.nodup_nil, nofun⟩
  | after _ hrun ih => exact (after_statement ih hrun).1
  | inside _ _ ih => exact ih.skip
  | @branch levels s t test _ _ hrun ih =>
    have hsees := sees_grammar (.refl s) ih.distinct levels
    -- a condition declares nothing, so only tokens have been taken
    have hcondition : Alike id s s (grammar levels).condition (grammar levels).condition
        fun _ => True :=
      .step .advance fun _ => .step (.expect .leftParen) fun _ =>
        hsees.assignment.bind fun test _ => .step (.expect .rightParen) fun _ => .pure trivial rfl
    rcases hcondition.outcome with ⟨fault, place, herror, -⟩ | ⟨x, rest, hok, -⟩
    · rw [herror] at hrun
      cases hrun
    · rw [hok] at hrun
      cases hrun
      exact ih.before rest
  | otherwise _ _ ih => exact ih.skip

/-- **Only what a statement exposes is seen after it**, wherever it stands in a text: the variables
of a declaration, and those of declarations that are branches of a choice.  After a statement that
exposes none, as every block, return, expression and empty statement is one, every name stands for
what it stands for without the statement, and what follows in the list is parsed as it is without
it, but for later slots. -/
theorem names_mean_the_same_after {params : List String} {tokens : List Token} {levels : Nat}
    {s t : ParserState} {x : Stmt} (hs : BeginsStatement params tokens levels s)
    (h : (grammar levels).statement.run s = .ok (x, t)) :
    t.params = s.params ∧ s.Grows x.exposed t ∧
      (x.exposed = [] → (∀ name, t.resolve name = s.resolve name) ∧
        ∀ braces fuel, EndsDisplaced s.nextSlot (t.nextSlot - s.nextSlot)
          { s with tokens := t.tokens } (fun _ _ => True)
          ((restOf levels braces fuel).run { s with tokens := t.tokens })
          ((restOf levels braces fuel).run t)) :=
  (after_statement hs.orderly h).2

/-- The tokens of `{ let x } x`. -/
def blockThenName : List Token :=
  [⟨.symbol .leftBrace, [], false⟩, ⟨.name "let", [], false⟩, ⟨.name "x", [], false⟩,
    ⟨.symbol .rightBrace, [], false⟩, ⟨.name "x", [], false⟩, ⟨.finish, [], false⟩]

/-- The state after the block. -/
def afterBlock : ParserState where
  params := ["x"]
  tokens := [⟨.name "x", [], false⟩, ⟨.finish, [], false⟩]
  locals := []
  nextSlot := 2

theorem run_block : (grammar maxNesting).statement.run (.start ["x"] blockThenName) =
    .ok (.block [.declare [(1, none)]], afterBlock) := by
  cbv

/-- After the block the name is the parameter again. -/
theorem parameter_seen_after_block : afterBlock.resolve "x" = .param 0 "x" :=
  ((names_mean_the_same_after .first run_block).2.2 rfl).1 "x"

/-- A choice, with what comes after it: without the choice, with a declaration in braces as its
branch, and with a declaration as its branch.  The name after it is the parameter, and the parameter
again, but the variable of the branch in the end, whether the branch is run or not. -/
theorem branch_redirects_later_names :
    let choice (branch : Stmt) (later : Expr) (slotCount : Nat) : Eval.Code :=
      ⟨.statement, ["c", "x"],
        .statements [.conditional (.param 0 "c") branch none, .returns (some later)], slotCount⟩
    let declares : Stmt := .declare [(2, none)]
    Eval.Code.compile "return x" ["c", "x"] .statement =
        .ok ⟨.statement, ["c", "x"], .statements [.returns (some (.param 1 "x"))], 2⟩ ∧
      Eval.Code.compile "if (c) { let x } return x" ["c", "x"] .statement =
        .ok (choice (.block [declares]) (.param 1 "x") 3) ∧
      Eval.Code.compile "if (c) let x; return x" ["c", "x"] .statement =
        .ok (choice declares (.declared 2 "x") 3) ∧
      ((choice (.block [declares]) (.param 1 "x") 3).call [.bool false, .null] .initial).2 =
        .ok .null ∧
      ((choice declares (.declared 2 "x") 3).call [.bool false, .null] .initial).2 =
        .ok .undefined := by
  refine ⟨?_, ?_, ?_, rfl, rfl⟩
  · cbv
  · cbv
  · cbv

end LiveMarkup.Syntax
