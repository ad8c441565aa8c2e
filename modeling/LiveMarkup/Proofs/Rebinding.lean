import LiveMarkup.Proofs.Renumbering

/-!
# Parsing over another list of parameters

No parser looks at a slot but to put it into a tree, or to compare it with the slots of variables.
So over two lists of parameters that have the same of the names in a text, the parser goes the same
way: it fails with the same fault at the same place, or gives the same tree with other slots.  On
the way it only refers to slots that there are.

## Main definitions

* `Slotted` — results of parsers that have slots in them.
* `RunsAlike`, `Renumbers` — runs and parsers over the two lists.
* `sourceNames` — the names in a text.

## Main results

* `renumbers_grammar` — the parsers of every grammar.
* `parse_rebound` — a text over the two lists.
* `placed_of_parse` — a program refers to slots that there are.
-/

namespace LiveMarkup.Syntax

/-! ### Results -/

/-- Results of parsers that have slots in them. -/
class Slotted (α : Type) where
  /-- The result with other slots. -/
  renumber : (Nat → Nat) → α → α
  /-- All slots are in place, those of variables before the given slot. -/
  Placed : Rebinding → Nat → α → Prop
  mono {ρ : Rebinding} {n m : Nat} {x : α} : Placed ρ n x → n ≤ m → Placed ρ m x

namespace Slotted

variable {α β : Type}

/-- Results without slots. -/
@[reducible] def plain (α : Type) : Slotted α where
  renumber _ x := x
  Placed _ _ _ := True
  mono h _ := h

instance : Slotted Unit := plain Unit
instance : Slotted Bool := plain Bool
instance : Slotted String := plain String
instance : Slotted Token := plain Token

instance : Slotted Expr := ⟨Expr.renumber, Expr.Placed, Expr.Placed.mono⟩

instance : Slotted Stmt := ⟨Stmt.renumber, Stmt.Placed, Stmt.Placed.mono⟩

instance : Slotted Body where
  renumber := Body.renumber
  Placed := Body.Placed
  mono {_ _ _ body} h hnm := by
    cases body with
    | expression e => exact Expr.Placed.mono h hnm
    | statements list => exact fun s hs => (h s hs).mono hnm

instance [Slotted α] : Slotted (List α) where
  renumber σ := List.map (renumber σ)
  Placed ρ n xs := ∀ x ∈ xs, Placed ρ n x
  mono h hnm x hx := mono (h x hx) hnm

instance [Slotted α] : Slotted (Option α) where
  renumber σ := Option.map (renumber σ)
  Placed ρ n o := ∀ x ∈ o, Placed ρ n x
  mono h hnm x hx := mono (h x hx) hnm

instance [Slotted α] : Slotted (String × α) where
  renumber σ p := (p.1, renumber σ p.2)
  Placed ρ n p := Placed ρ n p.2
  mono h hnm := mono h hnm

/-- A declarator has a slot of its own. -/
instance : Slotted (Nat × Option Expr) where
  renumber σ d := (σ d.1, renumber σ d.2)
  Placed ρ n d := (ρ.params.length ≤ d.1 ∧ d.1 < n) ∧ Placed ρ n d.2
  mono h hnm := ⟨⟨h.1.1, Nat.lt_of_lt_of_le h.1.2 hnm⟩, mono h.2 hnm⟩

theorem renumber_list (σ : Nat → Nat) (items : List Expr) :
    renumber σ items = renumberList σ items :=
  (renumberList_eq σ items).symm

theorem renumber_properties (σ : Nat → Nat) (properties : List (String × Expr)) :
    renumber σ properties = renumberProperties σ properties :=
  (renumberProperties_eq σ properties).symm

theorem renumber_statements (σ : Nat → Nat) (statements : List Stmt) :
    renumber σ statements = renumberStatements σ statements :=
  (renumberStatements_eq σ statements).symm

end Slotted

open Slotted (renumber Placed renumber_list renumber_properties renumber_statements)

/-! ### Runs and parsers -/

variable {ρ : Rebinding} {α β : Type} [Slotted α] [Slotted β] {n m : Nat}

/-- Runs over the two lists, the first from a state whose next slot is `n`: both fail with the same
fault, or both give the same result but for the slots. -/
inductive RunsAlike (ρ : Rebinding) (n : Nat) :
    Except Located (α × ParserState) → Except Located (α × ParserState) → Prop
  | error (e : Located) : RunsAlike ρ n (.error e) (.error e)
  | ok {x : α} {t : ParserState} (ht : t.Placed ρ) (hn : n ≤ t.nextSlot)
    (hx : Placed ρ t.nextSlot x) :
    RunsAlike ρ n (.ok (x, t)) (.ok (renumber ρ.slot x, t.renumber ρ))

/-- From states whose next slot is `n` or a later one the parsers run alike. -/
def Renumbers (ρ : Rebinding) (n : Nat) (p q : Parser α) : Prop :=
  ∀ s, s.Placed ρ → n ≤ s.nextSlot → RunsAlike ρ s.nextSlot (p.run s) (q.run (s.renumber ρ))

/-- The parser runs alike over the two lists. -/
abbrev Steady (ρ : Rebinding) (n : Nat) (p : Parser α) : Prop := Renumbers ρ n p p

theorem RunsAlike.mono {r r' : Except Located (α × ParserState)} (h : RunsAlike ρ m r r')
    (hnm : n ≤ m) : RunsAlike ρ n r r' := by
  cases h with
  | error e => exact .error e
  | ok ht hn hx => exact .ok ht (Nat.le_trans hnm hn) hx

namespace Renumbers

variable {p q : Parser α} {k l : α → Parser β}

theorem mono (h : Renumbers ρ n p q) (hnm : n ≤ m) : Renumbers ρ m p q :=
  fun s hs hm => h s hs (Nat.le_trans hnm hm)

theorem pure {x y : α} (hx : Placed ρ n x) (hxy : y = renumber ρ.slot x) :
    Renumbers ρ n (Pure.pure x) (Pure.pure y) := by
  intro s hs hn
  subst hxy
  exact .ok hs (Nat.le_refl _) (Slotted.mono hx hn)

theorem throw (e : Located) : Steady ρ n (MonadExcept.throw e : Parser α) :=
  fun _ _ _ => .error e

/-- What comes after a parser starts where its result is in place. -/
theorem bind (hp : Renumbers ρ n p q)
    (hk : ∀ m x, n ≤ m → Placed ρ m x → Renumbers ρ m (k x) (l (renumber ρ.slot x))) :
    Renumbers ρ n (p >>= k) (q >>= l) := by
  intro s hs hn
  rw [StateT.run_bind, StateT.run_bind]
  have hrun := hp s hs hn
  generalize p.run s = r, q.run (s.renumber ρ) = r' at hrun
  cases hrun with
  | error e => exact .error e
  | @ok x t ht hnt hx =>
    exact (hk t.nextSlot x (Nat.le_trans hn hnt) hx t ht (Nat.le_refl _)).mono hnt

/-- A step without slots in its result. -/
theorem step {γ : Type} {p : Parser γ} {k l : γ → Parser β}
    (hp : @Steady γ (Slotted.plain γ) ρ n p) (hk : ∀ x, Renumbers ρ n (k x) (l x)) :
    Renumbers ρ n (p >>= k) (p >>= l) :=
  @bind ρ γ β (Slotted.plain γ) _ n p p k l hp fun _ x hm _ => (hk x).mono hm

/-! ### Tokens -/

theorem peek : Steady ρ n Syntax.peek :=
  fun _ hs _ => .ok hs (Nat.le_refl _) trivial

theorem faultAt (place : List Char) (fault : SyntaxFault) :
    Steady ρ n (Syntax.faultAt place fault : Parser α) :=
  throw _

theorem faultHere (fault : SyntaxFault) : Steady ρ n (Syntax.faultHere fault : Parser α) :=
  step peek fun _ => faultAt _ _

theorem unexpected : Steady ρ n (Syntax.unexpected : Parser α) := step peek fun _ => faultHere _

theorem advance : Steady ρ n Syntax.advance := fun s hs _ => by
  have hrun : (Syntax.advance.run (s.renumber ρ)) = .ok (s.next, s.skip.renumber ρ) :=
    congrArg (fun t => Except.ok (s.next, t)) (skip_renumber s)
  rw [hrun]
  exact .ok hs.skip (Nat.le_of_eq (nextSlot_skip s).symm) trivial

/-- What would come after a fault does not matter. -/
theorem faulty {γ : Type} (place : List Char) (fault : SyntaxFault) (k l : γ → Parser β) :
    Renumbers ρ n (Syntax.faultAt place fault >>= k) (Syntax.faultAt place fault >>= l) :=
  fun _ _ _ => .error _

/-- Takes a token.  If it is a name that is not reserved, it is among the names. -/
theorem advanceName {k l : Token → Parser β}
    (hk : ∀ token,
      (∀ name, token.kind = .name name → isReserved name = false → name ∈ ρ.names) →
        Renumbers ρ n (k token) (l token)) :
    Renumbers ρ n (Syntax.advance >>= k) (Syntax.advance >>= l) := by
  intro s hs hn
  have hrest := hk s.next (fun _ => hs.mem_names) s.skip hs.skip (nextSlot_skip s ▸ hn)
  rw [← skip_renumber, nextSlot_skip] at hrest
  exact hrest

theorem atSymbol (symbol : Symbol) : Steady ρ n (Syntax.atSymbol symbol) :=
  step peek fun _ => pure trivial rfl

theorem atWord (word : String) : Steady ρ n (Syntax.atWord word) :=
  step peek fun _ => pure trivial rfl

theorem atFinish : Steady ρ n Syntax.atFinish := step peek fun _ => pure trivial rfl

theorem eat (symbol : Symbol) : Steady ρ n (Syntax.eat symbol) := by
  refine step (atSymbol symbol) fun b => ?_
  split
  · exact step advance fun _ => pure trivial rfl
  · exact pure trivial rfl

theorem expect (symbol : Symbol) : Steady ρ n (Syntax.expect symbol) := by
  refine step (eat symbol) fun b => ?_
  cases b with
  | true => exact pure trivial rfl
  | false => exact step peek fun _ => faultHere _

theorem propertyName : Steady ρ n Syntax.propertyName := by
  refine step advance fun token => ?_
  split
  · exact pure trivial rfl
  · exact faultAt _ _

theorem resolve {name : String} (hname : name ∈ ρ.names) : Steady ρ n (Syntax.resolve name) := by
  intro s hs _
  have hrun : (Syntax.resolve name).run (s.renumber ρ) =
      .ok ((s.resolve name).renumber ρ.slot, s.renumber ρ) :=
    congrArg (fun e => Except.ok (e, s.renumber ρ)) (resolve_renumber hs hname)
  rw [hrun]
  exact .ok hs (Nat.le_refl _) (placed_resolve hs hname)

theorem terminator : Steady ρ n Grammar.terminator := by
  refine step (eat .semicolon) fun b => ?_
  split
  · exact pure trivial rfl
  · refine step peek fun token => ?_
    split
    · exact pure trivial rfl
    · exact faultAt _ _

/-- A variable is a constant over both lists or over none. -/
theorem checkDeclared {slot : Nat} (name : String) (hslot : ρ.params.length ≤ slot)
    (place : List Char) :
    Renumbers ρ n (Syntax.checkAssignable (.declared slot name) place)
      (Syntax.checkAssignable (.declared (ρ.slot slot) name) place) := by
  intro s hs _
  have hrun (i : Nat) (t : ParserState) :
      (Syntax.checkAssignable (.declared i name) place).run t =
        if t.isConstant i then .error (.constantTarget name, place) else .ok ((), t) := by
    show (if t.isConstant i then _ else _ : Parser Unit).run t = _
    split <;> rfl
  rw [hrun, hrun, isConstant_renumber hs hslot]
  split
  · exact .error _
  · exact .ok hs (Nat.le_refl _) trivial

theorem checkAssignable {target : Expr} (htarget : target.Placed ρ n) (place : List Char) :
    Renumbers ρ n (Syntax.checkAssignable target place)
      (Syntax.checkAssignable (target.renumber ρ.slot) place) := by
  cases target with
  | declared slot name => exact checkDeclared name (all_declared.1 htarget).1 place
  | param | unbound => exact fun s hs _ => .ok hs (Nat.le_refl _) trivial
  | member object property optional | index object key optional =>
    cases optional with
    | true => exact fun _ _ _ => .error _
    | false => exact fun s hs _ => .ok hs (Nat.le_refl _) trivial
  | _ => exact fun _ _ _ => .error _

/-- What is assigned to over one list can be assigned to over the other. -/
theorem assignable {target : Expr} (htarget : target.Placed ρ n) (place : List Char)
    {p q : Parser β} (h : Renumbers ρ n p q) :
    Renumbers ρ n (do Syntax.checkAssignable target place; p)
      (do Syntax.checkAssignable (target.renumber ρ.slot) place; q) :=
  (checkAssignable htarget place).bind fun _ _ hm _ => h.mono hm

/-! ### Lists -/

section Lists

variable {item : Parser α}

theorem nil (n : Nat) : Steady ρ n (Pure.pure [] : Parser (List α)) := pure nofun rfl

theorem cons {x : α} {p q : Parser (List α)} (hx : Placed ρ n x) (h : Renumbers ρ n p q) :
    Renumbers ρ n (do return x :: (← p)) (do return renumber ρ.slot x :: (← q)) :=
  h.bind fun _ _ hm hxs => pure (List.forall_mem_cons.2 ⟨Slotted.mono hx hm, hxs⟩) rfl

theorem itemsUntil {stop : Parser Bool} (hstop : Steady ρ n stop) (hitem : Steady ρ n item)
    (fuel : Nat) : Steady ρ n (itemsUntil stop item fuel) := by
  induction fuel with
  | zero => exact nil n
  | succ fuel ih =>
    refine step hstop fun b => ?_
    split
    · exact nil n
    · exact hitem.bind fun m x hm hx => cons hx (ih.mono hm)

theorem commaSeparated {close : Symbol} (hitem : Steady ρ n item) (fuel : Nat) :
    Steady ρ n (commaSeparated close item fuel) := by
  induction fuel with
  | zero => exact nil n
  | succ fuel ih =>
    refine step (atSymbol close) fun b => ?_
    split
    · exact nil n
    · refine hitem.bind fun m x hm hx => step (eat .comma) fun b => ?_
      split
      · exact cons hx (ih.mono hm)
      · exact cons hx (nil m)

theorem separatedByComma (hitem : Steady ρ n item) (fuel : Nat) :
    Steady ρ n (separatedByComma item fuel) := by
  induction fuel with
  | zero => exact nil n
  | succ fuel ih =>
    refine hitem.bind fun m x hm hx => step (eat .comma) fun b => ?_
    split
    · exact cons hx (ih.mono hm)
    · exact cons hx (nil m)

theorem arrayItems {item : Parser Expr} (hitem : Steady ρ n item) (fuel : Nat) :
    Steady ρ n (arrayItems item fuel) := by
  have hhole : Placed ρ n (Expr.literal .undefined) := all_literal.2 trivial
  induction fuel with
  | zero => exact nil n
  | succ fuel ih =>
    refine step (atSymbol .rightBracket) fun b => ?_
    split
    · exact nil n
    · refine step (eat .comma) fun b => ?_
      split
      · exact cons hhole ih
      · refine hitem.bind fun m x hm hx => step (eat .comma) fun b => ?_
        split
        · exact cons hx (ih.mono hm)
        · exact cons hx (nil m)

/-- The tokens are the same, and so is the fuel. -/
theorem fueled {p : Nat → Parser α} (h : ∀ fuel, Steady ρ n (p fuel)) :
    Steady ρ n (Syntax.fueled p) :=
  fun s hs hn => h s.tokens.length s hs hn

end Lists

/-- The names declared by a parser are not seen after it, over neither list. -/
theorem enclosed {p : Parser α} {f : α → β} (close : Symbol) (hp : ∀ {n}, Steady ρ n p)
    (hf : ∀ m x, Placed ρ m x → Placed ρ m (f x))
    (hrenumber : ∀ x, f (renumber ρ.slot x) = renumber ρ.slot (f x)) :
    Steady ρ n (do
      let outside := (← MonadState.get).locals
      let x ← p
      Syntax.expect close
      modify fun s => { s with locals := outside }
      return f x) := by
  intro s hs _
  let leave (locals : List Local) (y : β) : Parser β := do
    modify fun t => { t with locals }
    return y
  have hleave (m : Nat) (x : α) (hm : s.nextSlot ≤ m) (hx : Placed ρ m x) : Renumbers ρ m
      (leave s.locals (f x)) (leave (s.renumber ρ).locals (f (renumber ρ.slot x))) := by
    intro t ht hmt
    -- what is seen again has slots before those declared inside
    have hlocals : ∀ l ∈ s.locals, ρ.params.length ≤ l.slot ∧ l.slot < t.nextSlot := fun l hl =>
      ⟨(hs.locals l hl).1, Nat.lt_of_lt_of_le (hs.locals l hl).2 (Nat.le_trans hm hmt)⟩
    rw [hrenumber]
    exact .ok (t := { t with locals := s.locals }) ⟨ht.params, ht.next, hlocals, ht.names⟩
      (Nat.le_refl _) (Slotted.mono (hf m x hx) hmt)
  have hrest : Renumbers ρ s.nextSlot
      (do let x ← p; Syntax.expect close; leave s.locals (f x))
      (do let x ← p; Syntax.expect close; leave (s.renumber ρ).locals (f x)) :=
    bind hp fun m x hm hx => step (expect close) fun _ => hleave m x hm hx
  exact hrest s hs (Nat.le_refl _)

end Renumbers

/-! ### Grammars -/

/-- The parsers of a grammar run alike over the two lists. -/
structure Grammar.Renumbers (ρ : Rebinding) (g : Grammar) : Prop where
  statement {n : Nat} : Steady ρ n g.statement
  assignment {n : Nat} : Steady ρ n g.assignment
  unary {n : Nat} : Steady ρ n g.unary
  power {n : Nat} : Steady ρ n g.power
  operand {n : Nat} (tier : Nat) : Steady ρ n (g.operand tier)
  chain {n : Nat} (tier : Nat) {left : Expr} (hleft : left.Placed ρ n) :
    Syntax.Renumbers ρ n (g.chain tier left) (g.chain tier (left.renumber ρ.slot))
  link {n : Nat} (optional : Bool) {e : Expr} (he : e.Placed ρ n) :
    Syntax.Renumbers ρ n (g.link optional e) (g.link optional (e.renumber ρ.slot))

theorem renumbers_exhausted : Grammar.exhausted.Renumbers ρ where
  statement := .faultHere _
  assignment := .faultHere _
  unary := .faultHere _
  power := .faultHere _
  operand _ := .faultHere _
  chain _ _ _ := .faultHere _
  link _ _ _ := .faultHere _

namespace Grammar.Renumbers

variable {g : Grammar} (hg : g.Renumbers ρ)

/-! #### Primary expressions -/

theorem word (place : List Char) {name : String}
    (hname : isReserved name = false → name ∈ ρ.names) : Steady ρ n (Grammar.word place name) := by
  unfold Grammar.word
  split
  · exact .pure (all_literal.2 trivial) rfl
  · exact .pure (all_literal.2 trivial) rfl
  · exact .pure (all_literal.2 trivial) rfl
  · split
    · exact .faultAt _ _
    · next hfree => exact .resolve (hname (Bool.eq_false_iff.2 hfree))

include hg

theorem propertyValue : Steady ρ n g.propertyValue := .step (.expect .colon) fun _ => hg.assignment

theorem property : Steady ρ n g.property := by
  have hvalue (key : String) : Steady ρ n (do return (key, ← g.propertyValue)) :=
    hg.propertyValue.bind fun m e _ he => .pure he rfl
  refine .advanceName fun token hnames => ?_
  split
  · next key hkey =>
    refine .step (.atSymbol .colon) fun b => ?_
    split
    · exact hvalue _
    · dsimp only
      split
      · exact .faulty _ _ _ _
      · next hfree =>
        exact Renumbers.bind (.resolve (hnames key hkey (Bool.eq_false_iff.2 hfree)))
          fun m e _ he => .pure he rfl
  · exact hvalue _
  · exact hvalue _
  · exact .faultAt _ _

theorem primary : Steady ρ n g.primary := by
  refine .advanceName fun token hnames => ?_
  split
  · exact .pure (all_literal.2 trivial) rfl
  · exact .pure (all_literal.2 trivial) rfl
  · next name hname => exact word _ (hnames name hname)
  · exact hg.assignment.bind fun m e _ he => .step (.expect .rightParen) fun _ => .pure he rfl
  · refine Renumbers.bind (.fueled (.arrayItems hg.assignment)) fun m items _ hitems =>
      .step (.expect .rightBracket) fun _ => .pure (all_array.2 ⟨trivial, hitems⟩) ?_
    rw [renumber_list]
    rfl
  · refine Renumbers.bind (.fueled (.commaSeparated hg.property)) fun m properties _ hproperties =>
      .step (.expect .rightBrace) fun _ => .pure (all_object.2 ⟨trivial, hproperties⟩) ?_
    rw [renumber_properties]
    rfl
  · exact .faultAt _ _

/-! #### Chains of members and calls -/

theorem arguments : Steady ρ n g.arguments :=
  .step (.expect .leftParen) fun _ =>
    Renumbers.bind (.fueled (.commaSeparated hg.assignment)) fun _ _ _ hargs =>
      .step (.expect .rightParen) fun _ => .pure hargs rfl

theorem bracketed : Steady ρ n g.bracketed :=
  hg.assignment.bind fun _ _ _ hkey => .step (.expect .rightBracket) fun _ => .pure hkey rfl

theorem optionalLink {e : Expr} (he : e.Placed ρ n) :
    Syntax.Renumbers ρ n (g.optionalLink e) (g.optionalLink (e.renumber ρ.slot)) := by
  refine .step .peek fun token => ?_
  split
  · refine hg.arguments.bind fun m args hm hargs =>
      .pure (all_call.2 ⟨trivial, he.mono hm, hargs⟩) ?_
    rw [renumber_list]
    rfl
  · exact .step .advance fun _ => hg.bracketed.bind fun m key hm hkey =>
      .pure (all_index.2 ⟨trivial, he.mono hm, hkey⟩) rfl
  · exact .step .propertyName fun _ => .pure (all_member.2 ⟨trivial, he⟩) rfl

theorem links (optional : Bool) {e : Expr} (he : e.Placed ρ n) :
    Syntax.Renumbers ρ n (g.links optional e) (g.links optional (e.renumber ρ.slot)) := by
  refine .step .peek fun token => ?_
  split
  · exact hg.link optional he
  · cases optional with
    | true => exact .pure (all_optionalChain.2 ⟨trivial, he⟩) rfl
    | false => exact .pure he rfl

theorem linkHere (optional : Bool) {e : Expr} (he : e.Placed ρ n) :
    Syntax.Renumbers ρ n (g.linkHere optional e) (g.linkHere optional (e.renumber ρ.slot)) := by
  refine .step .peek fun token => ?_
  split
  · exact .step .advance fun _ => .step .propertyName fun _ =>
      hg.links optional (all_member.2 ⟨trivial, he⟩)
  · exact .step .advance fun _ => (hg.optionalLink he).bind fun _ _ _ hlink => hg.links true hlink
  · exact .step .advance fun _ => hg.bracketed.bind fun m key hm hkey =>
      hg.links optional (all_index.2 ⟨trivial, he.mono hm, hkey⟩)
  · refine hg.arguments.bind fun m args hm hargs => ?_
    rw [renumber_list]
    exact hg.links optional (all_call.2 ⟨trivial, he.mono hm, hargs⟩)

theorem callMember : Steady ρ n g.callMember :=
  hg.primary.bind fun _ _ _ he => hg.links false he

/-! #### Operators -/

theorem postfixed : Steady ρ n g.postfixed := by
  refine hg.callMember.bind fun m e _ he => .step .peek fun token => ?_
  split
  · exact .pure he rfl
  · split
    · exact .pure he rfl
    · exact .assignable he token.place (.step .advance fun _ =>
        .pure (all_update.2 ⟨trivial, he⟩) rfl)

theorem unaryHere : Steady ρ n g.unaryHere := by
  refine .step .peek fun token => ?_
  split
  · exact .step .advance fun _ => hg.unary.bind fun m target _ htarget =>
      .assignable htarget token.place (.pure (all_update.2 ⟨trivial, htarget⟩) rfl)
  · split
    · exact .step .advance fun _ => hg.unary.bind fun m operand _ hoperand =>
        .pure (all_unary.2 ⟨trivial, hoperand⟩) rfl
    · exact hg.postfixed

theorem exponent : Steady ρ n g.exponent := by
  refine hg.unary.bind fun m base _ hbase => .step (.atSymbol .starStar) fun b => ?_
  split
  · have hpower : Syntax.Renumbers ρ m (do
        let _ ← Syntax.advance
        return Expr.binary .pow base (← g.power)) (do
        let _ ← Syntax.advance
        return Expr.binary .pow (base.renumber ρ.slot) (← g.power)) :=
      .step .advance fun _ => hg.power.bind fun _ _ hm hright =>
        .pure (all_binary.2 ⟨trivial, hbase.mono hm, hright⟩) rfl
    simp only [Slotted.renumber, isUnary_renumber]
    split
    · exact .step (.faultHere _) fun _ => hpower
    · exact hpower
  · exact .pure hbase rfl

theorem chainHere (tier : Nat) {left : Expr} (hleft : left.Placed ρ n) :
    Syntax.Renumbers ρ n (g.chainHere tier left) (g.chainHere tier (left.renumber ρ.slot)) := by
  refine .step .peek fun token => ?_
  split
  · exact .pure hleft rfl
  · next joint _ =>
    refine .step .advance fun _ => (hg.operand tier).bind fun m right hm hright => ?_
    cases joint with
    | binary op => exact hg.chain tier (all_binary.2 ⟨trivial, hleft.mono hm, hright⟩)
    | logical op => exact hg.chain tier (all_logical.2 ⟨trivial, hleft.mono hm, hright⟩)

theorem tiers (tier : Nat) : Steady ρ n (g.tiers tier) := by
  induction tier with
  | zero => exact hg.exponent
  | succ tier ih => exact ih.bind fun _ _ _ hleft => hg.chainHere tier hleft

theorem conditional : Steady ρ n g.conditional := by
  refine (hg.tiers tierCount).bind fun m test _ htest => .step (.eat .question) fun b => ?_
  split
  · exact hg.assignment.bind fun _ _ hm hconsequent => .step (.expect .colon) fun _ =>
      hg.assignment.bind fun _ _ hm' halternate =>
        .pure (all_conditional.2 ⟨trivial, htest.mono (Nat.le_trans hm hm'),
          hconsequent.mono hm', halternate⟩) rfl
  · exact .pure htest rfl

theorem assignmentHere : Steady ρ n g.assignmentHere := by
  refine hg.conditional.bind fun m target _ htarget => .step .peek fun token => ?_
  split
  · exact .pure htarget rfl
  · exact .assignable htarget token.place (.step .advance fun _ =>
      hg.assignment.bind fun _ _ hm hvalue =>
        .pure (all_assign.2 ⟨trivial, htarget.mono hm, hvalue⟩) rfl)

/-! #### Statements -/

/-- The names declared inside are not seen any more, over neither list. -/
theorem block : Steady ρ n g.block := by
  have hitem {m : Nat} : Steady ρ m (do
      if ← Syntax.atFinish then Syntax.unexpected
      g.statement) := by
    refine .step .atFinish fun b => ?_
    dsimp only
    split
    · exact .step .unexpected fun _ => hg.statement
    · exact hg.statement
  refine .step (.expect .leftBrace) fun _ => ?_
  refine .enclosed .rightBrace (.fueled (.itemsUntil (.atSymbol .rightBrace) hitem))
    (fun m statements hstatements => Stmt.all_block.2 ⟨⟨nofun, nofun⟩, hstatements⟩) ?_
  intro statements
  rw [renumber_statements]
  rfl

theorem ifStatement : Steady ρ n g.ifStatement := by
  refine .step .advance fun _ => .step (.expect .leftParen) fun _ =>
    hg.assignment.bind fun m test _ htest => .step (.expect .rightParen) fun _ =>
      hg.statement.bind fun k consequent hk hconsequent => .step (.atWord "else") fun b => ?_
  split
  · refine .step .advance fun _ => hg.statement.bind fun l alternate hl halternate => .pure ?_ rfl
    refine Stmt.all_conditional.2 ⟨⟨?_, nofun⟩, hconsequent.mono hl, ?_⟩
    · exact List.forall_mem_singleton.2 (htest.mono (Nat.le_trans hk hl))
    · rintro _ ⟨⟩
      exact halternate
  · refine .pure (Stmt.all_conditional.2 ⟨⟨?_, nofun⟩, hconsequent, nofun⟩) rfl
    exact List.forall_mem_singleton.2 (htest.mono hk)

theorem returnStatement : Steady ρ n g.returnStatement := by
  refine .step .advance fun _ => .step .peek fun token => ?_
  split
  · exact .step .terminator fun _ => .pure (Stmt.all_returns.2 ⟨nofun, nofun⟩) rfl
  · exact hg.assignment.bind fun m value _ hvalue => .step .terminator fun _ =>
      .pure (Stmt.all_returns.2 ⟨List.forall_mem_singleton.2 hvalue, nofun⟩) rfl

theorem initializer (constant : Bool) (place : List Char) :
    Steady ρ n (g.initializer constant place) := by
  refine .step (.eat .assign) fun b => ?_
  split
  · exact hg.assignment.bind fun m e _ he => .pure (fun _ h => by cases h; exact he) rfl
  · dsimp only
    split
    · exact .step (.faultAt _ _) fun _ => .pure nofun rfl
    · exact .pure nofun rfl

/-- A variable gets the next slot over either list. -/
theorem declarator (constant : Bool) : Steady ρ n (g.declarator constant) := by
  have hdeclare (name : String) (place : List Char) : Steady ρ n (do
      let init ← g.initializer constant place
      let slot := (← MonadState.get).nextSlot
      modify fun s => { s with nextSlot := slot + 1, locals := ⟨name, slot, constant⟩ :: s.locals }
      return (slot, init)) := by
    refine (hg.initializer constant place).bind fun m init _ hinit => ?_
    intro s hs hm
    let t : ParserState :=
      { s with nextSlot := s.nextSlot + 1, locals := ⟨name, s.nextSlot, constant⟩ :: s.locals }
    have ht : t.Placed ρ := by
      refine ⟨hs.params, Nat.le_succ_of_le hs.next, List.forall_mem_cons.2 ⟨?_, ?_⟩, hs.names⟩
      · exact ⟨hs.next, Nat.lt_succ_self _⟩
      · exact fun l hl => ⟨(hs.locals l hl).1, Nat.lt_succ_of_lt (hs.locals l hl).2⟩
    have hd : Placed ρ t.nextSlot (s.nextSlot, init) :=
      ⟨⟨hs.next, Nat.lt_succ_self _⟩, Slotted.mono hinit (Nat.le_succ_of_le hm)⟩
    have hother : { s.renumber ρ with
        nextSlot := ρ.slot s.nextSlot + 1
        locals := ⟨name, ρ.slot s.nextSlot, constant⟩ :: (s.renumber ρ).locals } =
          t.renumber ρ := by
      rw [← Rebinding.slot_succ hs.next]
      rfl
    have hok := RunsAlike.ok ht (Nat.le_succ s.nextSlot) hd
    rw [← hother] at hok
    exact hok
  refine .step .advance fun token => ?_
  split
  · dsimp only
    split
    · exact .step (.faultAt _ _) fun _ => hdeclare _ _
    · exact hdeclare _ _
  · exact .faultAt _ _

theorem declaration : Steady ρ n g.declaration := by
  refine .step (.atWord "const") fun constant => .step .advance fun _ =>
    Renumbers.bind (.fueled (.separatedByComma (hg.declarator constant)))
      fun m declarators _ hdeclarators => .step .terminator fun _ =>
        .pure (Stmt.all_declare.2 ⟨fun e he => ?_, fun slot hslot => ?_⟩) rfl
  · obtain ⟨d, hd, hinit⟩ := List.mem_filterMap.1 he
    exact (hdeclarators d hd).2 e hinit
  · obtain ⟨d, hd, rfl⟩ := List.mem_map.1 hslot
    exact (hdeclarators d hd).1

theorem statementHere : Steady ρ n g.statementHere := by
  refine .step (.eat .semicolon) fun b => ?_
  split
  · exact .pure (Stmt.all_empty.2 ⟨nofun, nofun⟩) rfl
  · refine .step .peek fun token => ?_
    split
    · exact hg.block
    · exact hg.ifStatement
    · exact hg.returnStatement
    · exact hg.declaration
    · exact hg.declaration
    · exact hg.declaration
    · exact hg.assignment.bind fun m e _ he => .step .terminator fun _ =>
        .pure (Stmt.all_expression.2 ⟨List.forall_mem_singleton.2 he, nofun⟩) rfl

theorem deeper : g.deeper.Renumbers ρ where
  statement := hg.statementHere
  assignment := hg.assignmentHere
  unary := hg.unaryHere
  power := hg.exponent
  operand := hg.tiers
  chain tier := hg.chainHere tier
  link optional := hg.linkHere optional

end Grammar.Renumbers

/-- The parsers of every grammar run alike over the two lists. -/
theorem renumbers_grammar (levels : Nat) : (grammar levels).Renumbers ρ := by
  induction levels with
  | zero => exact renumbers_exhausted
  | succ levels ih => exact ih.deeper

/-! ### Programs -/

/-- The word that a token is, if it can name a variable. -/
def TokenKind.name? : TokenKind → Option String
  | .name s => if isReserved s then none else some s
  | _ => none

/-- The words in a text that can name a variable, names of properties among them; none if the text
is no sequence of tokens. -/
def sourceNames (source : String) : List String :=
  match tokenize source with
  | .ok tokens => tokens.filterMap fun t => t.kind.name?
  | .error _ => []

/-- The program with other slots. -/
def Program.renumber (σ : Nat → Nat) (program : Program) : Program where
  body := program.body.renumber σ
  slotCount := σ program.slotCount

theorem steady_wholeText (mode : Mode) : Steady ρ n (wholeText mode) := by
  cases mode with
  | expression =>
    refine (renumbers_grammar maxNesting).assignment.bind fun m e _ he =>
      .step .atFinish fun b => ?_
    dsimp only
    split
    · exact .pure he rfl
    · exact .step .unexpected fun _ => .pure he rfl
  | statement =>
    refine Renumbers.bind (.fueled (.itemsUntil .atFinish (renumbers_grammar maxNesting).statement))
      fun m statements _ hstatements => .pure hstatements ?_
    rw [renumber_statements]
    rfl

/-- A text begins to be parsed alike over the two lists. -/
theorem runsAlike_wholeText {source : String} (hnames : sourceNames source ⊆ ρ.names)
    {tokens : List Token} (htokens : tokenize source = .ok tokens) (mode : Mode) :
    RunsAlike ρ ρ.params.length ((wholeText mode).run (.start ρ.params tokens))
      ((wholeText mode).run (.start ρ.others tokens)) := by
  have hstart : (ParserState.start ρ.params tokens).Placed ρ := by
    refine ⟨rfl, Nat.le_refl _, nofun, fun t ht name hname hfree => hnames ?_⟩
    rw [sourceNames, htokens]
    exact List.mem_filterMap.2 ⟨t, ht, by rw [hname, TokenKind.name?, hfree]; rfl⟩
  have hother : (ParserState.start ρ.params tokens).renumber ρ = .start ρ.others tokens := by
    simp only [ParserState.renumber, ParserState.start, Rebinding.slot_length, List.map_nil]
  rw [← hother]
  exact steady_wholeText mode _ hstart (Nat.le_refl _)

/-- Over two lists of parameters that have the same of its names, a text is not in the language for
the same fault at the same place, or it is the same program but for the slots. -/
theorem parse_rebound {source : String} (hnames : sourceNames source ⊆ ρ.names) (mode : Mode) :
    parse source ρ.others mode = (parse source ρ.params mode).map (Program.renumber ρ.slot) := by
  rw [parse_eq, parse_eq]
  cases htokens : tokenize source with
  | error e => rfl
  | ok tokens =>
    have hruns := runsAlike_wholeText hnames htokens mode
    simp only [Except.bind]
    generalize (wholeText mode).run (.start ρ.params tokens) = r,
      (wholeText mode).run (.start ρ.others tokens) = r' at hruns
    cases hruns with
    | error e => rfl
    | ok ht hn hx => rfl

/-- A program refers to slots that there are: of parameters that are the last of their names, and
of variables between the parameters and the number of slots. -/
theorem placed_of_parse {source : String} (hnames : sourceNames source ⊆ ρ.names) {mode : Mode}
    {program : Program} (h : parse source ρ.params mode = .ok program) :
    program.body.Placed ρ program.slotCount ∧ ρ.params.length ≤ program.slotCount := by
  obtain ⟨tokens, finish, htokens, hrun, hcount⟩ := parse_eq_ok h
  have hruns := runsAlike_wholeText hnames htokens mode
  rw [hrun] at hruns
  generalize (wholeText mode).run (.start ρ.others tokens) = r' at hruns
  cases hruns with
  | ok ht hn hx => exact hcount ▸ ⟨hx, hn⟩

end LiveMarkup.Syntax
