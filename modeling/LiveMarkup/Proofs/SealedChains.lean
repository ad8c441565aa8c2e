import LiveMarkup.Proofs.DeclaredSlots
import LiveMarkup.Proofs.Unparsing
import LiveMarkup.Proofs.Variables

/-!
# Where optional links stand

A chain of members and calls is open if it has an optional link.  Around an open chain the parser
puts an optional chain as soon as the chain has ended, so no open chain is the operand of anything:
no element, argument, index, operand, target or statement is one.  What a chain begins with may be
an optional chain itself, as in `(a?.b).c`, but then the links inside it are not links of the chain
outside.

## Main definitions

* `Expr.heads`, `Expr.operands` — the parts of an expression, by what they are to it.
* `Expr.links` — the links of a chain.
* `Expr.Sealed` — an expression that is no open chain, and no operand of any part is.
* `Grammar.Seals` — the parsers of a grammar give sealed expressions.

## Main results

* `open_in_chain` — every open chain in a sealed expression belongs to an optional chain.
* `seals_grammar` — the parsers of every grammar give sealed expressions.
* `sealed_of_parse` — the expressions of a program are sealed.
-/

namespace LiveMarkup.Syntax

/-! ### Parts -/

/-- What an expression goes on from: the beginning of a chain, and the chain of an optional one. -/
def Expr.heads : Expr → List Expr
  | .member e _ _ | .index e _ _ | .call e _ _ | .optionalChain e => [e]
  | _ => []

/-- The operands of an expression: the expressions in it that are computed on their own, and not as
the beginning of a chain. -/
def Expr.operands : Expr → List Expr
  | .array items => items
  | .object properties => properties.map Prod.snd
  | .index _ key _ => [key]
  | .call _ args _ => args
  | .unary _ operand => [operand]
  | .binary _ left right | .logical _ left right => [left, right]
  | .conditional test consequent alternate => [test, consequent, alternate]
  | .assign _ target value => [target, value]
  | .update _ _ target => [target]
  | _ => []

/-- What an expression is made of. -/
def Expr.pieces (e : Expr) : List Expr := e.heads ++ e.operands

/-- What holds of all parts holds of the whole and of all parts of what it is made of. -/
theorem all_iff_pieces {P : Expr → Prop} {e : Expr} :
    e.All P ↔ P e ∧ ∀ piece ∈ e.pieces, piece.All P := by
  cases e with
  | object properties =>
    rw [all_object, ← List.forall_mem_map (f := Prod.snd) (P := Expr.All P)]
    rfl
  | _ =>
    simp [Expr.pieces, Expr.heads, Expr.operands, all_literal, all_param, all_declared, all_global,
      all_unbound, all_array, all_member, all_index, all_call, all_optionalChain, all_unary,
      all_binary, all_logical, all_conditional, all_assign, all_update]

theorem self_mem_subterms (e : Expr) : e ∈ e.subterms := by cases e <;> simp

/-- The parts of what an expression is made of are parts of it. -/
theorem subterms_subset {e piece : Expr} (h : piece ∈ e.pieces) : piece.subterms ⊆ e.subterms :=
  (all_iff_pieces.1 fun x (hx : x ∈ e.subterms) => hx).2 piece h

theorem sizeOf_piece_lt {e : Expr} : ∀ piece ∈ e.pieces, sizeOf piece < sizeOf e := by
  cases e with
  | array items =>
    intro piece hmem
    have := List.sizeOf_lt_of_mem (show piece ∈ items from hmem)
    simp only [Expr.array.sizeOf_spec]
    omega
  | object properties =>
    refine List.forall_mem_map.2 fun p hmem => ?_
    have := List.sizeOf_lt_of_mem hmem
    cases p
    simp only [Prod.mk.sizeOf_spec] at this
    simp only [Expr.object.sizeOf_spec]
    omega
  | call callee args optional =>
    refine List.forall_mem_cons.2 ⟨by simp +arith, fun piece hmem => ?_⟩
    have := List.sizeOf_lt_of_mem (show piece ∈ args from hmem)
    simp only [Expr.call.sizeOf_spec]
    omega
  | _ => simp +arith [Expr.pieces, Expr.heads, Expr.operands]

/-- What holds of all parts of an expression holds of all parts of each of them. -/
theorem Expr.All.parts {P : Expr → Prop} {e : Expr} (h : e.All P) : e.All (Expr.All P) := by
  obtain ⟨-, hpieces⟩ := all_iff_pieces.1 h
  refine all_iff_pieces.2 ⟨h, fun piece hpiece => ?_⟩
  have hdecreasing := sizeOf_piece_lt piece hpiece
  exact (hpieces piece hpiece).parts
termination_by sizeOf e

/-! ### Chains -/

/-- The links of a chain, the last first: the members and calls that it goes on to. -/
def Expr.links : Expr → List Expr
  | .member e property optional => .member e property optional :: e.links
  | .index e key optional => .index e key optional :: e.links
  | .call callee args optional => .call callee args optional :: callee.links
  | _ => []

/-- No operand is an open chain. -/
def Expr.Seals (e : Expr) : Prop := ∀ operand ∈ e.operands, operand.isOpen = false

/-- An expression that is no open chain, and no operand of any part of it is. -/
structure Expr.Sealed (e : Expr) : Prop where
  closed : e.isOpen = false
  all : e.All Expr.Seals

/-- A chain of members and calls so far; the flag says whether it may have an optional link. -/
structure Expr.Starts (optional : Bool) (e : Expr) : Prop where
  all : e.All Expr.Seals
  closed : optional = false → e.isOpen = false

theorem mem_links_self {e : Expr} (h : e.isOpen = true) : e ∈ e.links := by
  cases e
  case member | index | call => exact List.mem_cons_self
  all_goals cases h

/-- A chain that is open up to one of its links is open. -/
theorem isOpen_of_mem_links {e x : Expr} (hx : x ∈ e.links) (h : x.isOpen = true) :
    e.isOpen = true := by
  cases e with
  | member object property optional =>
    rcases List.mem_cons.1 hx with rfl | hx
    · exact h
    · exact Bool.or_eq_true_iff.2 (.inr (isOpen_of_mem_links hx h))
  | index object key optional =>
    rcases List.mem_cons.1 hx with rfl | hx
    · exact h
    · exact Bool.or_eq_true_iff.2 (.inr (isOpen_of_mem_links hx h))
  | call callee args optional =>
    rcases List.mem_cons.1 hx with rfl | hx
    · exact h
    · exact Bool.or_eq_true_iff.2 (.inr (isOpen_of_mem_links hx h))
  | _ => cases hx

/-- The links up to a link are links of the chain. -/
theorem links_subset {e x : Expr} (hx : x ∈ e.links) : x.links ⊆ e.links := by
  cases e with
  | member object property optional =>
    rcases List.mem_cons.1 hx with rfl | hx
    · exact List.Subset.refl _
    · exact List.subset_cons_of_subset _ (links_subset hx)
  | index object key optional =>
    rcases List.mem_cons.1 hx with rfl | hx
    · exact List.Subset.refl _
    · exact List.subset_cons_of_subset _ (links_subset hx)
  | call callee args optional =>
    rcases List.mem_cons.1 hx with rfl | hx
    · exact List.Subset.refl _
    · exact List.subset_cons_of_subset _ (links_subset hx)
  | _ => cases hx

/-- The links of what a chain begins with are links of the chain. -/
theorem links_subset_or {e piece : Expr} (h : piece ∈ e.heads) :
    piece.links ⊆ e.links ∨ e = .optionalChain piece := by
  cases e
  case member | index | call =>
    cases List.mem_singleton.1 h
    exact .inl (List.subset_cons_self _ _)
  case optionalChain =>
    cases List.mem_singleton.1 h
    exact .inr rfl
  all_goals cases h

/-- In an expression whose parts seal their operands, an open chain is the expression up to one of
its links or an optional chain inside it up to one of its links. -/
theorem open_cases {e x : Expr} (he : e.All Expr.Seals) (hx : x ∈ e.subterms)
    (hopen : x.isOpen = true) :
    x ∈ e.links ∨ ∃ chain, .optionalChain chain ∈ e.subterms ∧ x ∈ chain.links := by
  -- by induction on the expression, along what it is made of
  obtain ⟨hseals, hpieces⟩ := all_iff_pieces.1 he
  have hall : e.All fun y => y = x → x ∈ e.links ∨
      ∃ chain, .optionalChain chain ∈ e.subterms ∧ x ∈ chain.links := by
    refine all_iff_pieces.2 ⟨?_, fun piece hpiece y hy => ?_⟩
    · rintro rfl
      exact .inl (mem_links_self hopen)
    · rintro rfl
      have hdecreasing := sizeOf_piece_lt piece hpiece
      rcases open_cases (hpieces piece hpiece) hy hopen with hlink | ⟨chain, hchain, hlink⟩
      · rcases List.mem_append.1 hpiece with hhead | hoperand
        · rcases links_subset_or hhead with hlinks | rfl
          · exact .inl (hlinks hlink)
          · exact .inr ⟨piece, self_mem_subterms _, hlink⟩
        · -- an operand is closed, so none of its links is open
          exact absurd (isOpen_of_mem_links hlink hopen)
            (Bool.eq_false_iff.1 (hseals piece hoperand))
      · exact .inr ⟨chain, subterms_subset hpiece hchain, hlink⟩
  exact hall x hx rfl
termination_by sizeOf e

/-- Every open chain in a sealed expression is an optional chain up to one of its links. -/
theorem open_in_chain {e x : Expr} (he : e.Sealed) (hx : x ∈ e.subterms) (hopen : x.isOpen = true) :
    ∃ chain, .optionalChain chain ∈ e.subterms ∧ x ∈ chain.links := by
  refine (open_cases he.all hx hopen).resolve_left fun hlink => ?_
  exact absurd (isOpen_of_mem_links hlink hopen) (Bool.eq_false_iff.1 he.closed)

/-! ### Building expressions -/

theorem all_seals {e : Expr} (hheads : ∀ head ∈ e.heads, head.All Expr.Seals)
    (hoperands : ∀ operand ∈ e.operands, operand.Sealed) : e.All Expr.Seals :=
  all_iff_pieces.2 ⟨fun operand h => (hoperands operand h).closed,
    List.forall_mem_append.2 ⟨hheads, fun operand h => (hoperands operand h).all⟩⟩

/-- What goes on from nothing is sealed if its operands are. -/
theorem sealed_of_operands {e : Expr} (hheads : e.heads = []) (hopen : e.isOpen = false)
    (hoperands : ∀ operand ∈ e.operands, operand.Sealed) : e.Sealed :=
  ⟨hopen, all_seals (by simp [hheads]) hoperands⟩

theorem sealed_resolve (s : ParserState) (name : String) : (s.resolve name).Sealed := by
  unfold ParserState.resolve
  repeat' split
  all_goals exact sealed_of_operands rfl rfl nofun

theorem sealed_joined {joint : Joint} {left right : Expr} (hleft : left.Sealed)
    (hright : right.Sealed) : (joint.join left right).Sealed := by
  have hoperands : ∀ operand ∈ [left, right], operand.Sealed := by simp [hleft, hright]
  cases joint with
  | binary op => exact sealed_of_operands rfl rfl hoperands
  | logical op => exact sealed_of_operands rfl rfl hoperands

namespace Expr.Starts

variable {optional : Bool} {e e' : Expr}

theorem of_sealed (h : e.Sealed) : e.Starts optional := ⟨h.all, fun _ => h.closed⟩

/-- A chain goes on with a link that is not optional. -/
theorem more (h : e.Starts optional) (hheads : e'.heads = [e])
    (hoperands : ∀ operand ∈ e'.operands, operand.Sealed)
    (hopen : e'.isOpen = (false || e.isOpen)) : e'.Starts optional :=
  ⟨all_seals (by simpa [hheads] using h.all) hoperands,
    fun hplain => hopen.trans (h.closed hplain)⟩

/-- With an optional link the chain has to become an optional one. -/
theorem optional_link (h : e.Starts optional) (hheads : e'.heads = [e])
    (hoperands : ∀ operand ∈ e'.operands, operand.Sealed) : e'.Starts true :=
  ⟨all_seals (by simpa [hheads] using h.all) hoperands, nofun⟩

/-- A chain that has ended is sealed by wrapping it up. -/
theorem wrapped (h : e.Starts optional) :
    (if optional then Expr.optionalChain e else e).Sealed := by
  cases optional with
  | true => exact ⟨rfl, all_optionalChain.2 ⟨nofun, h.all⟩⟩
  | false => exact ⟨h.closed rfl, h.all⟩

end Expr.Starts

/-! ### Grammars -/

/-- A statement whose expressions are sealed, apart from those of the statements inside it. -/
def Stmt.Seals (s : Stmt) : Prop := ∀ e ∈ s.expressions, e.Sealed

/-- The parsers of a grammar give sealed expressions. -/
structure Grammar.Seals (g : Grammar) : Prop where
  statement : Gives g.statement (Stmt.All Stmt.Seals)
  assignment : Gives g.assignment Expr.Sealed
  unary : Gives g.unary Expr.Sealed
  power : Gives g.power Expr.Sealed
  operand (tier : Nat) : Gives (g.operand tier) Expr.Sealed
  chain (tier : Nat) {left : Expr} (hleft : left.Sealed) : Gives (g.chain tier left) Expr.Sealed
  link {optional : Bool} {e : Expr} (he : e.Starts optional) : Gives (g.link optional e) Expr.Sealed

theorem seals_exhausted : Grammar.exhausted.Seals where
  statement := meets_faultHere _
  assignment := meets_faultHere _
  unary := meets_faultHere _
  power := meets_faultHere _
  operand _ := meets_faultHere _
  chain _ _ _ := meets_faultHere _
  link _ := meets_faultHere _

namespace Grammar.Seals

variable {g : Grammar} (hg : g.Seals)

/-! #### Primary expressions -/

theorem resolve (name : String) : Gives (Syntax.resolve name) Expr.Sealed :=
  .step fun s => .pure (sealed_resolve s name)

theorem word (place : List Char) (name : String) : Gives (Grammar.word place name) Expr.Sealed := by
  unfold Grammar.word
  split
  case h_4 =>
    split
    · exact meets_faultAt _ _
    · exact resolve name
  all_goals exact .pure (sealed_of_operands rfl rfl nofun)

include hg

theorem arrayLiteral : Gives g.arrayLiteral Expr.Sealed :=
  (Gives.fueled (Gives.arrayItems hg.assignment (sealed_of_operands rfl rfl nofun))).bind
    fun _ hitems => .step fun _ => .pure (sealed_of_operands rfl rfl hitems)

theorem propertyValue : Gives g.propertyValue Expr.Sealed := .step fun _ => hg.assignment

theorem property : Gives g.property fun p => p.2.Sealed := by
  refine .step fun token => ?_
  split
  · next key _ =>
    refine .step fun b => ?_
    split
    · exact hg.propertyValue.bind fun e he => .pure he
    · dsimp only
      split
      · exact .step fun _ => (resolve key).bind fun e he => .pure he
      · exact (resolve key).bind fun e he => .pure he
  · exact hg.propertyValue.bind fun e he => .pure he
  · exact hg.propertyValue.bind fun e he => .pure he
  · exact meets_faultAt _ _

theorem objectLiteral : Gives g.objectLiteral Expr.Sealed :=
  (Gives.fueled (Gives.commaSeparated hg.property)).bind fun _ hproperties =>
    .step fun _ => .pure (sealed_of_operands rfl rfl (List.forall_mem_map.2 hproperties))

theorem primary : Gives g.primary Expr.Sealed := by
  refine .step fun token => ?_
  split
  · exact .pure (sealed_of_operands rfl rfl nofun)
  · exact .pure (sealed_of_operands rfl rfl nofun)
  · exact word _ _
  · exact hg.assignment.bind fun e he => .step fun _ => .pure he
  · exact hg.arrayLiteral
  · exact hg.objectLiteral
  · exact meets_faultAt _ _

/-! #### Chains of members and calls -/

theorem arguments : Gives g.arguments fun args => ∀ e ∈ args, e.Sealed :=
  .step fun _ => (Gives.fueled (Gives.commaSeparated hg.assignment)).bind fun _ hargs =>
    .step fun _ => .pure hargs

theorem bracketed : Gives g.bracketed fun key => ∀ e ∈ [key], e.Sealed :=
  hg.assignment.bind fun _ he => .step fun _ => .pure (List.forall_mem_singleton.2 he)

section Links

variable {optional : Bool} {e : Expr} (he : e.Starts optional)

include he

theorem optionalLink : Gives (g.optionalLink e) (Expr.Starts true) := by
  refine .step fun token => ?_
  split
  · exact hg.arguments.bind fun _ hargs => .pure (he.optional_link rfl hargs)
  · exact .step fun _ => hg.bracketed.bind fun _ hkey => .pure (he.optional_link rfl hkey)
  · exact .step fun name => .pure (he.optional_link rfl nofun)

theorem links : Gives (g.links optional e) Expr.Sealed := by
  refine .step fun token => ?_
  split
  · exact hg.link he
  · exact .pure he.wrapped

theorem linkHere : Gives (g.linkHere optional e) Expr.Sealed := by
  refine .step fun token => ?_
  split
  · exact .step fun _ => .step fun name => hg.links (he.more rfl nofun rfl)
  · -- with the first `?.` link the whole chain becomes an optional one
    exact .step fun _ => (hg.optionalLink he).bind fun _ hmore => hg.links hmore
  · exact .step fun _ => hg.bracketed.bind fun _ hkey => hg.links (he.more rfl hkey rfl)
  · exact hg.arguments.bind fun _ hargs => hg.links (he.more rfl hargs rfl)

end Links

theorem callMember : Gives g.callMember Expr.Sealed :=
  hg.primary.bind fun _ he => hg.links (.of_sealed he)

/-! #### Operators -/

theorem postfixed : Gives g.postfixed Expr.Sealed := by
  refine hg.callMember.bind fun e he => .step fun token => ?_
  split
  · exact .pure he
  · split
    · exact .pure he
    · exact .step fun _ => .step fun _ =>
        .pure (sealed_of_operands rfl rfl (List.forall_mem_singleton.2 he))

theorem unaryHere : Gives g.unaryHere Expr.Sealed := by
  refine .step fun token => ?_
  split
  · exact .step fun _ => hg.unary.bind fun e he => .step fun _ =>
      .pure (sealed_of_operands rfl rfl (List.forall_mem_singleton.2 he))
  · split
    · exact .step fun _ => hg.unary.bind fun e he =>
        .pure (sealed_of_operands rfl rfl (List.forall_mem_singleton.2 he))
    · exact hg.postfixed

theorem exponent : Gives g.exponent Expr.Sealed := by
  refine hg.unary.bind fun base hbase => .step fun b => ?_
  split
  · have hpower : ∀ u : Unit, Gives (do
        let _ ← advance
        return Expr.binary .pow base (← g.power)) Expr.Sealed := by
      refine fun _ => .step fun _ => hg.power.bind fun e he => .pure ?_
      exact sealed_of_operands rfl rfl (by simp [Expr.operands, hbase, he])
    dsimp only
    split
    · exact .step hpower
    · exact hpower ()
  · exact .pure hbase

theorem chainHere (tier : Nat) {left : Expr} (hleft : left.Sealed) :
    Gives (g.chainHere tier left) Expr.Sealed := by
  refine .step fun token => ?_
  split
  · exact .pure hleft
  · exact .step fun _ => (hg.operand tier).bind fun right hright =>
      hg.chain tier (sealed_joined hleft hright)

theorem tiers (tier : Nat) : Gives (g.tiers tier) Expr.Sealed := by
  induction tier with
  | zero => exact hg.exponent
  | succ tier ih => exact ih.bind fun left hleft => hg.chainHere tier hleft

theorem conditional : Gives g.conditional Expr.Sealed := by
  refine (hg.tiers tierCount).bind fun test htest => .step fun b => ?_
  split
  · refine hg.assignment.bind fun consequent hconsequent => .step fun _ =>
      hg.assignment.bind fun alternate halternate => .pure (sealed_of_operands rfl rfl ?_)
    simp [Expr.operands, htest, hconsequent, halternate]
  · exact .pure htest

theorem assignmentHere : Gives g.assignmentHere Expr.Sealed := by
  refine hg.conditional.bind fun target htarget => .step fun token => ?_
  split
  · exact .pure htarget
  · refine .step fun _ => .step fun _ => hg.assignment.bind fun value hvalue =>
      .pure (sealed_of_operands rfl rfl ?_)
    simp [Expr.operands, htarget, hvalue]

/-! #### Statements -/

theorem block : Gives g.block (Stmt.All Stmt.Seals) := by
  refine .step fun _ => .step fun s => ?_
  refine (Gives.fueled (Gives.itemsUntil (F := Stmt.All Stmt.Seals) ?_)).bind
    fun statements hstatements => .step fun _ => .step fun _ =>
      .pure (Stmt.all_block.2 ⟨nofun, hstatements⟩)
  refine .step fun b => ?_
  dsimp only
  split
  · exact .step fun _ => hg.statement
  · exact hg.statement

theorem ifStatement : Gives g.ifStatement (Stmt.All Stmt.Seals) := by
  refine .step fun _ => .step fun _ => hg.assignment.bind fun test htest => .step fun _ =>
    hg.statement.bind fun consequent hconsequent => .step fun b => ?_
  have hhere (alternate : Option Stmt) : (Stmt.conditional test consequent alternate).Seals :=
    List.forall_mem_singleton.2 htest
  split
  · refine .step fun _ => hg.statement.bind fun alternate halternate => .pure ?_
    exact Stmt.all_conditional.2 ⟨hhere _, hconsequent, fun s hs => by cases hs; exact halternate⟩
  · exact .pure (Stmt.all_conditional.2 ⟨hhere _, hconsequent, nofun⟩)

theorem returnStatement : Gives g.returnStatement (Stmt.All Stmt.Seals) := by
  refine .step fun _ => .step fun token => ?_
  split
  · exact .step fun _ => .pure (Stmt.all_returns.2 nofun)
  · exact hg.assignment.bind fun value hvalue => .step fun _ =>
      .pure (Stmt.all_returns.2 (List.forall_mem_singleton.2 hvalue))

theorem initializer (constant : Bool) (place : List Char) :
    Gives (g.initializer constant place) fun init => ∀ e ∈ init, e.Sealed := by
  refine .step fun b => ?_
  split
  · exact hg.assignment.bind fun e he => .pure (by rintro _ ⟨⟩; exact he)
  · dsimp only
    split
    · exact .step fun _ => .pure nofun
    · exact .pure nofun

theorem declarator (constant : Bool) :
    Gives (g.declarator constant) fun d => ∀ e ∈ d.2, e.Sealed := by
  refine .step fun token => ?_
  split
  · have hrest :
        Gives (g.initializer constant token.place) fun init => ∀ e ∈ init, e.Sealed :=
      hg.initializer constant token.place
    dsimp only
    split
    · exact .step fun _ => hrest.bind fun init hinit => .step fun _ => .step fun _ => .pure hinit
    · exact hrest.bind fun init hinit => .step fun _ => .step fun _ => .pure hinit
  · exact meets_faultAt _ _

theorem declaration : Gives g.declaration (Stmt.All Stmt.Seals) := by
  refine .step fun constant => .step fun _ =>
    (Gives.fueled (Gives.separatedByComma (hg.declarator constant))).bind
      fun declarators hdeclarators => .step fun _ => .pure (Stmt.all_declare.2 fun e he => ?_)
  obtain ⟨d, hd, he⟩ := List.mem_filterMap.1 he
  exact hdeclarators d hd e he

theorem statementHere : Gives g.statementHere (Stmt.All Stmt.Seals) := by
  refine .step fun b => ?_
  split
  · exact .pure (Stmt.all_empty.2 nofun)
  · refine .step fun token => ?_
    split
    · exact hg.block
    · exact hg.ifStatement
    · exact hg.returnStatement
    · exact hg.declaration
    · exact hg.declaration
    · exact hg.declaration
    · exact hg.assignment.bind fun e he => .step fun _ =>
        .pure (Stmt.all_expression.2 (List.forall_mem_singleton.2 he))

/-- The parsers of a deeper level give sealed expressions if those inside them do. -/
theorem deeper : g.deeper.Seals where
  statement := hg.statementHere
  assignment := hg.assignmentHere
  unary := hg.unaryHere
  power := hg.exponent
  operand := hg.tiers
  chain tier _ hleft := hg.chainHere tier hleft
  link he := hg.linkHere he

end Grammar.Seals

theorem seals_grammar (levels : Nat) : (grammar levels).Seals := by
  induction levels with
  | zero => exact seals_exhausted
  | succ levels ih => exact ih.deeper

/-! ### Programs -/

/-- The expressions of a program. -/
def Body.expressions : Body → List Expr
  | .expression e => [e]
  | .statements list => (partsOf list).flatMap Stmt.expressions

theorem forall_mem_expressions {statements : List Stmt} {P : Expr → Prop} :
    (∀ e ∈ (Body.statements statements).expressions, P e) ↔
      ∀ s ∈ statements, s.All fun x => ∀ e ∈ x.expressions, P e := by
  rw [Body.expressions, List.forall_mem_flatMap, Stmt.forall_mem_partsOf]

/-- The expressions of a program are sealed. -/
theorem sealed_of_parse {source : String} {params : List String} {mode : Mode}
    {program : Program} (h : parse source params mode = .ok program) :
    ∀ e ∈ program.body.expressions, e.Sealed := by
  obtain ⟨tokens, finish, -, hrun, -⟩ := parse_eq_ok h
  have hwhole : Gives (wholeText mode) fun body => ∀ e ∈ body.expressions, e.Sealed := by
    cases mode with
    | expression =>
      refine (seals_grammar maxNesting).assignment.bind fun e he => .step fun b => ?_
      have hbody : ∀ e' ∈ (Body.expression e).expressions, e'.Sealed :=
        List.forall_mem_singleton.2 he
      dsimp only
      split
      · exact .pure hbody
      · exact .step fun _ => .pure hbody
    | statement =>
      exact (Gives.fueled (Gives.itemsUntil (seals_grammar maxNesting).statement)).bind
        fun _ hstatements => .pure (forall_mem_expressions.2 hstatements)
  exact hwhole _ _ _ trivial hrun

end LiveMarkup.Syntax
