import LiveMarkup.Proofs.ParserResults
import Mathlib.Tactic.Ring

/-!
# How tall a parsed tree can be

Every operator of a chain and every link of members and calls opens a level for what comes after it
in the chain, and gives the level back where the chain ends.  What comes before it has been parsed
by then, with all levels to itself.  So the levels of a left operand and those of the chain it
begins do not add up against the limit, while the heights of the trees do: the tree of a text can be
taller than the limit.

It cannot be arbitrarily tall.  One more level adds to an expression at most a chain of as many
operators as there are levels in each tier, and to an operand at most as many links; so the height
is at most quadratic in the limit.

## Main definitions

* `Expr.height`, `Stmt.height`, `Body.height` — the most operators, links, literals of several parts
  and statements one inside another.
* `heightBound` — how tall an expression can be that is parsed with so many levels left.
* `Grammar.Bounded` — the parsers of a grammar keep to the bounds.

## Main results

* `bounded_grammar` — every grammar keeps to its bounds, by induction on its levels.
* `height_le_of_parse` — the tree of a text is at most quadratically taller than the limit.
* `height_exceeds_maxNesting` — a text whose tree is taller than the limit.
-/

namespace LiveMarkup.Syntax

/-! ### Heights -/

mutual

/-- The most operators, links and literals of several parts one inside another. -/
@[simp] def Expr.height : Expr → Nat
  | .literal _ | .param .. | .declared .. | .global _ | .unbound _ => 0
  | .array items => heights items + 1
  | .object properties => propertyHeights properties + 1
  | .member object _ _ => object.height + 1
  | .index object key _ => max object.height key.height + 1
  | .call callee args _ => max callee.height (heights args) + 1
  | .optionalChain chain => chain.height + 1
  | .unary _ operand => operand.height + 1
  | .binary _ left right => max left.height right.height + 1
  | .logical _ left right => max left.height right.height + 1
  | .conditional test consequent alternate =>
    max test.height (max consequent.height alternate.height) + 1
  | .assign _ target value => max target.height value.height + 1
  | .update _ _ target => target.height + 1

/-- The height of the tallest of several expressions. -/
def heights : List Expr → Nat
  | [] => 0
  | e :: rest => max e.height (heights rest)

/-- The height of the tallest value of several properties. -/
def propertyHeights : List (String × Expr) → Nat
  | [] => 0
  | (_, e) :: rest => max e.height (propertyHeights rest)

end

/-- The height of an expression that may be missing. -/
def optionHeight (e : Option Expr) : Nat := e.elim 0 Expr.height

/-- The height of the tallest first value of a declaration. -/
def declaratorHeights : List (Nat × Option Expr) → Nat
  | [] => 0
  | (_, init) :: rest => max (optionHeight init) (declaratorHeights rest)

mutual

/-- The most statements, operators, links and literals of several parts one inside another. -/
@[simp] def Stmt.height : Stmt → Nat
  | .empty => 0
  | .expression e => e.height + 1
  | .block statements => statementHeights statements + 1
  | .declare declarators => declaratorHeights declarators + 1
  | .conditional test consequent alternate =>
    max test.height (max consequent.height (alternateHeight alternate)) + 1
  | .returns value => optionHeight value + 1

/-- The height of the tallest of several statements. -/
def statementHeights : List Stmt → Nat
  | [] => 0
  | s :: rest => max s.height (statementHeights rest)

/-- The height of a statement that may be missing. -/
def alternateHeight : Option Stmt → Nat
  | none => 0
  | some s => s.height

end

/-- The height of what a text says to do. -/
def Body.height : Body → Nat
  | .expression e => e.height
  | .statements ss => statementHeights ss

theorem heights_le {h : Nat} {items : List Expr} (hall : ∀ e ∈ items, e.height ≤ h) :
    heights items ≤ h := by
  induction items with
  | nil => simp [heights]
  | cons e rest ih =>
    obtain ⟨he, hrest⟩ := List.forall_mem_cons.1 hall
    exact max_le he (ih hrest)

theorem propertyHeights_le {h : Nat} {properties : List (String × Expr)}
    (hall : ∀ p ∈ properties, p.2.height ≤ h) : propertyHeights properties ≤ h := by
  induction properties with
  | nil => simp [propertyHeights]
  | cons p rest ih =>
    obtain ⟨hp, hrest⟩ := List.forall_mem_cons.1 hall
    exact max_le hp (ih hrest)

theorem declaratorHeights_le {h : Nat} {declarators : List (Nat × Option Expr)}
    (hall : ∀ d ∈ declarators, optionHeight d.2 ≤ h) : declaratorHeights declarators ≤ h := by
  induction declarators with
  | nil => simp [declaratorHeights]
  | cons d rest ih =>
    obtain ⟨hd, hrest⟩ := List.forall_mem_cons.1 hall
    exact max_le hd (ih hrest)

theorem statementHeights_le {h : Nat} {statements : List Stmt}
    (hall : ∀ s ∈ statements, s.height ≤ h) : statementHeights statements ≤ h := by
  induction statements with
  | nil => simp [statementHeights]
  | cons s rest ih =>
    obtain ⟨hs, hrest⟩ := List.forall_mem_cons.1 hall
    exact max_le hs (ih hrest)

theorem height_join (joint : Joint) (left right : Expr) :
    (joint.join left right).height = max left.height right.height + 1 := by
  cases joint <;> simp only [Joint.join, Expr.height]

/-- A name is resolved to a leaf. -/
theorem height_resolve (s : ParserState) (name : String) : (s.resolve name).height = 0 := by
  unfold ParserState.resolve
  split
  · simp only [Expr.height]
  · split
    · simp only [Expr.height]
    · split
      · simp only [Expr.height]
      · split <;> simp only [Expr.height]

/-! ### Bounds -/

/-- How tall an operand can be, with its unary operators and links. -/
def operandBound (levels : Nat) : Nat := 2 * levels ^ 2 + 3 * levels

/-- How tall an expression or a statement can be. -/
def heightBound (levels : Nat) : Nat := 2 * levels ^ 2 + 6 * levels + 2

/-- How tall a power can be. -/
def powerBound : Nat → Nat
  | 0 => 0
  | levels + 1 => operandBound levels + 1

theorem operandBound_succ (n : Nat) : operandBound (n + 1) = heightBound n + n + 3 := by
  unfold operandBound heightBound
  ring

theorem heightBound_succ (n : Nat) : heightBound (n + 1) = operandBound n + 7 * n + 10 := by
  unfold operandBound heightBound
  ring

theorem operandBound_le_heightBound (n : Nat) : operandBound n + 2 ≤ heightBound n := by
  unfold operandBound heightBound
  omega

theorem powerBound_le (n : Nat) : powerBound n ≤ operandBound n := by
  cases n with
  | zero => simp [powerBound]
  | succ n =>
    have hsucc := operandBound_succ n
    have hle := operandBound_le_heightBound n
    simp only [powerBound]
    omega

theorem heightBound_le_succ (n : Nat) : heightBound n + 2 ≤ heightBound (n + 1) := by
  unfold heightBound
  ring_nf
  omega

/-- The parsers of a grammar with so many levels left keep to the bounds.  What goes on with a chain
is bounded by what it is given: it adds at most one for each level. -/
structure Grammar.Bounded (n : Nat) (g : Grammar) : Prop where
  statement : Gives g.statement fun s => s.height ≤ heightBound n
  assignment : Gives g.assignment fun e => e.height ≤ heightBound n
  unary : Gives g.unary fun e => e.height ≤ operandBound n
  power : Gives g.power fun e => e.height ≤ powerBound n
  operand (tier : Nat) : Gives (g.operand tier) fun e => e.height ≤ powerBound n + tier * n
  chain (tier h : Nat) (left : Expr) (hleft : left.height ≤ h)
    (htier : powerBound n + tier * n ≤ h) : Gives (g.chain tier left) fun e => e.height ≤ h + n
  link (optional : Bool) (h : Nat) (e : Expr) (he : e.height ≤ h) (hh : heightBound n ≤ h) :
    Gives (g.link optional e) fun e => e.height ≤ h + n + 1

theorem bounded_exhausted : Grammar.exhausted.Bounded 0 where
  statement := meets_faultHere _
  assignment := meets_faultHere _
  unary := meets_faultHere _
  power := meets_faultHere _
  operand _ := meets_faultHere _
  chain _ _ _ _ _ := meets_faultHere _
  link _ _ _ _ _ := meets_faultHere _

namespace Grammar.Bounded

variable {n : Nat} {g : Grammar} (hg : g.Bounded n)

/-! #### Primary expressions -/

theorem resolve (name : String) : Gives (Syntax.resolve name) fun e => e.height = 0 :=
  .step fun s => .pure (height_resolve s name)

include hg

theorem arrayLiteral : Gives g.arrayLiteral fun e => e.height ≤ heightBound n + 1 :=
  (Gives.fueled (Gives.arrayItems hg.assignment (Nat.zero_le _))).bind fun items hitems =>
    .step fun _ => .pure <| by
      have := heights_le hitems
      simp only [Expr.height]
      omega

theorem propertyValue : Gives g.propertyValue fun e => e.height ≤ heightBound n :=
  .step fun _ => hg.assignment

theorem property : Gives g.property fun p => p.2.height ≤ heightBound n := by
  refine .step fun token => ?_
  split
  · next key _ =>
    refine .step fun b => ?_
    split
    · exact hg.propertyValue.bind fun e he => .pure he
    · dsimp only
      split
      · exact .step fun _ => (resolve key).bind fun e he => .pure (he ▸ Nat.zero_le _)
      · exact (resolve key).bind fun e he => .pure (he ▸ Nat.zero_le _)
  · exact hg.propertyValue.bind fun e he => .pure he
  · exact hg.propertyValue.bind fun e he => .pure he
  · exact meets_faultAt _ _

theorem objectLiteral : Gives g.objectLiteral fun e => e.height ≤ heightBound n + 1 :=
  (Gives.fueled (Gives.commaSeparated hg.property)).bind fun properties hproperties =>
    .step fun _ => .pure <| by
      have := propertyHeights_le hproperties
      simp only [Expr.height]
      omega

omit hg in
theorem word (place : List Char) (name : String) :
    Gives (Grammar.word place name) fun e => e.height = 0 := by
  unfold Grammar.word
  split
  · exact .pure (by simp only [Expr.height])
  · exact .pure (by simp only [Expr.height])
  · exact .pure (by simp only [Expr.height])
  · split
    · exact meets_faultAt _ _
    · exact resolve name

theorem primary : Gives g.primary fun e => e.height ≤ heightBound n + 1 := by
  refine .step fun token => ?_
  split
  · exact .pure (by simp only [Expr.height, Nat.zero_le])
  · exact .pure (by simp only [Expr.height, Nat.zero_le])
  · exact (word _ _).post fun e he => by omega
  · exact hg.assignment.bind fun e he => .step fun _ => .pure (by omega)
  · exact hg.arrayLiteral
  · exact hg.objectLiteral
  · exact meets_faultAt _ _

/-! #### Chains of members and calls -/

theorem arguments : Gives g.arguments fun args => heights args ≤ heightBound n :=
  .step fun _ => (Gives.fueled (Gives.commaSeparated hg.assignment)).bind fun _ hargs =>
    .step fun _ => .pure (heights_le hargs)

theorem bracketed : Gives g.bracketed fun e => e.height ≤ heightBound n :=
  hg.assignment.bind fun _ he => .step fun _ => .pure he

section Links

variable {h : Nat} {e : Expr} (he : e.height ≤ h) (hh : heightBound n ≤ h)

include he hh

theorem optionalLink : Gives (g.optionalLink e) fun e => e.height ≤ h + 1 := by
  refine .step fun token => ?_
  split
  · refine hg.arguments.bind fun args hargs => .pure ?_
    simp only [Expr.height]
    omega
  · refine .step fun _ => hg.bracketed.bind fun key hkey => .pure ?_
    simp only [Expr.height]
    omega
  · refine .step fun name => .pure ?_
    simp only [Expr.height]
    omega

theorem links (optional : Bool) : Gives (g.links optional e) fun e => e.height ≤ h + n + 1 := by
  refine .step fun token => ?_
  split
  · exact hg.link optional h e he hh
  · refine .pure ?_
    split
    · simp only [Expr.height]
      omega
    · omega

theorem linkHere (optional : Bool) :
    Gives (g.linkHere optional e) fun e => e.height ≤ h + 1 + n + 1 := by
  have hh' : heightBound n ≤ h + 1 := by omega
  refine .step fun token => ?_
  split
  · refine .step fun _ => .step fun name => hg.links ?_ hh' optional
    simp only [Expr.height]
    omega
  · exact .step fun _ => (hg.optionalLink he hh).bind fun e he => hg.links he hh' true
  · refine .step fun _ => hg.bracketed.bind fun key hkey => hg.links ?_ hh' optional
    simp only [Expr.height]
    omega
  · refine hg.arguments.bind fun args hargs => hg.links ?_ hh' optional
    simp only [Expr.height]
    omega

end Links

theorem callMember : Gives g.callMember fun e => e.height ≤ heightBound n + 1 + n + 1 :=
  hg.primary.bind fun _ he => hg.links he (by omega) false

/-! #### Operators -/

theorem postfixed : Gives g.postfixed fun e => e.height ≤ operandBound (n + 1) := by
  have hsucc := operandBound_succ n
  refine hg.callMember.bind fun e he => .step fun token => ?_
  split
  · exact .pure (by omega)
  · split
    · exact .pure (by omega)
    · refine .step fun _ => .step fun _ => .pure ?_
      simp only [Expr.height]
      omega

theorem unaryHere : Gives g.unaryHere fun e => e.height ≤ operandBound (n + 1) := by
  have hsucc := operandBound_succ n
  have hle := operandBound_le_heightBound n
  refine .step fun token => ?_
  split
  · refine .step fun _ => hg.unary.bind fun e he => .step fun _ => .pure ?_
    simp only [Expr.height]
    omega
  · split
    · refine .step fun _ => hg.unary.bind fun e he => .pure ?_
      simp only [Expr.height]
      omega
    · exact hg.postfixed

theorem exponent : Gives g.exponent fun e => e.height ≤ powerBound (n + 1) := by
  have hle := powerBound_le n
  simp only [powerBound]
  refine hg.unary.bind fun base hbase => .step fun b => ?_
  split
  · have hpower : ∀ u : Unit, Gives (do
        let _ ← advance
        return Expr.binary .pow base (← g.power)) fun e => e.height ≤ operandBound n + 1 := by
      refine fun _ => .step fun _ => hg.power.bind fun e he => .pure ?_
      simp only [Expr.height]
      omega
    dsimp only
    split
    · exact .step hpower
    · exact hpower ()
  · exact .pure (by omega)

theorem chainHere {tier h : Nat} {left : Expr} (hleft : left.height ≤ h)
    (htier : powerBound n + tier * n ≤ h) :
    Gives (g.chainHere tier left) fun e => e.height ≤ h + (n + 1) := by
  refine .step fun token => ?_
  split
  · exact .pure (by omega)
  · refine .step fun _ => (hg.operand tier).bind fun right hright => ?_
    refine (hg.chain tier (h + 1) _ ?_ (by omega)).post fun e he => by omega
    rw [height_join]
    omega

omit hg in
theorem tier_le (tier n : Nat) : powerBound n + tier * n ≤ powerBound (n + 1) + tier * (n + 1) := by
  have hle := powerBound_le n
  rw [Nat.mul_succ, powerBound]
  omega

theorem tiers (tier : Nat) :
    Gives (g.tiers tier) fun e => e.height ≤ powerBound (n + 1) + tier * (n + 1) := by
  induction tier with
  | zero =>
    simp only [Nat.zero_mul, Nat.add_zero]
    exact hg.exponent
  | succ tier ih =>
    refine ih.bind fun left hleft => (hg.chainHere hleft (tier_le tier n)).post fun e he => ?_
    rw [Nat.succ_mul]
    omega

theorem conditional : Gives g.conditional fun e => e.height + 1 ≤ heightBound (n + 1) := by
  have hsucc := heightBound_succ n
  have hmono := heightBound_le_succ n
  refine (hg.tiers tierCount).bind fun test htest => .step fun b => ?_
  simp only [tierCount, powerBound] at htest
  split
  · refine hg.assignment.bind fun consequent hconsequent => .step fun _ =>
      hg.assignment.bind fun alternate halternate => .pure ?_
    simp only [Expr.height]
    omega
  · exact .pure (by omega)

theorem assignmentHere : Gives g.assignmentHere fun e => e.height ≤ heightBound (n + 1) := by
  have hmono := heightBound_le_succ n
  refine hg.conditional.bind fun target htarget => .step fun token => ?_
  split
  · exact .pure (by omega)
  · refine .step fun _ => .step fun _ => hg.assignment.bind fun value hvalue => .pure ?_
    simp only [Expr.height]
    omega

/-! #### Statements -/

theorem block : Gives g.block fun s => s.height ≤ heightBound n + 1 := by
  refine .step fun _ => .step fun s => ?_
  refine (Gives.fueled (Gives.itemsUntil (F := fun s => s.height ≤ heightBound n) ?_)).bind
    fun statements hstatements => .step fun _ => .step fun _ => .pure ?_
  · refine .step fun b => ?_
    dsimp only
    split
    · exact .step fun _ => hg.statement
    · exact hg.statement
  · have := statementHeights_le hstatements
    simp only [Stmt.height]
    omega

theorem ifStatement : Gives g.ifStatement fun s => s.height ≤ heightBound n + 1 := by
  refine .step fun _ => .step fun _ => hg.assignment.bind fun test htest => .step fun _ =>
    hg.statement.bind fun consequent hconsequent => .step fun b => ?_
  split
  · refine .step fun _ => hg.statement.bind fun alternate halternate => .pure ?_
    simp only [Stmt.height, alternateHeight]
    omega
  · refine .pure ?_
    simp only [Stmt.height, alternateHeight]
    omega

theorem returnStatement : Gives g.returnStatement fun s => s.height ≤ heightBound n + 1 := by
  refine .step fun _ => .step fun token => ?_
  split
  · exact .step fun _ => .pure (by simp [Stmt.height, optionHeight])
  · refine hg.assignment.bind fun value hvalue => .step fun _ => .pure ?_
    simp only [Stmt.height, optionHeight, Option.elim]
    omega

theorem initializer (constant : Bool) (place : List Char) :
    Gives (g.initializer constant place) fun e => optionHeight e ≤ heightBound n := by
  refine .step fun b => ?_
  split
  · exact hg.assignment.bind fun e he => .pure he
  · dsimp only
    split
    · exact .step fun _ => .pure (Nat.zero_le _)
    · exact .pure (Nat.zero_le _)

theorem declarator (constant : Bool) :
    Gives (g.declarator constant) fun d => optionHeight d.2 ≤ heightBound n := by
  refine .step fun token => ?_
  split
  · have hrest :
        Gives (g.initializer constant token.place) fun e => optionHeight e ≤ heightBound n :=
      hg.initializer constant token.place
    dsimp only
    split
    · exact .step fun _ => hrest.bind fun init hinit => .step fun _ => .step fun _ => .pure hinit
    · exact hrest.bind fun init hinit => .step fun _ => .step fun _ => .pure hinit
  · exact meets_faultAt _ _

theorem declaration : Gives g.declaration fun s => s.height ≤ heightBound n + 1 := by
  refine .step fun constant => .step fun _ =>
    (Gives.fueled (Gives.separatedByComma (hg.declarator constant))).bind
      fun declarators hdeclarators => .step fun _ => .pure ?_
  have := declaratorHeights_le hdeclarators
  simp only [Stmt.height]
  omega

theorem expressionStatement : Gives g.expressionStatement fun s => s.height ≤ heightBound n + 1 :=
  hg.assignment.bind fun e he => .step fun _ => .pure <| by
    simp only [Stmt.height]
    omega

theorem statementHere : Gives g.statementHere fun s => s.height ≤ heightBound (n + 1) := by
  have hmono := heightBound_le_succ n
  refine Gives.post (F := fun s => s.height ≤ heightBound n + 1) ?_ fun s hs => by omega
  refine .step fun b => ?_
  split
  · exact .pure (by simp only [Stmt.height, Nat.zero_le])
  · refine .step fun token => ?_
    split
    · exact hg.block
    · exact hg.ifStatement
    · exact hg.returnStatement
    · exact hg.declaration
    · exact hg.declaration
    · exact hg.declaration
    · exact hg.expressionStatement

/-- One more level keeps to the next bounds. -/
theorem deeper : g.deeper.Bounded (n + 1) where
  statement := hg.statementHere
  assignment := hg.assignmentHere
  unary := hg.unaryHere
  power := hg.exponent
  operand := hg.tiers
  chain tier h left hleft htier := hg.chainHere hleft ((tier_le tier n).trans htier)
  link optional h e he hh :=
    (hg.linkHere he ((Nat.le_of_add_right_le (heightBound_le_succ n)).trans hh) optional).post
      fun _ he => by omega

end Grammar.Bounded

/-- Every grammar keeps to the bounds for its levels. -/
theorem bounded_grammar (levels : Nat) : (grammar levels).Bounded levels := by
  induction levels with
  | zero => exact bounded_exhausted
  | succ levels ih => exact ih.deeper

/-! ### Programs -/

theorem gives_wholeExpression (levels : Nat) :
    Gives (wholeExpression levels) fun body => body.height ≤ heightBound levels := by
  refine (bounded_grammar levels).assignment.bind fun e he => .step fun b => ?_
  dsimp only
  split
  · exact .pure he
  · exact .step fun _ => .pure he

theorem gives_wholeStatements (levels : Nat) :
    Gives (wholeStatements levels) fun body => body.height ≤ heightBound levels :=
  (Gives.fueled (Gives.itemsUntil (bounded_grammar levels).statement)).bind
    fun _ hstatements => .pure (statementHeights_le hstatements)

/-- The tree of a text is at most quadratically taller than the nesting limit: an evaluator that
goes down the tree goes no deeper than that, whatever the text. -/
theorem height_le_of_parse {source : String} {params : List String} {mode : Mode}
    {program : Program} (h : parse source params mode = .ok program) :
    program.body.height ≤ 2 * maxNesting ^ 2 + 6 * maxNesting + 2 := by
  obtain ⟨tokens, finish, -, hrun, -⟩ := parse_eq_ok h
  cases mode with
  | expression => exact gives_wholeExpression maxNesting _ _ _ trivial hrun
  | statement => exact gives_wholeStatements maxNesting _ _ _ trivial hrun

theorem negation_height_le :
    parse "-a" ["a"] .expression = .ok ⟨.expression (.unary .negate (.param 0 "a")), 1⟩ ∧
      (Body.expression (.unary .negate (.param 0 "a"))).height ≤
        2 * maxNesting ^ 2 + 6 * maxNesting + 2 :=
  have h :
      parse "-a" ["a"] .expression = .ok ⟨.expression (.unary .negate (.param 0 "a")), 1⟩ := rfl
  ⟨h, height_le_of_parse h⟩

/-- A name, negated 65 times, with a chain of 64 choices after it. -/
def tallText : List Char :=
  List.replicate 65 '!' ++ 'a' :: (List.replicate 64 ['|', '|', 'a']).flatten

/-- Negations are parsed before the chain that they begin, and give their levels back; so neither
they nor the choices come near the limit, and the tree is taller than it. -/
theorem height_exceeds_maxNesting :
    ((parse (String.ofList tallText) ["a"] .expression).toOption.map fun program =>
      program.body.height) = some (maxNesting + 1) := by
  rw [parse, tokenize, String.toList_ofList]
  decide +kernel

end LiveMarkup.Syntax
