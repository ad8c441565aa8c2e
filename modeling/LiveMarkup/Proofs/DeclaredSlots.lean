import LiveMarkup.Proofs.ParserResults

/-!
# Where variables have their slots

The slots of the parameters come first.  The parser begins to number the variables of a text after
them, and no parser takes a number back; so no declaration of a program fills the slot of a
parameter.

## Main definitions

* `Stmt.parts`, `Stmt.All` — the statements inside a statement, and what holds of all of them.
* `Stmt.expressions` — the expressions of a statement.
* `Stmt.DeclaresFrom` — a declaration that fills no slot before a given one.
* `Numbers` — a parser that takes no number of a slot back.

## Main results

* `numbers_grammar` — the parsers of every grammar take none back.
* `slots_of_parse` — the declarations of a program come after its parameters.
-/

namespace LiveMarkup.Syntax

/-! ### Parts of statements -/

mutual

/-- A statement with all statements inside it. -/
def Stmt.parts : Stmt → List Stmt
  | .empty => [.empty]
  | .expression e => [.expression e]
  | .block statements => .block statements :: partsOf statements
  | .declare declarators => [.declare declarators]
  | .conditional test consequent alternate =>
    .conditional test consequent alternate :: (consequent.parts ++ partsOfOption alternate)
  | .returns value => [.returns value]

/-- Several statements with all statements inside them. -/
def partsOf : List Stmt → List Stmt
  | [] => []
  | s :: rest => s.parts ++ partsOf rest

/-- A statement that may be missing, with all statements inside it. -/
def partsOfOption : Option Stmt → List Stmt
  | none => []
  | some s => s.parts

end

/-- The expressions of a statement, without those of the statements inside it. -/
def Stmt.expressions : Stmt → List Expr
  | .empty | .block _ => []
  | .expression e => [e]
  | .declare declarators => declarators.filterMap Prod.snd
  | .conditional test _ _ => [test]
  | .returns value => value.toList

namespace Stmt

/-- The property holds of a statement and of every statement inside it. -/
def All (P : Stmt → Prop) (s : Stmt) : Prop := ∀ x ∈ s.parts, P x

variable {P : Stmt → Prop}

theorem forall_mem_partsOf {statements : List Stmt} :
    (∀ x ∈ partsOf statements, P x) ↔ ∀ s ∈ statements, s.All P := by
  induction statements with
  | nil => simp [partsOf]
  | cons s rest ih =>
    rw [partsOf, List.forall_mem_append, ih, List.forall_mem_cons]
    rfl

theorem all_empty : Stmt.empty.All P ↔ P .empty := by simp [All, parts]

theorem all_expression {e : Expr} : (Stmt.expression e).All P ↔ P (.expression e) := by
  simp [All, parts]

theorem all_block {statements : List Stmt} :
    (Stmt.block statements).All P ↔ P (.block statements) ∧ ∀ s ∈ statements, s.All P := by
  rw [← forall_mem_partsOf, All, parts, List.forall_mem_cons]

theorem all_declare {declarators : List (Nat × Option Expr)} :
    (Stmt.declare declarators).All P ↔ P (.declare declarators) := by
  simp [All, parts]

theorem all_conditional {test : Expr} {consequent : Stmt} {alternate : Option Stmt} :
    (Stmt.conditional test consequent alternate).All P ↔
      P (.conditional test consequent alternate) ∧ consequent.All P ∧
        ∀ s ∈ alternate, s.All P := by
  rw [All, parts, List.forall_mem_cons, List.forall_mem_append, All]
  cases alternate <;> simp [partsOfOption, All]

theorem all_returns {value : Option Expr} : (Stmt.returns value).All P ↔ P (.returns value) := by
  simp [All, parts]

/-- A declaration fills no slot before `n`. -/
def DeclaresFrom (n : Nat) : Stmt → Prop
  | .declare declarators => ∀ d ∈ declarators, n ≤ d.1
  | _ => True

end Stmt

/-- The property holds of every statement inside. -/
def Body.All (P : Stmt → Prop) : Body → Prop
  | .expression _ => True
  | .statements list => ∀ s ∈ list, s.All P

/-! ### Parsers -/

variable {α β : Type} {n : Nat}

/-- From a state whose next slot is `n` or a later one, the parser gives only results with `F`, in
such a state again. -/
def Numbers (n : Nat) (p : Parser α) (F : α → Prop) : Prop :=
  Meets (fun s => n ≤ s.nextSlot) p fun x s => F x ∧ n ≤ s.nextSlot

/-- A parser that takes no number back. -/
abbrev Keeps (n : Nat) (p : Parser α) : Prop := Numbers n p fun _ => True

theorem nextSlot_skip (s : ParserState) : s.skip.nextSlot = s.nextSlot := by
  unfold ParserState.skip
  split
  · split <;> rfl
  · rfl

/-- The next slot is `n` or a later one. -/
def Invariant.slotsFrom (n : Nat) : Invariant where
  Holds s := n ≤ s.nextSlot
  skip s hs := (nextSlot_skip s).symm ▸ hs

namespace Numbers

variable {F F' : α → Prop} {G : β → Prop} {p : Parser α} {k : α → Parser β}

theorem post (h : Numbers n p F) (hF : ∀ x, F x → F' x) : Numbers n p F' :=
  Maintains.post (I := .slotsFrom n) h hF

theorem pure {x : α} (h : F x) : Numbers n (Pure.pure x) F := Maintains.pure (I := .slotsFrom n) h

theorem bind (h : Numbers n p F) (hk : ∀ x, F x → Numbers n (k x) G) : Numbers n (p >>= k) G :=
  Maintains.bind (I := .slotsFrom n) h hk

/-- A step about whose result nothing is needed. -/
theorem step (h : Keeps n p) (hk : ∀ x, Numbers n (k x) G) : Numbers n (p >>= k) G :=
  h.bind fun x _ => hk x

theorem get : Keeps n (MonadState.get : Parser ParserState) :=
  Maintains.post (I := .slotsFrom n) .get fun _ _ => trivial

theorem peek : Keeps n Syntax.peek := Maintains.peek (I := .slotsFrom n) fun _ _ => trivial

theorem advance : Keeps n Syntax.advance :=
  Maintains.advance (I := .slotsFrom n) fun _ _ => trivial

theorem atSymbol (symbol : Symbol) : Keeps n (Syntax.atSymbol symbol) :=
  Maintains.atSymbol (I := .slotsFrom n) symbol

theorem atWord (word : String) : Keeps n (Syntax.atWord word) :=
  Meets.post .atWord fun _ _ hs => ⟨trivial, hs.2⟩

theorem atFinish : Keeps n Syntax.atFinish := Maintains.atFinish (I := .slotsFrom n)

theorem eat (symbol : Symbol) : Keeps n (Syntax.eat symbol) :=
  Maintains.eat (I := .slotsFrom n) symbol

theorem expect (symbol : Symbol) : Keeps n (Syntax.expect symbol) :=
  Maintains.expect (I := .slotsFrom n) symbol

theorem propertyName : Keeps n Syntax.propertyName := by
  refine advance.step fun token => ?_
  split
  · exact .pure trivial
  · exact meets_faultAt _ _

theorem resolve (name : String) : Keeps n (Syntax.resolve name) :=
  .step .get fun _ => .pure trivial

theorem checkAssignable (target : Expr) (place : List Char) :
    Keeps n (Syntax.checkAssignable target place) :=
  Meets.post (.checkAssignable target place) fun _ _ hs => ⟨trivial, hs⟩

theorem terminator : Keeps n Grammar.terminator := by
  refine step (eat .semicolon) fun b => ?_
  split
  · exact .pure trivial
  · refine peek.step fun token => ?_
    split
    · exact .pure trivial
    · exact meets_faultAt _ _

variable {item : Parser α}

theorem itemsUntil {stop : Parser Bool} (hstop : Keeps n stop) (h : Numbers n item F)
    (fuel : Nat) : Numbers n (itemsUntil stop item fuel) fun xs => ∀ x ∈ xs, F x :=
  Meets.itemsUntil (Meets.post hstop fun _ _ hs => hs.2) h fuel

theorem commaSeparated {close : Symbol} (h : Numbers n item F) (fuel : Nat) :
    Numbers n (commaSeparated close item fuel) fun xs => ∀ x ∈ xs, F x :=
  Maintains.commaSeparated (I := .slotsFrom n) h fuel

theorem separatedByComma (h : Numbers n item F) (fuel : Nat) :
    Numbers n (separatedByComma item fuel) fun xs => ∀ x ∈ xs, F x :=
  Maintains.separatedByComma (I := .slotsFrom n) h fuel

theorem arrayItems {item : Parser Expr} (h : Keeps n item) (fuel : Nat) :
    Keeps n (arrayItems item fuel) :=
  have hitems := Maintains.arrayItems (I := .slotsFrom n) h trivial fuel
  hitems.post fun _ _ => trivial

theorem fueled {p : Nat → Parser α} (h : ∀ fuel, Numbers n (p fuel) F) :
    Numbers n (fueled p) F :=
  Meets.fueled h

end Numbers

/-! ### Grammars -/

/-- The parsers of a grammar take no number back, and the declarations in the statements they give
are numbered `n` or later. -/
structure Grammar.Numbers (n : Nat) (g : Grammar) : Prop where
  statement : Syntax.Numbers n g.statement fun s => s.All (Stmt.DeclaresFrom n)
  assignment : Keeps n g.assignment
  unary : Keeps n g.unary
  power : Keeps n g.power
  operand (tier : Nat) : Keeps n (g.operand tier)
  chain (tier : Nat) (left : Expr) : Keeps n (g.chain tier left)
  link (optional : Bool) (e : Expr) : Keeps n (g.link optional e)

theorem numbers_exhausted : Grammar.exhausted.Numbers n where
  statement := meets_faultHere _
  assignment := meets_faultHere _
  unary := meets_faultHere _
  power := meets_faultHere _
  operand _ := meets_faultHere _
  chain _ _ := meets_faultHere _
  link _ _ := meets_faultHere _

namespace Grammar.Numbers

variable {g : Grammar} (hg : g.Numbers n)

/-! #### Primary expressions -/

theorem word (place : List Char) (name : String) : Keeps n (Grammar.word place name) := by
  unfold Grammar.word
  split
  · exact .pure trivial
  · exact .pure trivial
  · exact .pure trivial
  · split
    · exact meets_faultAt _ _
    · exact .resolve name

include hg

theorem propertyValue : Keeps n g.propertyValue := .step (.expect .colon) fun _ => hg.assignment

theorem property : Keeps n g.property := by
  have hvalue (key : String) : Keeps n (do return (key, ← g.propertyValue)) :=
    hg.propertyValue.step fun _ => .pure trivial
  have hshort (key : String) : Keeps n (do return (key, ← Syntax.resolve key)) :=
    .step (.resolve key) fun _ => .pure trivial
  refine .step .advance fun token => ?_
  split
  · refine .step (.atSymbol .colon) fun b => ?_
    split
    · exact hvalue _
    · dsimp only
      split
      · exact .step (meets_faultAt _ _) fun _ => hshort _
      · exact hshort _
  · exact hvalue _
  · exact hvalue _
  · exact meets_faultAt _ _

theorem primary : Keeps n g.primary := by
  refine .step .advance fun token => ?_
  split
  · exact .pure trivial
  · exact .pure trivial
  · exact word _ _
  · exact hg.assignment.step fun _ => .step (.expect .rightParen) fun _ => .pure trivial
  · exact .step (.fueled (.arrayItems hg.assignment)) fun _ =>
      .step (.expect .rightBracket) fun _ => .pure trivial
  · exact .bind (.fueled (.commaSeparated hg.property)) fun _ _ =>
      .step (.expect .rightBrace) fun _ => .pure trivial
  · exact meets_faultAt _ _

/-! #### Chains of members and calls -/

theorem arguments : Keeps n g.arguments :=
  .step (.expect .leftParen) fun _ => .bind (.fueled (.commaSeparated hg.assignment)) fun _ _ =>
    .step (.expect .rightParen) fun _ => .pure trivial

theorem bracketed : Keeps n g.bracketed :=
  hg.assignment.step fun _ => .step (.expect .rightBracket) fun _ => .pure trivial

theorem optionalLink (e : Expr) : Keeps n (g.optionalLink e) := by
  refine .step .peek fun token => ?_
  split
  · exact hg.arguments.step fun _ => .pure trivial
  · exact .step .advance fun _ => hg.bracketed.step fun _ => .pure trivial
  · exact .step .propertyName fun _ => .pure trivial

theorem links (optional : Bool) (e : Expr) : Keeps n (g.links optional e) := by
  refine .step .peek fun token => ?_
  split
  · exact hg.link optional e
  · exact .pure trivial

theorem linkHere (optional : Bool) (e : Expr) : Keeps n (g.linkHere optional e) := by
  refine .step .peek fun token => ?_
  split
  · exact .step .advance fun _ => .step .propertyName fun _ => hg.links optional _
  · exact .step .advance fun _ => (hg.optionalLink e).step fun _ => hg.links true _
  · exact .step .advance fun _ => hg.bracketed.step fun _ => hg.links optional _
  · exact hg.arguments.step fun _ => hg.links optional _

/-! #### Operators -/

theorem postfixed : Keeps n g.postfixed := by
  refine .step (hg.primary.step fun _ => hg.links false _) fun e => .step .peek fun token => ?_
  split
  · exact .pure trivial
  · split
    · exact .pure trivial
    · exact .step (.checkAssignable e token.place) fun _ => .step .advance fun _ => .pure trivial

theorem unaryHere : Keeps n g.unaryHere := by
  refine .step .peek fun token => ?_
  split
  · exact .step .advance fun _ => hg.unary.step fun target =>
      .step (.checkAssignable target token.place) fun _ => .pure trivial
  · split
    · exact .step .advance fun _ => hg.unary.step fun _ => .pure trivial
    · exact hg.postfixed

theorem exponent : Keeps n g.exponent := by
  refine hg.unary.step fun base => .step (.atSymbol .starStar) fun b => ?_
  split
  · have hpower : Keeps n (do
        let _ ← Syntax.advance
        return Expr.binary .pow base (← g.power)) :=
      .step .advance fun _ => hg.power.step fun _ => .pure trivial
    dsimp only
    split
    · exact .step (meets_faultHere _) fun _ => hpower
    · exact hpower
  · exact .pure trivial

theorem chainHere (tier : Nat) (left : Expr) : Keeps n (g.chainHere tier left) := by
  refine .step .peek fun token => ?_
  split
  · exact .pure trivial
  · exact .step .advance fun _ => (hg.operand tier).step fun _ => hg.chain tier _

theorem tiers (tier : Nat) : Keeps n (g.tiers tier) := by
  induction tier with
  | zero => exact hg.exponent
  | succ tier ih => exact ih.step fun left => hg.chainHere tier left

theorem assignmentHere : Keeps n g.assignmentHere := by
  have hconditional : Keeps n g.conditional := by
    refine (hg.tiers tierCount).step fun test => .step (.eat .question) fun b => ?_
    split
    · exact hg.assignment.step fun _ => .step (.expect .colon) fun _ =>
        hg.assignment.step fun _ => .pure trivial
    · exact .pure trivial
  refine hconditional.step fun target => .step .peek fun token => ?_
  split
  · exact .pure trivial
  · exact .step (.checkAssignable target token.place) fun _ => .step .advance fun _ =>
      hg.assignment.step fun _ => .pure trivial

/-! #### Statements -/

theorem block : Syntax.Numbers n g.block fun s => s.All (Stmt.DeclaresFrom n) := by
  have hitem : Syntax.Numbers n (do
      if ← Syntax.atFinish then unexpected
      g.statement) fun s => s.All (Stmt.DeclaresFrom n) := by
    refine .step .atFinish fun b => ?_
    dsimp only
    split
    · exact .step meets_unexpected fun _ => hg.statement
    · exact hg.statement
  refine .step (.expect .leftBrace) fun _ => .step .get fun outside => ?_
  refine .bind (.fueled (.itemsUntil (.atSymbol .rightBrace) hitem)) fun statements hstatements =>
    .step (.expect .rightBrace) fun _ => .step ?_ fun _ =>
      .pure (Stmt.all_block.2 ⟨trivial, hstatements⟩)
  -- the names declared inside are not seen any more, but keep their numbers
  rintro s _ t hs hrun
  cases hrun
  exact ⟨trivial, hs⟩

theorem ifStatement : Syntax.Numbers n g.ifStatement fun s => s.All (Stmt.DeclaresFrom n) := by
  refine .step .advance fun _ => .step (.expect .leftParen) fun _ => hg.assignment.step fun test =>
    .step (.expect .rightParen) fun _ => hg.statement.bind fun consequent hconsequent =>
      .step (.atWord "else") fun b => ?_
  split
  · refine .step .advance fun _ => hg.statement.bind fun alternate halternate => .pure ?_
    exact Stmt.all_conditional.2 ⟨trivial, hconsequent, fun s hs => by cases hs; exact halternate⟩
  · exact .pure (Stmt.all_conditional.2 ⟨trivial, hconsequent, fun s hs => by cases hs⟩)

theorem returnStatement :
    Syntax.Numbers n g.returnStatement fun s => s.All (Stmt.DeclaresFrom n) := by
  refine .step .advance fun _ => .step .peek fun token => ?_
  split
  · exact .step .terminator fun _ => .pure (Stmt.all_returns.2 trivial)
  · exact hg.assignment.step fun _ => .step .terminator fun _ => .pure (Stmt.all_returns.2 trivial)

theorem initializer (constant : Bool) (place : List Char) :
    Keeps n (g.initializer constant place) := by
  refine .step (.eat .assign) fun b => ?_
  split
  · exact hg.assignment.step fun _ => .pure trivial
  · dsimp only
    split
    · exact .step (meets_faultAt _ _) fun _ => .pure trivial
    · exact .pure trivial

/-- A variable gets the next number. -/
theorem declarator (constant : Bool) :
    Syntax.Numbers n (g.declarator constant) fun d => n ≤ d.1 := by
  have hdeclare (name : String) (place : List Char) : Syntax.Numbers n (do
      let init ← g.initializer constant place
      let slot := (← MonadState.get).nextSlot
      modify fun s => { s with nextSlot := slot + 1, locals := ⟨name, slot, constant⟩ :: s.locals }
      return (slot, init)) fun d => n ≤ d.1 := by
    refine (hg.initializer constant place).step fun init => Meets.bind .get fun r => ?_
    rintro s d t ⟨rfl, hr⟩ hrun
    cases hrun
    exact ⟨hr, Nat.le_succ_of_le hr⟩
  refine .step .advance fun token => ?_
  split
  · dsimp only
    split
    · exact .step (meets_faultAt _ _) fun _ => hdeclare _ _
    · exact hdeclare _ _
  · exact meets_faultAt _ _

theorem declaration : Syntax.Numbers n g.declaration fun s => s.All (Stmt.DeclaresFrom n) :=
  .step (.atWord "const") fun constant => .step .advance fun _ =>
    .bind (.fueled (.separatedByComma (hg.declarator constant))) fun _ hdeclarators =>
      .step .terminator fun _ => .pure (Stmt.all_declare.2 hdeclarators)

theorem statementHere :
    Syntax.Numbers n g.statementHere fun s => s.All (Stmt.DeclaresFrom n) := by
  refine .step (.eat .semicolon) fun b => ?_
  split
  · exact .pure (Stmt.all_empty.2 trivial)
  · refine .step .peek fun token => ?_
    split
    · exact hg.block
    · exact hg.ifStatement
    · exact hg.returnStatement
    · exact hg.declaration
    · exact hg.declaration
    · exact hg.declaration
    · exact hg.assignment.step fun _ => .step .terminator fun _ =>
        .pure (Stmt.all_expression.2 trivial)

theorem deeper : g.deeper.Numbers n where
  statement := hg.statementHere
  assignment := hg.assignmentHere
  unary := hg.unaryHere
  power := hg.exponent
  operand := hg.tiers
  chain := hg.chainHere
  link := hg.linkHere

end Grammar.Numbers

/-- The parsers of every grammar take no number back. -/
theorem numbers_grammar (levels : Nat) : (grammar levels).Numbers n := by
  induction levels with
  | zero => exact numbers_exhausted
  | succ levels ih => exact ih.deeper

/-- A program has slots for its parameters, and its declarations come after them. -/
theorem slots_of_parse {source : String} {params : List String} {mode : Mode}
    {program : Program} (h : parse source params mode = .ok program) :
    program.body.All (Stmt.DeclaresFrom params.length) ∧ params.length ≤ program.slotCount := by
  obtain ⟨tokens, finish, -, hrun, hcount⟩ := parse_eq_ok h
  have hwhole : Numbers params.length (wholeText mode) fun body =>
      body.All (Stmt.DeclaresFrom params.length) := by
    cases mode with
    | expression =>
      refine .step (numbers_grammar maxNesting).assignment fun e => .step .atFinish fun b => ?_
      dsimp only
      split
      · exact .pure trivial
      · exact .step meets_unexpected fun _ => .pure trivial
    | statement =>
      exact .bind (.fueled (.itemsUntil .atFinish (numbers_grammar maxNesting).statement))
        fun _ hstatements => .pure hstatements
  rw [hcount]
  exact hwhole _ _ _ (Nat.le_refl _) hrun

end LiveMarkup.Syntax
