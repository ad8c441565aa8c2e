import LiveMarkup.Proofs.ParserResults

/-!
# Faults are in the text

A parser names the place of a fault by a token: the next one, or one that it has taken before.  So
if the places of all tokens are in the text, faults are in the text as well.

## Main definitions

* `ParserState.Within` — a state whose tokens are in the text.
* `Points` — a parser whose faults are in the text.

## Main results

* `Points.bind`, `Points.faultAt`, `Points.peek` — laws for the ways to build a parser.
* `points_wholeText` — the parser of a whole text points into it.
-/

namespace LiveMarkup.Syntax

variable {α β : Type}

/-- The places of the tokens to come are in the text. -/
def ParserState.Within (source : List Char) (s : ParserState) : Prop :=
  ∀ t ∈ s.tokens, t.place <:+ source

/-- From a state in the text, the parser gives a result with `F` and a state in the text, or a fault
in the text. -/
def Points (source : List Char) (p : Parser α) (F : α → Prop := fun _ => True) : Prop :=
  ∀ s : ParserState, s.Within source →
    match p.run s with
    | .ok (x, t) => F x ∧ t.Within source
    | .error e => e.2 <:+ source

variable {source : List Char} {p : Parser α} {k : α → Parser β} {F : α → Prop} {G : β → Prop}

theorem ParserState.Within.next {s : ParserState} (h : s.Within source) :
    s.next.place <:+ source := by
  unfold ParserState.next
  cases htokens : s.tokens with
  | nil => exact List.nil_suffix
  | cons t rest => exact h t (htokens ▸ List.mem_cons_self)

theorem ParserState.Within.skip {s : ParserState} (h : s.Within source) : s.skip.Within source := by
  unfold ParserState.skip
  split
  · next t rest htokens =>
    split
    · exact h
    · exact fun u hu => h u (htokens ▸ List.mem_cons_of_mem _ hu)
  · exact h

namespace Points

/-! ### Building parsers -/

theorem pure {x : α} (h : F x) : Points source (Pure.pure x : Parser α) F := fun _ hs => ⟨h, hs⟩

theorem bind (h : Points source p F) (hk : ∀ x, F x → Points source (k x) G) :
    Points source (p >>= k) G := by
  intro s hs
  have hp := h s hs
  rw [StateT.run_bind]
  cases hrun : p.run s with
  | error e =>
    rw [hrun] at hp
    exact hp
  | ok result =>
    rw [hrun] at hp
    exact hk result.1 hp.1 result.2 hp.2

/-- A step about whose result nothing is needed. -/
theorem step (h : Points source p) (hk : ∀ x, Points source (k x) G) : Points source (p >>= k) G :=
  h.bind fun x _ => hk x

theorem faultAt {place : List Char} (hplace : place <:+ source) (fault : SyntaxFault) :
    Points source (Syntax.faultAt place fault : Parser α) F := fun _ _ => hplace

theorem get : Points source (MonadState.get : Parser ParserState) := fun _ hs => ⟨trivial, hs⟩

/-- A change that leaves the tokens alone. -/
theorem modifies {f : ParserState → ParserState} (h : ∀ s, (f s).tokens = s.tokens) :
    Points source (modify f : Parser Unit) := fun s hs => ⟨trivial, fun t ht => hs t (h s ▸ ht)⟩

/-! ### Tokens -/

theorem peek : Points source Syntax.peek fun t => t.place <:+ source := fun _ hs => ⟨hs.next, hs⟩

theorem advance : Points source Syntax.advance fun t => t.place <:+ source :=
  fun _ hs => ⟨hs.next, hs.skip⟩

theorem faultHere (fault : SyntaxFault) : Points source (Syntax.faultHere fault : Parser α) F :=
  bind peek fun _ ht => faultAt ht fault

theorem unexpected : Points source (Syntax.unexpected : Parser α) F :=
  bind peek fun _ _ => faultHere _

theorem atSymbol (symbol : Symbol) : Points source (Syntax.atSymbol symbol) :=
  bind peek fun _ _ => pure trivial

theorem atWord (word : String) : Points source (Syntax.atWord word) :=
  bind peek fun _ _ => pure trivial

theorem atFinish : Points source Syntax.atFinish := bind peek fun _ _ => pure trivial

theorem eat (symbol : Symbol) : Points source (Syntax.eat symbol) := by
  refine step (atSymbol symbol) fun b => ?_
  split
  · exact bind advance fun _ _ => pure trivial
  · exact pure trivial

theorem expect (symbol : Symbol) : Points source (Syntax.expect symbol) := by
  refine step (eat symbol) fun b => ?_
  cases b with
  | true => exact pure trivial
  | false => exact bind peek fun _ _ => faultHere _

/-- Looking whether something can be assigned to points to the place that is given. -/
theorem checkAssignable (target : Expr) {place : List Char} (hplace : place <:+ source) :
    Points source (Syntax.checkAssignable target place) := by
  unfold Syntax.checkAssignable
  extract_lets rest
  have hrest : ∀ u : Unit, Points source (rest u) := by
    intro u
    simp only [rest]
    split
    · refine step get fun s => ?_
      split
      · exact faultAt hplace _
      · exact pure trivial
    · exact pure trivial
  split
  · exact hrest ()
  · exact step (faultAt hplace _) hrest

theorem resolve (name : String) : Points source (Syntax.resolve name) :=
  step get fun _ => pure trivial

theorem propertyName : Points source Syntax.propertyName := by
  refine bind advance fun token htoken => ?_
  split
  · exact pure trivial
  · exact faultAt htoken _

/-! ### Lists -/

section Lists

variable {item : Parser α} (hitem : Points source item)

include hitem

theorem itemsUntil {stop : Parser Bool} (hstop : Points source stop) (fuel : Nat) :
    Points source (Syntax.itemsUntil stop item fuel) := by
  induction fuel with
  | zero => exact pure trivial
  | succ fuel ih =>
    refine step hstop fun b => ?_
    split
    · exact pure trivial
    · exact step hitem fun x => step ih fun xs => pure trivial

theorem commaSeparated (close : Symbol) (fuel : Nat) :
    Points source (Syntax.commaSeparated close item fuel) := by
  induction fuel with
  | zero => exact pure trivial
  | succ fuel ih =>
    refine step (atSymbol close) fun b => ?_
    split
    · exact pure trivial
    · refine step hitem fun x => step (eat .comma) fun b => ?_
      split
      · exact step ih fun xs => pure trivial
      · exact pure trivial

theorem separatedByComma (fuel : Nat) : Points source (Syntax.separatedByComma item fuel) := by
  induction fuel with
  | zero => exact pure trivial
  | succ fuel ih =>
    refine step hitem fun x => step (eat .comma) fun b => ?_
    split
    · exact step ih fun xs => pure trivial
    · exact pure trivial

end Lists

theorem arrayItems {item : Parser Expr} (hitem : Points source item) (fuel : Nat) :
    Points source (Syntax.arrayItems item fuel) := by
  induction fuel with
  | zero => exact pure trivial
  | succ fuel ih =>
    refine step (atSymbol .rightBracket) fun b => ?_
    split
    · exact pure trivial
    · refine step (eat .comma) fun b => ?_
      split
      · exact step ih fun xs => pure trivial
      · refine step hitem fun x => step (eat .comma) fun b => ?_
        split
        · exact step ih fun xs => pure trivial
        · exact pure trivial

theorem fueled {p : Nat → Parser α} (h : ∀ n, Points source (p n)) :
    Points source (Syntax.fueled p) :=
  step get fun s => h s.tokens.length

end Points

/-! ### Grammars -/

/-- The parsers of a grammar point into the text. -/
structure Grammar.Points (source : List Char) (g : Grammar) : Prop where
  statement : Syntax.Points source g.statement
  assignment : Syntax.Points source g.assignment
  unary : Syntax.Points source g.unary
  power : Syntax.Points source g.power
  operand (tier : Nat) : Syntax.Points source (g.operand tier)
  chain (tier : Nat) (left : Expr) : Syntax.Points source (g.chain tier left)
  link (optional : Bool) (e : Expr) : Syntax.Points source (g.link optional e)

theorem points_exhausted : Grammar.exhausted.Points source where
  statement := .faultHere _
  assignment := .faultHere _
  unary := .faultHere _
  power := .faultHere _
  operand _ := .faultHere _
  chain _ _ := .faultHere _
  link _ _ := .faultHere _

theorem points_word {place : List Char} (hplace : place <:+ source) (name : String) :
    Points source (Grammar.word place name) := by
  unfold Grammar.word
  split
  · exact .pure trivial
  · exact .pure trivial
  · exact .pure trivial
  · split
    · exact .faultAt hplace _
    · exact .resolve name

namespace Grammar.Points

variable {g : Grammar} (hg : g.Points source)

include hg

/-! #### Primary expressions -/

theorem arrayLiteral : Syntax.Points source g.arrayLiteral :=
  .step (.fueled fun _ => .arrayItems hg.assignment _) fun _ =>
    .step (.expect .rightBracket) fun _ => .pure trivial

theorem propertyValue : Syntax.Points source g.propertyValue :=
  .step (.expect .colon) fun _ => hg.assignment

theorem property : Syntax.Points source g.property := by
  have hvalue : ∀ key : String,
      Syntax.Points source (do return (key, ← g.propertyValue) : Parser (String × Expr)) :=
    fun key => .step hg.propertyValue fun e => .pure trivial
  have hshort : ∀ key : String,
      Syntax.Points source (do return (key, ← Syntax.resolve key) : Parser (String × Expr)) :=
    fun key => .step (.resolve key) fun e => .pure trivial
  refine .bind .advance fun token htoken => ?_
  split
  · next key _ =>
    refine .step (.atSymbol .colon) fun b => ?_
    split
    · exact hvalue key
    · dsimp only
      split
      · exact .step (.faultAt htoken _) fun _ => hshort key
      · exact hshort key
  · exact hvalue _
  · exact hvalue _
  · exact .faultAt htoken _

theorem objectLiteral : Syntax.Points source g.objectLiteral :=
  .step (.fueled fun _ => .commaSeparated hg.property _ _) fun _ =>
    .step (.expect .rightBrace) fun _ => .pure trivial

theorem primary : Syntax.Points source g.primary := by
  refine .bind .advance fun token htoken => ?_
  split
  · exact .pure trivial
  · exact .pure trivial
  · exact points_word htoken _
  · exact .step hg.assignment fun e => .step (.expect .rightParen) fun _ => .pure trivial
  · exact hg.arrayLiteral
  · exact hg.objectLiteral
  · exact .faultAt htoken _

/-! #### Chains of members and calls -/

theorem arguments : Syntax.Points source g.arguments :=
  .step (.expect .leftParen) fun _ =>
    .step (.fueled fun _ => .commaSeparated hg.assignment _ _) fun _ =>
      .step (.expect .rightParen) fun _ => .pure trivial

theorem bracketed : Syntax.Points source g.bracketed :=
  .step hg.assignment fun _ => .step (.expect .rightBracket) fun _ => .pure trivial

theorem optionalLink (e : Expr) : Syntax.Points source (g.optionalLink e) := by
  refine .bind .peek fun token _ => ?_
  split
  · exact .step hg.arguments fun args => .pure trivial
  · exact .bind .advance fun _ _ => .step hg.bracketed fun key => .pure trivial
  · exact .step .propertyName fun name => .pure trivial

theorem links (optional : Bool) (e : Expr) : Syntax.Points source (g.links optional e) := by
  refine .bind .peek fun token _ => ?_
  split
  · exact hg.link optional e
  · exact .pure trivial

theorem linkHere (optional : Bool) (e : Expr) : Syntax.Points source (g.linkHere optional e) := by
  refine .bind .peek fun token _ => ?_
  split
  · exact .bind .advance fun _ _ => .step .propertyName fun name => hg.links optional _
  · exact .bind .advance fun _ _ => .step (hg.optionalLink e) fun e => hg.links true e
  · exact .bind .advance fun _ _ => .step hg.bracketed fun key => hg.links optional _
  · exact .step hg.arguments fun args => hg.links optional _

theorem callMember : Syntax.Points source g.callMember :=
  .step hg.primary fun e => hg.links false e

/-! #### Operators -/

theorem postfixed : Syntax.Points source g.postfixed := by
  refine .step hg.callMember fun e => .bind .peek fun token htoken => ?_
  split
  · exact .pure trivial
  · split
    · exact .pure trivial
    · exact .step (.checkAssignable e htoken) fun _ => .bind .advance fun _ _ => .pure trivial

theorem unaryHere : Syntax.Points source g.unaryHere := by
  refine .bind .peek fun token htoken => ?_
  split
  · exact .bind .advance fun _ _ => .step hg.unary fun target =>
      .step (.checkAssignable target htoken) fun _ => .pure trivial
  · split
    · exact .bind .advance fun _ _ => .step hg.unary fun operand => .pure trivial
    · exact hg.postfixed

theorem exponent : Syntax.Points source g.exponent := by
  have hpower : ∀ base : Expr, Syntax.Points source (do
      let _ ← Syntax.advance
      return Expr.binary .pow base (← g.power) : Parser Expr) := fun base =>
    .bind .advance fun _ _ => .step hg.power fun e => .pure trivial
  refine .step hg.unary fun base => .step (.atSymbol .starStar) fun b => ?_
  split
  · dsimp only
    split
    · exact .step (.faultHere _) fun _ => hpower base
    · exact hpower base
  · exact .pure trivial

theorem chainHere (tier : Nat) (left : Expr) : Syntax.Points source (g.chainHere tier left) := by
  refine .bind .peek fun token _ => ?_
  split
  · exact .pure trivial
  · exact .bind .advance fun _ _ => .step (hg.operand tier) fun right => hg.chain tier _

theorem tiers (tier : Nat) : Syntax.Points source (g.tiers tier) := by
  induction tier with
  | zero => exact hg.exponent
  | succ tier ih => exact .step ih fun left => hg.chainHere tier left

theorem conditional : Syntax.Points source g.conditional := by
  refine .step (hg.tiers tierCount) fun test => .step (.eat .question) fun b => ?_
  split
  · exact .step hg.assignment fun consequent => .step (.expect .colon) fun _ =>
      .step hg.assignment fun alternate => .pure trivial
  · exact .pure trivial

theorem assignmentHere : Syntax.Points source g.assignmentHere := by
  refine .step hg.conditional fun target => .bind .peek fun token htoken => ?_
  split
  · exact .pure trivial
  · exact .step (.checkAssignable target htoken) fun _ => .bind .advance fun _ _ =>
      .step hg.assignment fun value => .pure trivial

/-! #### Statements -/

omit hg in
theorem terminator : Syntax.Points source Grammar.terminator := by
  refine .step (.eat .semicolon) fun b => ?_
  split
  · exact .pure trivial
  · refine .bind .peek fun token htoken => ?_
    split
    · exact .pure trivial
    · exact .faultAt htoken _

theorem block : Syntax.Points source g.block := by
  have hitem : Syntax.Points source (do
      if ← Syntax.atFinish then Syntax.unexpected
      g.statement : Parser Stmt) := by
    refine .step .atFinish fun b => ?_
    split
    · exact .step .unexpected fun _ => hg.statement
    · exact hg.statement
  exact .step (.expect .leftBrace) fun _ => .step .get fun s =>
    .step (.fueled fun _ => .itemsUntil hitem (.atSymbol .rightBrace) _) fun statements =>
      .step (.expect .rightBrace) fun _ => .step (.modifies fun _ => rfl) fun _ => .pure trivial

theorem ifStatement : Syntax.Points source g.ifStatement := by
  refine .bind .advance fun _ _ => .step (.expect .leftParen) fun _ =>
    .step hg.assignment fun test =>
    .step (.expect .rightParen) fun _ => .step hg.statement fun consequent =>
      .step (.atWord "else") fun b => ?_
  split
  · exact .bind .advance fun _ _ => .step hg.statement fun alternate => .pure trivial
  · exact .pure trivial

theorem returnStatement : Syntax.Points source g.returnStatement := by
  refine .bind .advance fun _ _ => .bind .peek fun token _ => ?_
  split
  · exact .step terminator fun _ => .pure trivial
  · exact .step hg.assignment fun value => .step terminator fun _ => .pure trivial

theorem initializer (constant : Bool) {place : List Char} (hplace : place <:+ source) :
    Syntax.Points source (g.initializer constant place) := by
  refine .step (.eat .assign) fun b => ?_
  split
  · exact .step hg.assignment fun e => .pure trivial
  · split
    · exact .step (.faultAt hplace _) fun _ => .pure trivial
    · exact .pure trivial

theorem declarator (constant : Bool) : Syntax.Points source (g.declarator constant) := by
  refine .bind .advance fun token htoken => ?_
  split
  · next name _ =>
    have hdeclares : Syntax.Points source (do
        let init ← g.initializer constant token.place
        let slot := (← get).nextSlot
        modify fun s =>
          { s with nextSlot := slot + 1, locals := ⟨name, slot, constant⟩ :: s.locals }
        return (slot, init) : Parser (Nat × Option Expr)) :=
      .step (hg.initializer constant htoken) fun init =>
        .step .get fun s => .step (.modifies fun _ => rfl) fun _ => .pure trivial
    dsimp only
    split
    · exact .step (.faultAt htoken _) fun _ => hdeclares
    · exact hdeclares
  · exact .faultAt htoken _

theorem declaration : Syntax.Points source g.declaration :=
  .step (.atWord "const") fun constant => .bind .advance fun _ _ =>
    .step (.fueled fun _ => .separatedByComma (hg.declarator constant) _) fun _ =>
      .step terminator fun _ => .pure trivial

theorem expressionStatement : Syntax.Points source g.expressionStatement :=
  .step hg.assignment fun _ => .step terminator fun _ => .pure trivial

theorem statementHere : Syntax.Points source g.statementHere := by
  refine .step (.eat .semicolon) fun b => ?_
  split
  · exact .pure trivial
  · refine .bind .peek fun token _ => ?_
    split
    · exact hg.block
    · exact hg.ifStatement
    · exact hg.returnStatement
    · exact hg.declaration
    · exact hg.declaration
    · exact hg.declaration
    · exact hg.expressionStatement

/-- One more level points into the text too. -/
theorem deeper : g.deeper.Points source where
  statement := hg.statementHere
  assignment := hg.assignmentHere
  unary := hg.unaryHere
  power := hg.exponent
  operand := hg.tiers
  chain := hg.chainHere
  link := hg.linkHere

end Grammar.Points

theorem points_grammar (levels : Nat) : (grammar levels).Points source := by
  induction levels with
  | zero => exact points_exhausted
  | succ levels ih => exact ih.deeper

/-! ### Programs -/

/-- The parser of a whole text points into it. -/
theorem points_wholeText (mode : Mode) : Points source (wholeText mode) := by
  have hgrammar : (grammar maxNesting).Points source := points_grammar maxNesting
  cases mode with
  | expression =>
    refine .step hgrammar.assignment fun e => .step .atFinish fun b => ?_
    split
    · exact .pure trivial
    · exact .step .unexpected fun _ => .pure trivial
  | statement =>
    exact .step (.fueled fun _ => .itemsUntil hgrammar.statement .atFinish _) fun statements =>
      .pure trivial

end LiveMarkup.Syntax
