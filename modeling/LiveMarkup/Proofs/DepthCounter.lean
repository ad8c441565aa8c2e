import LiveMarkup.Proofs.CountingParsers

/-!
# The counter of nesting is balanced

Parsers that count their nesting go the same ways as the parsers of the grammar with the levels that
are left: they fail with the same faults, or give the same, and then the counter is back where it
was.  A chain raises the counter for each of its operators or links, so its parsers are compared at
all depths from its beginning on; where it ends they all go back to the same one.

One more call than there are levels left is enough, one inside another.  What comes before an item
of a list leaves the counter alone, and so the item is parsed as if it came first.

## Main definitions

* `Balanced`, `Counts` — runs and parsers without a counter, and the same ones with it.
* `Suits`, `SuitsFrom` — grammars and rules that go the same ways.
* `Parsing` — all parsers that a text goes through.
* `Preceded` — where a parser is after others.

## Main results

* `suitsFrom_rules` — the rules go the same ways as the grammars.
* `Parsing.counts` — every parser leaves the counter where it was.
* `parse_counting` — a text is parsed in the same way with a counter.
* `depth_counter_is_balanced` — all of this for any parser anywhere.
-/

namespace LiveMarkup.Syntax

variable {α β : Type} {most depth middle back : Nat}

/-! ### Runs with and without a counter -/

/-- A run without a counter and one with it: both fail with the same fault, or both give the same,
and the counter is where it should be.  It has been nowhere past a bound. -/
inductive Balanced (most back : Nat) :
    Except Located (α × ParserState) → EStateM.Result Halt Counted α → Prop
  | error (e : Located) {c : Counted} (hmost : c.deepest ≤ most) :
    Balanced most back (.error e) (.error (.fault e) c)
  | ok (x : α) {c : Counted} (hdepth : c.depth = back) (hmost : c.deepest ≤ most) :
    Balanced most back (.ok (x, c.state)) (.ok x c)

/-- With its counter at one depth a parser goes the same way as another one without a counter, and
leaves it at another depth. -/
def Counts (most depth back : Nat) (p : Parser α) (q : Counting α) : Prop :=
  ∀ c : Counted, c.depth = depth → c.deepest ≤ most →
    Balanced most back (p.run c.state) (q.run c)

namespace Counts

variable {p : Parser α} {q : Counting α} {k : α → Parser β} {l : α → Counting β}

theorem pure (x : α) : Counts most depth depth (Pure.pure x) (Pure.pure x) :=
  fun _ hc hmost => .ok x hc hmost

theorem bind (hp : Counts most depth middle p q)
    (hk : ∀ x, Counts most middle back (k x) (l x)) :
    Counts most depth back (p >>= k) (q >>= l) := by
  intro c hc hmost
  have hfirst := hp c hc hmost
  rw [StateT.run_bind, EStateM.run_bind]
  generalize p.run c.state = a, q.run c = b at hfirst
  cases hfirst with
  | error e h => exact .error e h
  | ok x hdepth h => exact hk x _ hdepth h

theorem lift (p : Parser α) : Counts most depth depth p (Counting.lift p) := by
  intro c hc hmost
  cases hrun : p.run c.state with
  | error e =>
    have hlift : (Counting.lift p).run c = .error (.fault e) c := by
      simp only [EStateM.run, Counting.lift, hrun]
    rw [hlift]
    exact .error e hmost
  | ok result =>
    have hlift : (Counting.lift p).run c = .ok result.1 { c with state := result.2 } := by
      simp only [EStateM.run, Counting.lift, hrun]
    rw [hlift]
    exact .ok (c := { c with state := result.2 }) result.1 hc hmost

/-- A step that leaves the counter alone comes first. -/
theorem step {p : Parser α} (hk : ∀ x, Counts most depth back (k x) (l x)) :
    Counts most depth back (p >>= k) (Counting.lift p >>= l) :=
  bind (lift p) hk

/-- The counter is looked at. -/
theorem seeing {l : Counted → Counting α}
    (h : ∀ c, c.depth = depth → Counts most depth back p (l c)) :
    Counts most depth back p (get >>= l) :=
  fun c hc hmost => h c hc c hc hmost

theorem setDepth (hmiddle : middle ≤ most) (h : Counts most middle back p q) :
    Counts most depth back p (do Counting.setDepth middle; q) :=
  fun c _ hmost => h { c with depth := middle, deepest := max c.deepest middle } rfl
    (Nat.max_le.mpr ⟨hmost, hmiddle⟩)

/-! #### Levels -/

theorem descend_bind (l : Unit → Counting α) : (Counting.descend >>= l) = (do
    let c ← get
    Counting.setDepth (c.depth + 1)
    let c ← get
    (if maxNesting < c.depth then Counting.lift (faultHere .nestedTooDeeply)
      else Pure.pure ()) >>= l) := by
  simp only [Counting.descend, bind_assoc]

/-- There is a level left. -/
theorem descend (hdepth : depth < maxNesting) (hmost : depth < most) {l : Unit → Counting α}
    (h : Counts most (depth + 1) back p (l ())) :
    Counts most depth back p (Counting.descend >>= l) := by
  rw [descend_bind]
  refine seeing fun c hc => ?_
  rw [hc]
  refine setDepth hmost (seeing fun c hc => ?_)
  rw [hc, if_neg (by omega), pure_bind]
  exact h

/-- There is no level left. -/
theorem denied (hdepth : maxNesting ≤ depth) (hmost : depth < most)
    (hp : ∀ s, p.run s = .error (.nestedTooDeeply, s.next.place)) {l : Unit → Counting α} :
    Counts most depth back p (Counting.descend >>= l) := by
  rw [descend_bind]
  refine seeing fun c hc => ?_
  rw [hc]
  refine setDepth hmost (seeing fun c hc => ?_)
  rw [hc, if_pos (by omega)]
  intro c _ hmost
  rw [hp]
  exact .error _ hmost

theorem nested (hdepth : depth < maxNesting) (hmost : depth < most)
    (h : Counts most (depth + 1) (depth + 1) p q) :
    Counts most depth depth p (Counting.nested q) := by
  refine seeing fun c hc => ?_
  dsimp only
  rw [hc]
  refine descend hdepth hmost ?_
  have hbind : p = p >>= Pure.pure := (bind_pure p).symm
  rw [hbind]
  exact h.bind fun x => setDepth (Nat.le_of_lt hmost) (pure x)

theorem nested_denied (hdepth : maxNesting ≤ depth) (hmost : depth < most)
    (hp : ∀ s, p.run s = .error (.nestedTooDeeply, s.next.place)) :
    Counts most depth depth p (Counting.nested q) :=
  seeing fun _ _ => denied hdepth hmost hp

/-! #### Lists -/

theorem fueled {p : Nat → Parser α} {q : Nat → Counting α}
    (h : ∀ fuel, Counts most depth back (p fuel) (q fuel)) :
    Counts most depth back (Syntax.fueled p) (Counting.fueled q) :=
  step fun s => h s.tokens.length

section Lists

variable {item : Parser α} {item' : Counting α} (hitem : Counts most depth depth item item')

include hitem

theorem itemsUntil (stop : Parser Bool) (fuel : Nat) : Counts most depth depth
    (Syntax.itemsUntil stop item fuel) (Counting.itemsUntil stop item' fuel) := by
  induction fuel with
  | zero => exact pure []
  | succ fuel ih =>
    refine step fun b => ?_
    split
    · exact pure []
    · exact hitem.bind fun x => ih.bind fun xs => pure (x :: xs)

theorem commaSeparated (close : Symbol) (fuel : Nat) : Counts most depth depth
    (Syntax.commaSeparated close item fuel) (Counting.commaSeparated close item' fuel) := by
  induction fuel with
  | zero => exact pure []
  | succ fuel ih =>
    refine step fun b => ?_
    split
    · exact pure []
    · refine hitem.bind fun x => step fun b => ?_
      split
      · exact ih.bind fun xs => pure (x :: xs)
      · exact pure [x]

theorem separatedByComma (fuel : Nat) : Counts most depth depth
    (Syntax.separatedByComma item fuel) (Counting.separatedByComma item' fuel) := by
  induction fuel with
  | zero => exact pure []
  | succ fuel ih =>
    refine hitem.bind fun x => step fun b => ?_
    split
    · exact ih.bind fun xs => pure (x :: xs)
    · exact pure [x]

end Lists

theorem arrayItems {item : Parser Expr} {item' : Counting Expr}
    (hitem : Counts most depth depth item item') (fuel : Nat) :
    Counts most depth depth (Syntax.arrayItems item fuel) (Counting.arrayItems item' fuel) := by
  induction fuel with
  | zero => exact pure []
  | succ fuel ih =>
    refine step fun b => ?_
    split
    · exact pure []
    · refine step fun b => ?_
      split
      · exact ih.bind fun xs => pure _
      · refine hitem.bind fun x => step fun b => ?_
        split
        · exact ih.bind fun xs => pure (x :: xs)
        · exact pure [x]

end Counts

/-! ### Rules and grammars -/

/-- At one depth the rules go the same ways as the parsers of a grammar. -/
structure Suits (most depth : Nat) (g : Grammar) (r : Rules) : Prop where
  statement : Counts most depth depth g.statement r.statement
  assignment : Counts most depth depth g.assignment r.assignment
  unary : Counts most depth depth g.unary r.unary
  power : Counts most depth depth g.power r.power

namespace Suits

open Counts

variable {g : Grammar} {r : Rules} (h : Suits most depth g r)

include h

theorem arrayLiteral : Counts most depth depth g.arrayLiteral r.arrayLiteral :=
  .bind (.fueled fun _ => Counts.arrayItems h.assignment _) fun _ => step fun _ => .pure _

theorem propertyValue : Counts most depth depth g.propertyValue r.propertyValue :=
  step fun _ => h.assignment

theorem property : Counts most depth depth g.property r.property := by
  refine step fun token => ?_
  cases token.kind with
  | name key =>
    refine step fun b => ?_
    split
    · exact h.propertyValue.bind fun e => .pure (key, e)
    · dsimp only
      split
      · exact step fun _ => step fun e => .pure (key, e)
      · exact step fun e => .pure (key, e)
  | string key => exact h.propertyValue.bind fun e => .pure (key, e)
  | number x => exact h.propertyValue.bind fun e => .pure (_, e)
  | symbol s => exact lift _
  | finish => exact lift _

theorem objectLiteral : Counts most depth depth g.objectLiteral r.objectLiteral :=
  .bind (.fueled fun _ => Counts.commaSeparated h.property _ _) fun _ =>
    step fun _ => .pure _

theorem parenthesized : Counts most depth depth
    (do let e ← g.assignment; expect .rightParen; return e) r.parenthesized :=
  h.assignment.bind fun e => step fun _ => .pure e

theorem primary : Counts most depth depth g.primary r.primary := by
  refine step fun token => ?_
  cases token.kind with
  | number x => exact .pure _
  | string s => exact .pure _
  | name s => exact lift _
  | finish => exact lift _
  | symbol s =>
    cases s
    case leftParen => exact h.parenthesized
    case leftBracket => exact h.arrayLiteral
    case leftBrace => exact h.objectLiteral
    all_goals exact lift _

theorem arguments : Counts most depth depth g.arguments r.arguments :=
  step fun _ => .bind (.fueled fun _ => Counts.commaSeparated h.assignment _ _) fun args =>
    step fun _ => .pure args

theorem bracketed : Counts most depth depth g.bracketed r.bracketed :=
  h.assignment.bind fun key => step fun _ => .pure key

theorem optionalLink (e : Expr) :
    Counts most depth depth (g.optionalLink e) (r.optionalLink e) := by
  refine step fun token => ?_
  cases token.kind with
  | symbol s =>
    cases s
    case leftParen => exact h.arguments.bind fun args => .pure _
    case leftBracket => exact step fun _ => h.bracketed.bind fun key => .pure _
    all_goals exact step fun name => .pure _
  | _ => exact step fun name => .pure _

/-- A link is followed by what goes on with the chain. -/
theorem linkHere {next : Bool → Expr → Counting Expr}
    (hnext : ∀ optional e, Counts most depth back (g.links optional e) (next optional e))
    (optional : Bool) (e : Expr) :
    Counts most depth back (g.linkHere optional e) (do
      let (optional, e) ← r.link optional e
      next optional e) := by
  unfold Grammar.linkHere Rules.link
  rw [bind_assoc]
  refine step fun token => ?_
  have hcall : Counts most depth back (do g.links optional (.call e (← g.arguments) false)) (do
      let (optional, e) ← (do return (optional, .call e (← r.arguments) false))
      next optional e) := by
    simp only [bind_assoc, pure_bind]
    exact h.arguments.bind fun args => hnext _ _
  cases token.kind with
  | symbol s =>
    cases s
    case dot =>
      simp only [bind_assoc, pure_bind]
      exact step fun _ => step fun name => hnext _ _
    case questionDot =>
      simp only [bind_assoc, pure_bind]
      exact step fun _ => (h.optionalLink e).bind fun e => hnext _ _
    case leftBracket =>
      simp only [bind_assoc, pure_bind]
      exact step fun _ => h.bracketed.bind fun key => hnext _ _
    all_goals exact hcall
  | _ => exact hcall

theorem exponent : Counts most depth depth g.exponent r.exponent := by
  refine h.unary.bind fun base => step fun b => ?_
  split
  · dsimp only
    split
    · exact step fun _ => step fun _ => h.power.bind fun e => .pure _
    · exact step fun _ => h.power.bind fun e => .pure _
  · exact .pure base

theorem initializer (constant : Bool) (place : List Char) :
    Counts most depth depth (g.initializer constant place) (r.initializer constant place) := by
  refine step fun b => ?_
  split
  · exact h.assignment.bind fun e => .pure _
  · dsimp only
    split
    · exact step fun _ => .pure none
    · exact .pure none

theorem declarator (constant : Bool) :
    Counts most depth depth (g.declarator constant) (r.declarator constant) := by
  refine step fun token => ?_
  have hrest (name : String) : Counts most depth depth
      (do
        let init ← g.initializer constant token.place
        let slot := (← get).nextSlot
        modify fun s =>
          { s with nextSlot := slot + 1, locals := ⟨name, slot, constant⟩ :: s.locals }
        return (slot, init))
      (do
        let init ← r.initializer constant token.place
        let slot := (← Counting.lift get).nextSlot
        Counting.lift (modify fun s =>
          { s with nextSlot := slot + 1, locals := ⟨name, slot, constant⟩ :: s.locals })
        return (slot, init)) :=
    (h.initializer constant token.place).bind fun init => step fun s => step fun _ => .pure _
  cases token.kind with
  | name name =>
    dsimp only
    split
    · exact step fun _ => hrest name
    · exact hrest name
  | _ => exact lift _

theorem declaration : Counts most depth depth g.declaration r.declaration :=
  step fun constant => step fun _ =>
    .bind (.fueled fun _ => Counts.separatedByComma (h.declarator constant) _) fun _ =>
      step fun _ => .pure _

theorem expressionStatement : Counts most depth depth g.expressionStatement r.expressionStatement :=
  h.assignment.bind fun _ => step fun _ => .pure _

theorem returnStatement : Counts most depth depth g.returnStatement r.returnStatement := by
  refine step fun _ => step fun token => ?_
  split
  · exact step fun _ => .pure _
  · exact h.assignment.bind fun value => step fun _ => .pure _

theorem ifStatement : Counts most depth depth g.ifStatement r.ifStatement := by
  refine step fun _ => step fun _ => h.assignment.bind fun test => step fun _ =>
    h.statement.bind fun consequent => step fun b => ?_
  split
  · exact step fun _ => h.statement.bind fun _ => .pure _
  · exact .pure _

/-- A statement of a block, where the text may not end. -/
theorem blockItem : Counts most depth depth
    (do
      if ← atFinish then unexpected
      g.statement)
    (do
      if ← Counting.lift atFinish then Counting.lift unexpected
      r.statement) := by
  refine step fun b => ?_
  dsimp only
  split
  · exact step fun _ => h.statement
  · exact h.statement

theorem block : Counts most depth depth g.block r.block :=
  step fun _ => step fun _ =>
    .bind (.fueled fun _ => Counts.itemsUntil h.blockItem _ _) fun _ =>
      step fun _ => step fun _ => .pure _

theorem statementHere : Counts most depth depth g.statementHere r.statementHere := by
  refine step fun b => ?_
  split
  · exact .pure _
  · refine step fun token => ?_
    -- both parsers branch on this kind, so it is split while it is one variable
    generalize token.kind = kind
    split
    case h_1 => exact h.block
    case h_2 => exact h.ifStatement
    case h_3 => exact h.returnStatement
    case h_4 => exact h.declaration
    case h_5 => exact h.declaration
    case h_6 => exact h.declaration
    case h_7 =>
      try split
      all_goals first | contradiction | exact h.expressionStatement

end Suits

/-! ### Chains

The parsers of a chain end at one depth and call others at all depths from there on. -/

/-- At a depth so many levels are left, and the bound is past the limit and the depth. -/
structure Leaves (most depth levels : Nat) : Prop where
  limit_lt : maxNesting < most
  depth_lt : depth < most
  levels_eq : maxNesting - depth = levels

namespace Leaves

variable {levels : Nat}

theorem spent (h : Leaves most depth 0) : maxNesting ≤ depth := Nat.le_of_sub_eq_zero h.levels_eq

theorem depth_lt_maxNesting (h : Leaves most depth (levels + 1)) : depth < maxNesting :=
  Nat.lt_of_sub_eq_succ h.levels_eq

theorem deeper (h : Leaves most depth (levels + 1)) : Leaves most (depth + 1) levels where
  limit_lt := h.limit_lt
  depth_lt := Nat.lt_of_le_of_lt h.depth_lt_maxNesting h.limit_lt
  levels_eq := by rw [Nat.sub_succ, h.levels_eq, Nat.pred_succ]

theorem levels_le (h : Leaves most depth levels) : levels ≤ maxNesting :=
  h.levels_eq ▸ Nat.sub_le maxNesting depth

end Leaves

/-- From some depth on the rules go the same ways as the grammars with the levels that are left. -/
def SuitsFrom (most depth : Nat) (r : Rules) : Prop :=
  ∀ ⦃d l : Nat⦄, depth ≤ d → Leaves most d l → Suits most d (grammar l) r

theorem faultHere_run (fault : SyntaxFault) (s : ParserState) :
    (faultHere fault : Parser α).run s = .error (fault, s.next.place) :=
  rfl

namespace SuitsFrom

open Counts

variable {r : Rules} {levels : Nat} (h : SuitsFrom most depth r)
  (hlevels : Leaves most depth levels)

include h

theorem succ : SuitsFrom most (depth + 1) r := fun _ _ hd => h (Nat.le_of_succ_le hd)

include hlevels

theorem here : Suits most depth (grammar levels) r := h (Nat.le_refl depth) hlevels

/-- Each link opens a level, and the end of the chain goes back to where it began. -/
theorem links {outer : Nat} (houter : outer ≤ most) {fuel : Nat} (hfuel : levels < fuel)
    (optional : Bool) (e : Expr) :
    Counts most depth outer ((grammar levels).links optional e)
      (r.links outer fuel optional e) := by
  induction levels generalizing depth fuel optional e with
  | zero =>
    obtain ⟨fuel, rfl⟩ := Nat.exists_eq_succ_of_ne_zero (Nat.ne_zero_of_lt hfuel)
    refine step fun token => ?_
    split
    · exact denied hlevels.spent hlevels.depth_lt (faultHere_run _)
    · exact setDepth houter (.pure _)
  | succ levels ih =>
    obtain ⟨fuel, rfl⟩ := Nat.exists_eq_succ_of_ne_zero (Nat.ne_zero_of_lt hfuel)
    refine step fun token => ?_
    split
    · refine descend hlevels.depth_lt_maxNesting hlevels.depth_lt
        ((h.succ.here hlevels.deeper).linkHere ?_ optional e)
      exact ih h.succ hlevels.deeper (Nat.lt_of_succ_lt_succ hfuel)
    · exact setDepth houter (.pure _)

theorem callMember : Counts most depth depth (grammar levels).callMember r.callMember := by
  refine seeing fun c hc => ?_
  dsimp only
  rw [hc]
  exact (h.here hlevels).primary.bind fun e =>
    h.links hlevels (Nat.le_of_lt hlevels.depth_lt) (Nat.lt_succ_of_le hlevels.levels_le) false e

theorem postfixed : Counts most depth depth (grammar levels).postfixed r.postfixed := by
  refine (h.callMember hlevels).bind fun e => step fun token => ?_
  cases updateOpOf? token.kind with
  | none => exact .pure e
  | some op =>
    dsimp only
    split
    · exact .pure e
    · exact step fun _ => step fun _ => .pure _

theorem unaryHere : Counts most depth depth (grammar levels).unaryHere r.unaryHere := by
  refine step fun token => ?_
  cases updateOpOf? token.kind with
  | some op =>
    exact step fun _ => (h.here hlevels).unary.bind fun _ => step fun _ => .pure _
  | none =>
    cases unaryOpOf? token.kind with
    | some op => exact step fun _ => (h.here hlevels).unary.bind fun _ => .pure _
    | none => exact h.postfixed hlevels

/-- Each operator opens a level, and the end of the chain goes back to where it began. -/
theorem chain (tier : Nat) {outer : Nat} (houter : outer ≤ most) {operand : Counting Expr}
    (hoperand : ∀ ⦃d l : Nat⦄, depth ≤ d → Leaves most d l →
      Counts most d d ((grammar l).tiers tier) operand)
    {fuel : Nat} (hfuel : levels < fuel) (left : Expr) :
    Counts most depth outer ((grammar levels).chainHere tier left)
      (Rules.chain tier outer operand fuel left) := by
  induction levels generalizing depth fuel left with
  | zero =>
    obtain ⟨fuel, rfl⟩ := Nat.exists_eq_succ_of_ne_zero (Nat.ne_zero_of_lt hfuel)
    refine step fun token => ?_
    cases jointOf? tier token.kind with
    | none => exact setDepth houter (.pure left)
    | some joint =>
      exact step fun _ => denied hlevels.spent hlevels.depth_lt (faultHere_run _)
  | succ levels ih =>
    obtain ⟨fuel, rfl⟩ := Nat.exists_eq_succ_of_ne_zero (Nat.ne_zero_of_lt hfuel)
    refine step fun token => ?_
    cases jointOf? tier token.kind with
    | none => exact setDepth houter (.pure left)
    | some joint =>
      have hright := hoperand (Nat.le_succ depth) hlevels.deeper
      refine step fun _ =>
        descend hlevels.depth_lt_maxNesting hlevels.depth_lt (hright.bind fun right => ?_)
      exact ih h.succ hlevels.deeper (fun d l hd => hoperand (Nat.le_of_succ_le hd))
        (Nat.lt_of_succ_lt_succ hfuel) _

omit hlevels

theorem tiers (tier : Nat) ⦃d l : Nat⦄ (hd : depth ≤ d) (hl : Leaves most d l) :
    Counts most d d ((grammar l).tiers tier) (r.tiers tier) := by
  induction tier generalizing d l with
  | zero => exact (h hd hl).exponent
  | succ tier ih =>
    refine seeing fun c hc => ?_
    dsimp only
    rw [hc]
    exact (ih hd hl).bind fun left => chain (fun d' l' hd' => h (Nat.le_trans hd hd')) hl tier
      (Nat.le_of_lt hl.depth_lt) (fun d' l' hd' => ih (Nat.le_trans hd hd'))
      (Nat.lt_succ_of_le hl.levels_le) left

include hlevels

theorem conditional : Counts most depth depth (grammar levels).conditional r.conditional := by
  have hhere := h.here hlevels
  refine (h.tiers tierCount (Nat.le_refl depth) hlevels).bind fun test => step fun b => ?_
  split
  · exact hhere.assignment.bind fun _ => step fun _ => hhere.assignment.bind fun _ => .pure _
  · exact .pure test

theorem assignmentHere :
    Counts most depth depth (grammar levels).assignmentHere r.assignmentHere := by
  refine (h.conditional hlevels).bind fun target => step fun token => ?_
  cases assignOpOf? token.kind with
  | none => exact .pure target
  | some op =>
    exact step fun _ => step fun _ => (h.here hlevels).assignment.bind fun _ => .pure _

end SuitsFrom

/-- More calls one inside another than there are levels left are enough. -/
theorem suitsFrom_rules {calls : Nat} (hcalls : maxNesting - depth < calls) :
    SuitsFrom most depth (rules calls) := by
  induction calls generalizing depth with
  | zero => exact absurd hcalls (Nat.not_lt_zero _)
  | succ calls ih =>
    intro d l hd hl
    have hmost := hl.depth_lt
    cases l with
    | zero =>
      have hspent := hl.spent
      exact ⟨.nested_denied hspent hmost (faultHere_run _),
        .nested_denied hspent hmost (faultHere_run _),
        .nested_denied hspent hmost (faultHere_run _),
        .nested_denied hspent hmost (faultHere_run _)⟩
    | succ l =>
      have hdepth := hl.depth_lt_maxNesting
      have hfrom : SuitsFrom most (d + 1) (rules calls) := ih (by omega)
      have hhere := hfrom.here hl.deeper
      exact ⟨.nested hdepth hmost hhere.statementHere,
        .nested hdepth hmost (hfrom.assignmentHere hl.deeper),
        .nested hdepth hmost (hfrom.unaryHere hl.deeper), .nested hdepth hmost hhere.exponent⟩

/-! ### All parsers -/

/-- The parsers that a text goes through, and lists of what they parse. -/
inductive Parsing : Type → Type 1
  /-- A parser that does not know of levels. -/
  | step {α : Type} (p : Parser α) : Parsing α
  | wholeExpression : Parsing Body
  | wholeStatements : Parsing Body
  | statement : Parsing Stmt
  | statementHere : Parsing Stmt
  | block : Parsing Stmt
  | ifStatement : Parsing Stmt
  | returnStatement : Parsing Stmt
  | initializer (constant : Bool) (place : List Char) : Parsing (Option Expr)
  | declarator (constant : Bool) : Parsing (Nat × Option Expr)
  | declaration : Parsing Stmt
  | expressionStatement : Parsing Stmt
  | assignment : Parsing Expr
  | assignmentHere : Parsing Expr
  | conditional : Parsing Expr
  | tiers (tier : Nat) : Parsing Expr
  | exponent : Parsing Expr
  | power : Parsing Expr
  | unary : Parsing Expr
  | unaryHere : Parsing Expr
  | postfixed : Parsing Expr
  | callMember : Parsing Expr
  | optionalLink (e : Expr) : Parsing Expr
  | bracketed : Parsing Expr
  | arguments : Parsing (List Expr)
  | primary : Parsing Expr
  | arrayLiteral : Parsing Expr
  | objectLiteral : Parsing Expr
  | property : Parsing (String × Expr)
  | propertyValue : Parsing Expr
  | itemsUntil {α : Type} (stop : Parser Bool) (item : Parsing α) (fuel : Nat) : Parsing (List α)
  | commaSeparated {α : Type} (close : Symbol) (item : Parsing α) (fuel : Nat) : Parsing (List α)
  | separatedByComma {α : Type} (item : Parsing α) (fuel : Nat) : Parsing (List α)
  | arrayItems (item : Parsing Expr) (fuel : Nat) : Parsing (List Expr)

namespace Parsing

/-- The parser of the grammar with so many levels left. -/
def plain (levels : Nat) : {α : Type} → Parsing α → Parser α
  | _, .step p => p
  | _, .wholeExpression => Syntax.wholeExpression levels
  | _, .wholeStatements => Syntax.wholeStatements levels
  | _, .statement => (grammar levels).statement
  | _, .statementHere => (grammar levels).statementHere
  | _, .block => (grammar levels).block
  | _, .ifStatement => (grammar levels).ifStatement
  | _, .returnStatement => (grammar levels).returnStatement
  | _, .initializer constant place => (grammar levels).initializer constant place
  | _, .declarator constant => (grammar levels).declarator constant
  | _, .declaration => (grammar levels).declaration
  | _, .expressionStatement => (grammar levels).expressionStatement
  | _, .assignment => (grammar levels).assignment
  | _, .assignmentHere => (grammar levels).assignmentHere
  | _, .conditional => (grammar levels).conditional
  | _, .tiers tier => (grammar levels).tiers tier
  | _, .exponent => (grammar levels).exponent
  | _, .power => (grammar levels).power
  | _, .unary => (grammar levels).unary
  | _, .unaryHere => (grammar levels).unaryHere
  | _, .postfixed => (grammar levels).postfixed
  | _, .callMember => (grammar levels).callMember
  | _, .optionalLink e => (grammar levels).optionalLink e
  | _, .bracketed => (grammar levels).bracketed
  | _, .arguments => (grammar levels).arguments
  | _, .primary => (grammar levels).primary
  | _, .arrayLiteral => (grammar levels).arrayLiteral
  | _, .objectLiteral => (grammar levels).objectLiteral
  | _, .property => (grammar levels).property
  | _, .propertyValue => (grammar levels).propertyValue
  | _, .itemsUntil stop item fuel => Syntax.itemsUntil stop (item.plain levels) fuel
  | _, .commaSeparated close item fuel => Syntax.commaSeparated close (item.plain levels) fuel
  | _, .separatedByComma item fuel => Syntax.separatedByComma (item.plain levels) fuel
  | _, .arrayItems item fuel => Syntax.arrayItems (item.plain levels) fuel

/-- The parser with a counter, which may make so many calls one inside another. -/
def counting (calls : Nat) : {α : Type} → Parsing α → Counting α
  | _, .step p => Counting.lift p
  | _, .wholeExpression => Rules.wholeExpression calls
  | _, .wholeStatements => Rules.wholeStatements calls
  | _, .statement => (rules calls).statement
  | _, .statementHere => (rules calls).statementHere
  | _, .block => (rules calls).block
  | _, .ifStatement => (rules calls).ifStatement
  | _, .returnStatement => (rules calls).returnStatement
  | _, .initializer constant place => (rules calls).initializer constant place
  | _, .declarator constant => (rules calls).declarator constant
  | _, .declaration => (rules calls).declaration
  | _, .expressionStatement => (rules calls).expressionStatement
  | _, .assignment => (rules calls).assignment
  | _, .assignmentHere => (rules calls).assignmentHere
  | _, .conditional => (rules calls).conditional
  | _, .tiers tier => (rules calls).tiers tier
  | _, .exponent => (rules calls).exponent
  | _, .power => (rules calls).power
  | _, .unary => (rules calls).unary
  | _, .unaryHere => (rules calls).unaryHere
  | _, .postfixed => (rules calls).postfixed
  | _, .callMember => (rules calls).callMember
  | _, .optionalLink e => (rules calls).optionalLink e
  | _, .bracketed => (rules calls).bracketed
  | _, .arguments => (rules calls).arguments
  | _, .primary => (rules calls).primary
  | _, .arrayLiteral => (rules calls).arrayLiteral
  | _, .objectLiteral => (rules calls).objectLiteral
  | _, .property => (rules calls).property
  | _, .propertyValue => (rules calls).propertyValue
  | _, .itemsUntil stop item fuel => Counting.itemsUntil stop (item.counting calls) fuel
  | _, .commaSeparated close item fuel => Counting.commaSeparated close (item.counting calls) fuel
  | _, .separatedByComma item fuel => Counting.separatedByComma (item.counting calls) fuel
  | _, .arrayItems item fuel => Counting.arrayItems (item.counting calls) fuel

/-- Every parser leaves the counter where it was. -/
theorem counts {levels calls : Nat} (hlevels : Leaves most depth levels) (hcalls : levels < calls)
    (f : Parsing α) : Counts most depth depth (f.plain levels) (f.counting calls) := by
  have hfrom : SuitsFrom most depth (rules calls) := suitsFrom_rules (hlevels.levels_eq ▸ hcalls)
  have h := hfrom.here hlevels
  induction f with
  | step p => exact .lift p
  | wholeExpression =>
    refine h.assignment.bind fun e => .step fun b => ?_
    dsimp only
    split
    · exact .pure _
    · exact .step fun _ => .pure _
  | wholeStatements =>
    exact (Counts.fueled fun _ => .itemsUntil h.statement _ _).bind fun _ => .pure _
  | statement => exact h.statement
  | statementHere => exact h.statementHere
  | block => exact h.block
  | ifStatement => exact h.ifStatement
  | returnStatement => exact h.returnStatement
  | initializer constant place => exact h.initializer constant place
  | declarator constant => exact h.declarator constant
  | declaration => exact h.declaration
  | expressionStatement => exact h.expressionStatement
  | assignment => exact h.assignment
  | assignmentHere => exact hfrom.assignmentHere hlevels
  | conditional => exact hfrom.conditional hlevels
  | tiers tier => exact hfrom.tiers tier (Nat.le_refl depth) hlevels
  | exponent => exact h.exponent
  | power => exact h.power
  | unary => exact h.unary
  | unaryHere => exact hfrom.unaryHere hlevels
  | postfixed => exact hfrom.postfixed hlevels
  | callMember => exact hfrom.callMember hlevels
  | optionalLink e => exact h.optionalLink e
  | bracketed => exact h.bracketed
  | arguments => exact h.arguments
  | primary => exact h.primary
  | arrayLiteral => exact h.arrayLiteral
  | objectLiteral => exact h.objectLiteral
  | property => exact h.property
  | propertyValue => exact h.propertyValue
  | itemsUntil stop item fuel ih => exact .itemsUntil ih stop fuel
  | commaSeparated close item fuel ih => exact .commaSeparated ih close fuel
  | separatedByComma item fuel ih => exact .separatedByComma ih fuel
  | arrayItems item fuel ih => exact .arrayItems ih fuel

end Parsing

/-! ### What follows -/

namespace Balanced

variable {a : Except Located (α × ParserState)} {b : EStateM.Result Halt Counted α}

theorem conclusion_eq (h : Balanced most back a b) : conclusion b = some a := by
  cases h <;> rfl

theorem depth_eq (h : Balanced most back a b) {x : α} {c : Counted} (hb : b = .ok x c) :
    c.depth = back := by
  subst hb
  cases h with
  | ok _ hdepth _ => exact hdepth

theorem deepest_le (h : Balanced most back a b) : (atEnd b).deepest ≤ most := by
  cases h <;> assumption

end Balanced

/-- How many levels are left. -/
def Counted.levels (c : Counted) : Nat := maxNesting - c.depth

/-- How deep the counter may be at most, during a run or before it. -/
def Counted.bound (c : Counted) : Nat := max c.deepest (max maxNesting c.depth + 1)

theorem Counted.leaves (c : Counted) : Leaves c.bound c.depth c.levels where
  limit_lt := by unfold Counted.bound; omega
  depth_lt := by unfold Counted.bound; omega
  levels_eq := rfl

/-- Where a parser is when others have come before it, one after another. -/
inductive Preceded (calls : Nat) (c : Counted) : Counted → Prop
  | first : Preceded calls c c
  | next {α : Type} {before after : Counted} (h : Preceded calls c before) (f : Parsing α) (x : α)
      (hrun : (f.counting calls).run before = .ok x after) : Preceded calls c after

variable {calls : Nat} {c : Counted}

theorem balanced_counting (hcalls : c.levels < calls) (f : Parsing α) (after : Counted)
    (hdepth : after.depth = c.depth) (hmost : after.deepest ≤ c.bound) :
    Balanced c.bound c.depth ((f.plain c.levels).run after.state)
      ((f.counting calls).run after) :=
  f.counts c.leaves hcalls after hdepth hmost

/-- Those that come before leave the counter where it was. -/
theorem Preceded.counter (hcalls : c.levels < calls) {after : Counted}
    (h : Preceded calls c after) : after.depth = c.depth ∧ after.deepest ≤ c.bound := by
  induction h with
  | first => exact ⟨rfl, Nat.le_max_left _ _⟩
  | next _ f x hrun ih =>
    have hbalanced := balanced_counting hcalls f _ ih.1 ih.2
    have hdeepest := hbalanced.deepest_le
    rw [hrun] at hdeepest
    exact ⟨hbalanced.depth_eq hrun, hdeepest⟩

theorem parse_counting (hcalls : maxNesting < calls) (source : String) (params : List String)
    (mode : Mode) : Rules.parse calls source params mode = some (parse source params mode) := by
  unfold Rules.parse parse
  cases tokenize source with
  | error e => rfl
  | ok tokens =>
    have hwhole (f : Parsing Body) (s : ParserState) :
        conclusion ((f.counting calls).run ⟨s, 0, 0⟩) = some ((f.plain maxNesting).run s) :=
      (balanced_counting (c := ⟨s, 0, 0⟩) hcalls f _ rfl (Nat.zero_le _)).conclusion_eq
    cases mode with
    | expression =>
      have hparse := hwhole .wholeExpression ⟨params, tokens, [], params.length⟩
      dsimp only [Parsing.counting, Parsing.plain] at hparse ⊢
      rw [hparse]
      rfl
    | statement =>
      have hparse := hwhole .wholeStatements ⟨params, tokens, [], params.length⟩
      dsimp only [Parsing.counting, Parsing.plain] at hparse ⊢
      rw [hparse]
      rfl

/-- **The counter of nesting is balanced.**  Take any parser, wherever the counter is, after any
number of others that have come one after another from some place on.  On success the counter is
back where it was at that place, and it has never been more than one past the limit.  Calls are made
one inside another at most once for each level that is left and once more, and any more that are
allowed are not needed.  The parser gives what it would have given as the first one; in particular
what it accepts depends on the levels that are left, as it does for the parsers without a counter.
With the counter from zero on a text is parsed as the program parses it. -/
theorem depth_counter_is_balanced (extra : Nat) :
    (∀ c after : Counted, Preceded (c.levels + 1 + extra) c after →
      after.depth = c.depth ∧ ∀ {α : Type} (f : Parsing α),
        let run := (f.counting (c.levels + 1 + extra)).run after
        (∀ x later, run = .ok x later → later.depth = c.depth) ∧
        (atEnd run).deepest ≤ max c.deepest (max maxNesting c.depth + 1) ∧
        conclusion run = some ((f.plain c.levels).run after.state) ∧
        conclusion run = conclusion
          ((f.counting (c.levels + 1 + extra)).run { c with state := after.state })) ∧
    ∀ source params mode,
      Rules.parse (maxNesting + 1 + extra) source params mode =
        some (parse source params mode) := by
  refine ⟨fun c after h => ?_, parse_counting (by omega)⟩
  have hcalls : c.levels < c.levels + 1 + extra := by omega
  have hcounter := h.counter hcalls
  refine ⟨hcounter.1, fun f => ?_⟩
  have hbalanced := balanced_counting hcalls f after hcounter.1 hcounter.2
  have hfirst := balanced_counting hcalls f { c with state := after.state } rfl
    (Nat.le_max_left _ _)
  exact ⟨fun x later hrun => hbalanced.depth_eq hrun, hbalanced.deepest_le,
    hbalanced.conclusion_eq, hbalanced.conclusion_eq.trans hfirst.conclusion_eq.symm⟩

/-- The second of two items with a comma between them, in a list two levels above the limit. -/
theorem second_item_finds_the_counter_of_the_first :
    let a : Token := ⟨.string "a", [], false⟩
    let b : Token := ⟨.string "b", [], false⟩
    let comma : Token := ⟨.symbol .comma, [], false⟩
    let finish : Token := ⟨.finish, [], false⟩
    let first : Counted := ⟨⟨[], [a, comma, b, finish], [], 0⟩, 126, 126⟩
    let second : Counted := ⟨⟨[], [b, finish], [], 0⟩, 126, 126⟩
    Preceded (first.levels + 1 + 0) first second ∧ second.depth = first.depth ∧
      conclusion ((Parsing.assignment.counting (first.levels + 1 + 0)).run second) =
        some (.ok (.literal (.string "b"), ⟨[], [finish], [], 0⟩)) := by
  intro a b comma finish first second
  have hpreceded : Preceded (first.levels + 1 + 0) first second :=
    .next (.next .first .primary (.literal (.string "a")) rfl) (.step (eat .comma)) true rfl
  have hbalanced := (depth_counter_is_balanced 0).1 first second hpreceded
  refine ⟨hpreceded, hbalanced.1, ?_⟩
  rw [(hbalanced.2 .assignment).2.2.1]
  rfl
end LiveMarkup.Syntax
