import LiveMarkup.Syntax.Parser

/-!
# What parsers give

A parser gives a result in a new state or fails.  What holds of every result is shown by going
through the parser step by step: a step starts in the states that the step before it leaves, and a
step that fails gives nothing to be shown.

## Main definitions

* `Meets` — from the states with one property, a parser gives only results with another.
* `Maintains` — a parser keeps an invariant of its state, and gives only results with a property.
* `Gives` — a parser gives only results with a property, whatever the state.

## Main results

* `Meets.bind`, `Meets.pure`, `meets_throw` — one law for each way to build a parser.
* `Meets.advance`, `Meets.eat`, `Meets.expect` — what becomes of the state when a token is taken.
* `Meets.itemsUntil`, `Meets.commaSeparated`, `Meets.arrayItems` — lists of items.
-/

namespace LiveMarkup.Syntax

variable {α β : Type}

/-- From the states with `P`, the parser gives only results and states with `Q`. -/
def Meets (P : ParserState → Prop) (p : Parser α) (Q : α → ParserState → Prop) : Prop :=
  ∀ s x t, P s → p.run s = .ok (x, t) → Q x t

variable {P P' : ParserState → Prop} {Q Q' R : α → ParserState → Prop}
  {S : β → ParserState → Prop} {p : Parser α} {k : α → Parser β}

/-! ### Building parsers -/

theorem Meets.pre (h : Meets P p Q) (hP : ∀ s, P' s → P s) : Meets P' p Q :=
  fun s x t hs hrun => h s x t (hP s hs) hrun

theorem Meets.post (h : Meets P p Q) (hQ : ∀ x s, Q x s → Q' x s) : Meets P p Q' :=
  fun s x t hs hrun => hQ x t (h s x t hs hrun)

/-- A fact that holds in every state a parser starts in may be assumed. -/
theorem Meets.given {F : Prop} (h : F → Meets P p Q) : Meets (fun s => F ∧ P s) p Q :=
  fun s x t hs hrun => h hs.1 s x t hs.2 hrun

theorem Meets.pure {x : α} (h : ∀ s, P s → Q x s) : Meets P (pure x : Parser α) Q := by
  rintro s y t hs hrun
  cases hrun
  exact h s hs

theorem meets_throw (e : Located) : Meets P (throw e : Parser α) Q := by
  rintro s x t - hrun
  cases hrun

theorem Meets.bind (h : Meets P p R) (hk : ∀ x, Meets (R x) (k x) S) : Meets P (p >>= k) S := by
  intro s y u hs hrun
  rw [StateT.run_bind] at hrun
  cases hp : p.run s with
  | error e =>
    rw [hp] at hrun
    cases hrun
  | ok result =>
    obtain ⟨x, t⟩ := result
    rw [hp] at hrun
    exact hk x t y u (h s x t hs hp) hrun

theorem Meets.get : Meets P (get : Parser ParserState) fun x s => x = s ∧ P s := by
  rintro s x t hs hrun
  cases hrun
  exact ⟨rfl, hs⟩

/-! ### Tokens -/

theorem meets_faultAt (place : List Char) (fault : SyntaxFault) :
    Meets P (faultAt place fault : Parser α) Q :=
  meets_throw _

theorem Meets.peek : Meets P peek fun t s => t = s.next ∧ P s :=
  Meets.bind .get fun _ => .pure fun _ h => ⟨h.1 ▸ rfl, h.2⟩

theorem meets_faultHere (fault : SyntaxFault) : Meets P (faultHere fault : Parser α) Q :=
  Meets.bind .peek fun _ => meets_faultAt _ _

theorem meets_unexpected : Meets P (unexpected : Parser α) Q :=
  Meets.bind .peek fun _ => meets_faultHere _

/-- Taking a token leaves a state without it. -/
theorem Meets.advance : Meets P advance fun t s => ∃ r, P r ∧ t = r.next ∧ s = r.skip := by
  rintro s x t hs hrun
  cases hrun
  exact ⟨s, hs, rfl, rfl⟩

theorem Meets.atSymbol {symbol : Symbol} :
    Meets P (atSymbol symbol) fun b s => s.next.kind.isSymbol symbol = b ∧ P s :=
  Meets.bind .peek fun _ => .pure fun _ h => ⟨h.1 ▸ rfl, h.2⟩

theorem Meets.atWord {word : String} :
    Meets P (atWord word) fun b s => s.next.kind.isWord word = b ∧ P s :=
  Meets.bind .peek fun _ => .pure fun _ h => ⟨h.1 ▸ rfl, h.2⟩

theorem Meets.atFinish : Meets P atFinish fun _ s => P s :=
  Meets.bind .peek fun _ => .pure fun _ h => h.2

/-- Eating a symbol takes it, or leaves the state alone. -/
theorem Meets.eat {symbol : Symbol} :
    Meets P (eat symbol) fun b s =>
      bif b then ∃ r, P r ∧ r.next.kind.isSymbol symbol = true ∧ s = r.skip else P s := by
  refine Meets.bind .atSymbol fun b => ?_
  split
  · next hb => exact Meets.bind .advance fun _ => .pure fun _ ⟨r, hr, _, heq⟩ =>
      ⟨r, hr.2, hr.1.trans hb, heq⟩
  · exact .pure fun _ h => h.2

theorem Meets.expect {symbol : Symbol} :
    Meets P (expect symbol) fun _ s =>
      ∃ r, P r ∧ r.next.kind.isSymbol symbol = true ∧ s = r.skip := by
  refine Meets.bind .eat fun b => ?_
  cases b with
  | true => exact .pure fun _ h => h
  | false => exact Meets.bind .peek fun _ => meets_faultHere _

/-! ### Lists -/

section Lists

variable {F : α → Prop} {item : Parser α} {I J : ParserState → Prop}

/-- Items up to a stop, when an item starts and ends in states with `I`. -/
theorem Meets.itemsUntil {stop : Parser Bool} (hstop : Meets I stop fun _ s => I s)
    (hitem : Meets I item fun x s => F x ∧ I s) (fuel : Nat) :
    Meets I (itemsUntil stop item fuel) fun xs s => (∀ x ∈ xs, F x) ∧ I s := by
  induction fuel with
  | zero => exact .pure fun s hs => ⟨by simp, hs⟩
  | succ fuel ih =>
    refine Meets.bind hstop fun b => ?_
    split
    · exact .pure fun s hs => ⟨by simp, hs⟩
    · refine Meets.bind hitem fun x => Meets.given fun hx => Meets.bind ih fun xs => ?_
      exact .pure fun s hs => ⟨List.forall_mem_cons.2 ⟨hx, hs.1⟩, hs.2⟩

/-! With commas between them, items start in states with `I` and end in states with `J`, from which
a comma leads back to `I`. -/

variable (hIJ : ∀ s, I s → J s)
  (hcomma : ∀ s, J s → s.next.kind.isSymbol .comma = true → I s.skip)
  (hitem : Meets I item fun x s => F x ∧ J s)

include hcomma in
theorem Meets.eatComma : Meets J (Syntax.eat .comma) fun b s => bif b then I s else J s := by
  refine Meets.post .eat fun b s h => ?_
  cases b with
  | true =>
    obtain ⟨r, hr, hsymbol, rfl⟩ := h
    exact hcomma r hr hsymbol
  | false => exact h

include hIJ hcomma hitem in
theorem Meets.commaSeparated {close : Symbol} (fuel : Nat) :
    Meets I (commaSeparated close item fuel) fun xs s => (∀ x ∈ xs, F x) ∧ J s := by
  induction fuel with
  | zero => exact .pure fun s hs => ⟨by simp, hIJ s hs⟩
  | succ fuel ih =>
    refine Meets.bind .atSymbol fun b => ?_
    split
    · exact .pure fun s hs => ⟨by simp, hIJ s hs.2⟩
    · refine Meets.bind (hitem.pre fun s hs => hs.2) fun x => Meets.given fun hx => ?_
      refine Meets.bind (.eatComma hcomma) fun b => ?_
      cases b with
      | true => exact Meets.bind ih fun xs => .pure fun s hs =>
          ⟨List.forall_mem_cons.2 ⟨hx, hs.1⟩, hs.2⟩
      | false => exact .pure fun s hs => ⟨by simpa using hx, hs⟩

include hIJ hcomma hitem in
theorem Meets.separatedByComma (fuel : Nat) :
    Meets I (separatedByComma item fuel) fun xs s => (∀ x ∈ xs, F x) ∧ J s := by
  induction fuel with
  | zero => exact .pure fun s hs => ⟨by simp, hIJ s hs⟩
  | succ fuel ih =>
    refine Meets.bind hitem fun x => Meets.given fun hx => ?_
    refine Meets.bind (.eatComma hcomma) fun b => ?_
    cases b with
    | true => exact Meets.bind ih fun xs => .pure fun s hs =>
        ⟨List.forall_mem_cons.2 ⟨hx, hs.1⟩, hs.2⟩
    | false => exact .pure fun s hs => ⟨by simpa using hx, hs⟩

end Lists

/-- Array elements; a hole is an item too. -/
theorem Meets.arrayItems {F : Expr → Prop} {item : Parser Expr} {I J : ParserState → Prop}
    (hIJ : ∀ s, I s → J s) (hcomma : ∀ s, J s → s.next.kind.isSymbol .comma = true → I s.skip)
    (hitem : Meets I item fun x s => F x ∧ J s) (hhole : F (.literal .undefined)) (fuel : Nat) :
    Meets I (arrayItems item fuel) fun xs s => (∀ x ∈ xs, F x) ∧ J s := by
  induction fuel with
  | zero => exact .pure fun s hs => ⟨by simp, hIJ s hs⟩
  | succ fuel ih =>
    refine Meets.bind .atSymbol fun b => ?_
    split
    · exact .pure fun s hs => ⟨by simp, hIJ s hs.2⟩
    · refine Meets.bind .eat fun b => ?_
      cases b with
      | true =>
        refine Meets.bind (ih.pre ?_) fun xs => .pure fun s hs =>
          ⟨List.forall_mem_cons.2 ⟨hhole, hs.1⟩, hs.2⟩
        rintro s ⟨r, hr, hsymbol, rfl⟩
        exact hcomma r (hIJ r hr.2) hsymbol
      | false =>
        refine Meets.bind (hitem.pre fun s hs => hs.2) fun x => Meets.given fun hx => ?_
        refine Meets.bind (.eatComma hcomma) fun b => ?_
        cases b with
        | true => exact Meets.bind ih fun xs => .pure fun s hs =>
            ⟨List.forall_mem_cons.2 ⟨hx, hs.1⟩, hs.2⟩
        | false => exact .pure fun s hs => ⟨by simpa using hx, hs⟩

theorem Meets.fueled {p : Nat → Parser α} (h : ∀ n, Meets P (p n) Q) : Meets P (fueled p) Q :=
  Meets.bind .get fun s => (h s.tokens.length).pre fun _ hs => hs.2

/-! ### Targets -/

/-- Looking whether something can be assigned to leaves the state alone. -/
theorem Meets.checkAssignable (target : Expr) (place : List Char) :
    Meets P (checkAssignable target place) fun _ s => P s := by
  unfold Syntax.checkAssignable
  extract_lets rest
  have hrest : ∀ u : Unit, Meets P (rest u) fun _ s => P s := by
    intro u
    simp only [rest]
    split
    · refine Meets.bind .get fun s => ?_
      split
      · exact meets_faultAt _ _
      · exact .pure fun _ h => h.2
    · exact .pure fun _ h => h
  split
  · exact hrest ()
  · exact Meets.bind (meets_faultAt _ _ : Meets P _ fun _ s => P s) hrest

/-- Only what can be assigned to gets past the look. -/
theorem meets_checkAssignable (target : Expr) (place : List Char) :
    Meets P (Syntax.checkAssignable target place) fun _ s => target.isAssignable = true ∧ P s := by
  cases h : target.isAssignable with
  | true => exact (Meets.checkAssignable target place).post fun _ _ hs => ⟨rfl, hs⟩
  | false =>
    unfold Syntax.checkAssignable
    rw [h]
    exact Meets.bind (meets_faultAt _ _ : Meets P _ fun _ _ => False) fun _ _ _ _ hs => hs.elim

/-! ### Invariants -/

/-- A property of states that taking a token keeps. -/
structure Invariant where
  Holds : ParserState → Prop
  skip : ∀ s, Holds s → Holds s.skip

/-- The parser keeps the invariant, and gives only results with `F`. -/
def Maintains (I : Invariant) (p : Parser α) (F : α → Prop) : Prop :=
  Meets I.Holds p fun x s => F x ∧ I.Holds s

namespace Maintains

variable {I : Invariant} {F F' : α → Prop} {G : β → Prop} {item : Parser α}

theorem post (h : Maintains I p F) (hF : ∀ x, F x → F' x) : Maintains I p F' :=
  Meets.post h fun x _ hx => ⟨hF x hx.1, hx.2⟩

theorem pure {x : α} (h : F x) : Maintains I (Pure.pure x) F := Meets.pure fun _ hs => ⟨h, hs⟩

theorem bind (h : Maintains I p F) (hk : ∀ x, F x → Maintains I (k x) G) :
    Maintains I (p >>= k) G :=
  Meets.bind h fun x => Meets.given fun hx => hk x hx

/-- A step about whose result nothing is needed. -/
theorem step (h : Maintains I p fun _ => True) (hk : ∀ x, Maintains I (k x) G) :
    Maintains I (p >>= k) G :=
  h.bind fun x _ => hk x

/-- What comes after a step that always fails does not matter. -/
theorem fails (h : Maintains I p fun _ => False) : Maintains I (p >>= k) G :=
  h.bind fun _ hx => hx.elim

theorem get : Maintains I (MonadState.get : Parser ParserState) I.Holds :=
  Meets.post .get fun _ _ hs => ⟨hs.1 ▸ hs.2, hs.2⟩

/-- The next token is one that a state with the invariant can have. -/
theorem peek {T : Token → Prop} (hT : ∀ s, I.Holds s → T s.next) : Maintains I Syntax.peek T :=
  Meets.post .peek fun _ s hs => ⟨hs.1 ▸ hT s hs.2, hs.2⟩

theorem advance {T : Token → Prop} (hT : ∀ s, I.Holds s → T s.next) :
    Maintains I Syntax.advance T :=
  Meets.post .advance fun _ _ ⟨r, hr, ht, hs⟩ => ⟨ht ▸ hT r hr, hs ▸ I.skip r hr⟩

theorem atSymbol (symbol : Symbol) : Maintains I (Syntax.atSymbol symbol) fun _ => True :=
  Meets.post .atSymbol fun _ _ hs => ⟨trivial, hs.2⟩

theorem atFinish : Maintains I Syntax.atFinish fun _ => True :=
  Meets.post .atFinish fun _ _ hs => ⟨trivial, hs⟩

theorem eat (symbol : Symbol) : Maintains I (Syntax.eat symbol) fun _ => True := by
  refine step (atSymbol symbol) fun b => ?_
  split
  · exact step (advance fun _ _ => trivial) fun _ => pure trivial
  · exact pure trivial

theorem expect (symbol : Symbol) : Maintains I (Syntax.expect symbol) fun _ => True := by
  refine step (eat symbol) fun b => ?_
  cases b with
  | true => exact pure trivial
  | false => exact step (peek fun _ _ => trivial) fun _ => meets_faultHere _

theorem commaSeparated {close : Symbol} (h : Maintains I item F) (fuel : Nat) :
    Maintains I (Syntax.commaSeparated close item fuel) fun xs => ∀ x ∈ xs, F x :=
  Meets.commaSeparated (fun _ hs => hs) (fun s hs _ => I.skip s hs) h fuel

theorem separatedByComma (h : Maintains I item F) (fuel : Nat) :
    Maintains I (Syntax.separatedByComma item fuel) fun xs => ∀ x ∈ xs, F x :=
  Meets.separatedByComma (fun _ hs => hs) (fun s hs _ => I.skip s hs) h fuel

theorem arrayItems {F : Expr → Prop} {item : Parser Expr} (h : Maintains I item F)
    (hhole : F (.literal .undefined)) (fuel : Nat) :
    Maintains I (Syntax.arrayItems item fuel) fun xs => ∀ x ∈ xs, F x :=
  Meets.arrayItems (fun _ hs => hs) (fun s hs _ => I.skip s hs) h hhole fuel

end Maintains

/-! ### Programs -/

/-- The parser of a whole text. -/
def wholeText : Mode → Parser Body
  | .expression => wholeExpression maxNesting
  | .statement => wholeStatements maxNesting

/-- The state in which a text begins to be parsed. -/
def ParserState.start (params : List String) (tokens : List Token) : ParserState :=
  { params, tokens, locals := [], nextSlot := params.length }

theorem parse_eq (source : String) (params : List String) (mode : Mode) :
    parse source params mode = located source
      ((tokenize source).bind fun tokens =>
        ((wholeText mode).run (.start params tokens)).bind fun (body, finish) =>
          .ok { body, slotCount := finish.nextSlot }) := by
  cases mode <;> rfl

/-- A text that parses has tokens, and the parser of a whole text gives its tree on them. -/
theorem parse_eq_ok {source : String} {params : List String} {mode : Mode} {program : Program}
    (h : parse source params mode = .ok program) :
    ∃ tokens finish, tokenize source = .ok tokens ∧
      (wholeText mode).run (.start params tokens) = .ok (program.body, finish) ∧
      program.slotCount = finish.nextSlot := by
  rw [parse_eq] at h
  cases htokens : tokenize source with
  | error e =>
    rw [htokens] at h
    cases h
  | ok tokens =>
    rw [htokens] at h
    cases hrun : (wholeText mode).run (.start params tokens) with
    | error e =>
      simp only [Except.bind, hrun] at h
      cases h
    | ok result =>
      simp only [Except.bind, hrun] at h
      cases h
      exact ⟨tokens, result.2, rfl, hrun, rfl⟩

/-! ### Results whatever the state -/

/-- The parser gives only results with `F`. -/
def Gives (p : Parser α) (F : α → Prop) : Prop := Meets (fun _ => True) p fun x _ => F x

namespace Gives

variable {F F' : α → Prop} {G : β → Prop}

theorem anything (p : Parser α) : Gives p fun _ => True := fun _ _ _ _ _ => trivial

theorem post (h : Gives p F) (hF : ∀ x, F x → F' x) : Gives p F' := Meets.post h fun x _ => hF x

theorem pure {x : α} (h : F x) : Gives (Pure.pure x) F := Meets.pure fun _ _ => h

theorem bind (h : Gives p F) (hk : ∀ x, F x → Gives (k x) G) : Gives (p >>= k) G :=
  Meets.bind h fun x s y t hx hrun => hk x hx s y t trivial hrun

/-- A step about whose result nothing is needed. -/
theorem step (hk : ∀ x, Gives (k x) G) : Gives (p >>= k) G :=
  (anything p).bind fun x _ => hk x

variable {item : Parser α}

theorem itemsUntil {stop : Parser Bool} (h : Gives item F) (fuel : Nat) :
    Gives (itemsUntil stop item fuel) fun xs => ∀ x ∈ xs, F x :=
  (Meets.itemsUntil (anything stop) (Meets.post h fun _ _ hx => ⟨hx, trivial⟩) fuel).post
    fun _ _ h => h.1

theorem commaSeparated {close : Symbol} (h : Gives item F) (fuel : Nat) :
    Gives (commaSeparated close item fuel) fun xs => ∀ x ∈ xs, F x :=
  (Meets.commaSeparated (J := fun _ => True) (fun _ _ => trivial) (fun _ _ _ => trivial)
    (Meets.post h fun _ _ hx => ⟨hx, trivial⟩) fuel).post fun _ _ h => h.1

theorem separatedByComma (h : Gives item F) (fuel : Nat) :
    Gives (separatedByComma item fuel) fun xs => ∀ x ∈ xs, F x :=
  (Meets.separatedByComma (J := fun _ => True) (fun _ _ => trivial) (fun _ _ _ => trivial)
    (Meets.post h fun _ _ hx => ⟨hx, trivial⟩) fuel).post fun _ _ h => h.1

theorem arrayItems {F : Expr → Prop} {item : Parser Expr} (h : Gives item F)
    (hhole : F (.literal .undefined)) (fuel : Nat) :
    Gives (arrayItems item fuel) fun xs => ∀ x ∈ xs, F x :=
  (Meets.arrayItems (J := fun _ => True) (fun _ _ => trivial) (fun _ _ _ => trivial)
    (Meets.post h fun _ _ hx => ⟨hx, trivial⟩) hhole fuel).post fun _ _ h => h.1

theorem fueled {p : Nat → Parser α} (h : ∀ n, Gives (p n) F) : Gives (fueled p) F :=
  Meets.fueled h

end Gives

end LiveMarkup.Syntax
