import LiveMarkup.Proofs.ClosedTexts
import LiveMarkup.Proofs.NamesAfterNumbers

/-!
# Expressions before a closing parenthesis

A parser of expressions does not go on with a closing parenthesis, just as it does not go on after
the end of a text.  So an expression that is a text of its own is parsed in the same way where a
closing parenthesis follows it.  Only the place may be deeper, or less deep: then the text may be
nested too deeply in the one place and not in the other.

A list of arguments may be empty before a closing parenthesis, and not before the end of a text.
The first parser fails there, since every operand takes a token, and nothing is said about the
second.

## Main definitions

* `Echoes` — a parser before a closing parenthesis does what another one does before the end.
* `Grammar.Echo` — so do the parsers of expressions of a grammar.

## Main results

* `echo_grammar` — this holds of any two grammars, whatever levels they have left.
-/

namespace LiveMarkup.Syntax

variable {params : List String} {rest ts us : List Token}

/-- The first token closes a parenthesis. -/
def Closes (rest : List Token) : Prop :=
  ∃ place broken more, rest = ⟨.symbol .rightParen, place, broken⟩ :: more

theorem Alongside.length_pos (h : Alongside rest ts us) : 0 < ts.length := by
  cases h <;> exact Nat.succ_pos _

theorem Alongside.length_le (h : Alongside rest ts us) (hrest : Closes rest) :
    ts.length ≤ us.length := by
  obtain ⟨place, broken, more, rfl⟩ := hrest
  induction h with
  | finish => exact Nat.succ_le_succ (Nat.zero_le _)
  | token _ _ _ _ _ ih => exact Nat.succ_le_succ ih

/-! ### Runs and parsers -/

variable {α β : Type}

/-- How a run ends before the end of a text, and how before other tokens.  If there is a result, no
tokens have been put back, and the second run has the same result in the same place, or finds the
text nested too deeply. -/
inductive EndsEchoed (params : List String) (rest ts : List Token) :
    Except Located (α × ParserState) → Except Located (α × ParserState) → Prop
  | error (e : Located) (r : Except Located (α × ParserState)) :
    EndsEchoed params rest ts (.error e) r
  | ok {x : α} {ts' us' : List Token} {r : Except Located (α × ParserState)}
    (h : Alongside rest ts' us') (hle : ts'.length ≤ ts.length)
    (hr : r = .ok (x, .start params us') ∨ ∃ place, r = .error (.nestedTooDeeply, place)) :
    EndsEchoed params rest ts (.ok (x, .start params ts')) r

namespace EndsEchoed

variable {r r' : Except Located (α × ParserState)}

theorem mono {ts₀ : List Token} (h : EndsEchoed params rest ts r r')
    (hle : ts.length ≤ ts₀.length) : EndsEchoed params rest ts₀ r r' := by
  cases h with
  | error e => exact .error e r'
  | ok h hle' hr => exact .ok h (Nat.le_trans hle' hle) hr

/-- The nesting limit may be reached anywhere. -/
theorem nestedTooDeeply (h : EndsEchoed params rest ts r r') (place : List Char) :
    EndsEchoed params rest ts r (.error (.nestedTooDeeply, place)) := by
  cases h with
  | error e => exact .error e _
  | ok h hle => exact .ok h hle (.inr ⟨place, rfl⟩)

end EndsEchoed

/-- Run before the second tokens, `q` does what `p` does before the first ones. -/
def EchoesAt (params : List String) (rest ts us : List Token) (p q : Parser α) : Prop :=
  EndsEchoed params rest ts (p.run (.start params ts)) (q.run (.start params us))

/-- Before any tokens that `rest` follows, `q` does what `p` does where they end. -/
def Echoes (params : List String) (rest : List Token) (p q : Parser α) : Prop :=
  ∀ ts us, Alongside rest ts us → EchoesAt params rest ts us p q

namespace EchoesAt

variable {p q : Parser α} {k l : α → Parser β} {kind : TokenKind} {place place' : List Char}
  {broken : Bool} {symbol : Symbol}

theorem pure {x : α} (h : Alongside rest ts us) :
    EchoesAt params rest ts us (Pure.pure x) (Pure.pure x) :=
  .ok h (Nat.le_refl _) (.inl rfl)

theorem bind (hp : EchoesAt params rest ts us p q)
    (hk : ∀ x ts' us', Alongside rest ts' us' → ts'.length ≤ ts.length →
      EchoesAt params rest ts' us' (k x) (l x)) :
    EchoesAt params rest ts us (p >>= k) (q >>= l) := by
  unfold EchoesAt at hp ⊢
  rw [StateT.run_bind, StateT.run_bind]
  generalize p.run (.start params ts) = r, q.run (.start params us) = r' at hp ⊢
  cases hp with
  | error e => exact .error e _
  | @ok x ts' us' _ h hle hr =>
    -- the first run goes on, whether the second one has come to the nesting limit or not
    have hmore := (hk x ts' us' h hle).mono hle
    rcases hr with rfl | ⟨place, rfl⟩
    · exact hmore
    · exact hmore.nestedTooDeeply place

/-- What comes after a fault does not matter. -/
theorem faulty {e : Located} (h : p.run (.start params ts) = .error e) (q : Parser β) :
    EchoesAt params rest ts us (p >>= k) q := by
  unfold EchoesAt
  rw [StateT.run_bind, h]
  exact .error e _

/-! #### Tokens -/

/-- Looking at a token. -/
theorem peek {k l : Token → Parser β} {t u : Token}
    (h : EchoesAt params rest (t :: ts) (u :: us) (k t) (l u)) :
    EchoesAt params rest (t :: ts) (u :: us) (Syntax.peek >>= k) (Syntax.peek >>= l) := h

/-- Taking a token that is not the end. -/
theorem advance {k l : Token → Parser β} (hkind : kind.isFinish = false)
    (h : EchoesAt params rest ts us (k ⟨kind, place, broken⟩) (l ⟨kind, place', broken⟩)) :
    EchoesAt params rest (⟨kind, place, broken⟩ :: ts) (⟨kind, place', broken⟩ :: us)
      (Syntax.advance >>= k) (Syntax.advance >>= l) := by
  cases kind with
  | finish => cases hkind
  | number | string | name | symbol => exact EndsEchoed.mono h (Nat.le_succ _)

/-- The parenthesis is another symbol, and so the answers are the same. -/
theorem atSymbol {k l : Bool → Parser β} (hrest : Closes rest) (hsymbol : symbol ≠ .rightParen)
    (h : Alongside rest ts us) (hk : ∀ b, EchoesAt params rest ts us (k b) (l b)) :
    EchoesAt params rest ts us (Syntax.atSymbol symbol >>= k) (Syntax.atSymbol symbol >>= l) := by
  cases h with
  | token => exact hk _
  | finish =>
    obtain ⟨place', broken', more, rfl⟩ := hrest
    have hother : (TokenKind.symbol .rightParen).isSymbol symbol = false := by
      simpa [TokenKind.isSymbol] using hsymbol.symm
    show EchoesAt params _ _ _ (k false) (l ((TokenKind.symbol .rightParen).isSymbol symbol))
    rw [hother]
    exact hk false

/-- Whether the symbol is taken or not, the tokens after it are alike. -/
theorem eatToken {k l : Bool → Parser β} (hkind : kind.isFinish = false)
    (htaken : EchoesAt params rest ts us (k true) (l true))
    (hleft : EchoesAt params rest (⟨kind, place, broken⟩ :: ts) (⟨kind, place', broken⟩ :: us)
      (k false) (l false)) :
    EchoesAt params rest (⟨kind, place, broken⟩ :: ts) (⟨kind, place', broken⟩ :: us)
      (Syntax.eat symbol >>= k) (Syntax.eat symbol >>= l) := by
  show EchoesAt params rest _ _ ((if kind.isSymbol symbol then _ else _ : Parser Bool) >>= k)
    ((if kind.isSymbol symbol then _ else _ : Parser Bool) >>= l)
  cases kind.isSymbol symbol with
  | true => exact advance (k := fun _ => k true) (l := fun _ => l true) hkind htaken
  | false => exact hleft

/-- If the symbol is there, it is one token fewer. -/
theorem eat {k l : Bool → Parser β} (hrest : Closes rest) (hsymbol : symbol ≠ .rightParen)
    (h : Alongside rest ts us)
    (htaken : ∀ ts' us', Alongside rest ts' us' → ts'.length < ts.length →
      EchoesAt params rest ts' us' (k true) (l true))
    (hleft : EchoesAt params rest ts us (k false) (l false)) :
    EchoesAt params rest ts us (Syntax.eat symbol >>= k) (Syntax.eat symbol >>= l) := by
  cases h with
  | token _ _ _ hkind h => exact eatToken hkind (htaken _ _ h (Nat.lt_succ_self _)) hleft
  | finish =>
    obtain ⟨place', broken', more, rfl⟩ := hrest
    have hother : (TokenKind.symbol .rightParen).isSymbol symbol = false := by
      simpa [TokenKind.isSymbol] using hsymbol.symm
    show EchoesAt params _ _ _ (k false)
      ((if (TokenKind.symbol .rightParen).isSymbol symbol then _ else _ : Parser Bool) >>= l)
    rw [hother]
    exact hleft

/-- A symbol has to be there, and at the end of the text there is none. -/
theorem expect {k l : Unit → Parser β} (h : Alongside rest ts us)
    (hk : ∀ ts' us', Alongside rest ts' us' → EchoesAt params rest ts' us' (k ()) (l ())) :
    EchoesAt params rest ts us (Syntax.expect symbol >>= k) (Syntax.expect symbol >>= l) := by
  unfold Syntax.expect
  rw [bind_assoc, bind_assoc]
  cases h with
  | finish => exact EndsEchoed.error _ _
  | token place place' broken hkind h => exact eatToken hkind (hk _ _ h) (.error _ _)

/-- At the end of the text there is no property name. -/
theorem propertyName {k l : String → Parser β} (h : Alongside rest ts us)
    (hk : ∀ name ts' us', Alongside rest ts' us' → EchoesAt params rest ts' us' (k name) (l name)) :
    EchoesAt params rest ts us (Syntax.propertyName >>= k) (Syntax.propertyName >>= l) := by
  unfold Syntax.propertyName
  rw [bind_assoc, bind_assoc]
  cases h with
  | finish => exact EndsEchoed.error _ _
  | @token kind place place' broken ts us hkind h =>
    refine advance hkind ?_
    cases kind with
    | name name => exact hk name _ _ h
    | _ => exact EndsEchoed.error _ _

/-- No variables can be seen, so no target is a constant. -/
theorem checkAssignable {k l : Unit → Parser β} (target : Expr) (place place' : List Char)
    (h : target.isAssignable = true → EchoesAt params rest ts us (k ()) (l ())) :
    EchoesAt params rest ts us (Syntax.checkAssignable target place >>= k)
      (Syntax.checkAssignable target place' >>= l) := by
  cases hassignable : target.isAssignable with
  | true =>
    have hrun : ∀ (m : Unit → Parser β) (place : List Char) (ts : List Token),
        (Syntax.checkAssignable target place >>= m).run (.start params ts) =
          (m ()).run (.start params ts) := by
      intro m place ts
      unfold Syntax.checkAssignable
      rw [hassignable]
      cases target <;> rfl
    unfold EchoesAt
    rw [hrun, hrun]
    exact h hassignable
  | false =>
    unfold Syntax.checkAssignable
    rw [hassignable]
    exact EndsEchoed.error _ _

/-! #### Lists -/

section Lists

variable (hrest : Closes rest)

include hrest

/-- There are as many tokens as fuel in both places. -/
theorem fueled {p q : Nat → Parser α} {k l : α → Parser β} (h : Alongside rest ts us)
    (hp : ∀ n m, ts.length ≤ n → ts.length ≤ m → EchoesAt params rest ts us (p n) (q m))
    (hk : ∀ x ts' us', Alongside rest ts' us' → EchoesAt params rest ts' us' (k x) (l x)) :
    EchoesAt params rest ts us (Syntax.fueled p >>= k) (Syntax.fueled q >>= l) :=
  bind (hp ts.length us.length (Nat.le_refl _) (h.length_le hrest)) fun x _ _ h _ => hk x _ _ h

/-- After an item comes a comma and what is parsed then, or nothing. -/
theorem moreItems {p q : Parser (List α)} (x : α) (h : Alongside rest ts us)
    (hmore : ∀ ts' us', Alongside rest ts' us' → ts'.length < ts.length →
      EchoesAt params rest ts' us' p q) :
    EchoesAt params rest ts us
      (do
        if ← Syntax.eat .comma then return x :: (← p)
        return [x])
      (do
        if ← Syntax.eat .comma then return x :: (← q)
        return [x]) :=
  eat hrest (by decide) h
    (fun _ _ h hlt => (hmore _ _ h hlt).bind fun _ _ _ h _ => .pure h) (.pure h)

/-- No item can be missing at the end of the text. -/
theorem commaSeparated {item item' : Parser α} (hitem : Echoes params rest item item')
    (hend : ∀ place broken, ∃ e, item.run (.start params [⟨.finish, place, broken⟩]) = .error e)
    (close : Symbol) {n m : Nat} (hn : ts.length ≤ n) (hm : ts.length ≤ m)
    (h : Alongside rest ts us) :
    EchoesAt params rest ts us (Syntax.commaSeparated close item n)
      (Syntax.commaSeparated close item' m) := by
  induction n generalizing m ts us with
  | zero => exact absurd h.length_pos (Nat.not_lt.2 hn)
  | succ n ih =>
    have hpos : 0 < m := Nat.lt_of_lt_of_le h.length_pos hm
    obtain ⟨m, rfl⟩ := Nat.exists_eq_succ_of_ne_zero (Nat.ne_zero_of_lt hpos)
    cases h with
    | finish place broken =>
      -- the second parser may stop here, at its closing symbol
      obtain ⟨e, he⟩ := hend place broken
      have hstop : EchoesAt params rest _ rest
          (do
            let x ← item
            if ← Syntax.eat .comma then return x :: (← Syntax.commaSeparated close item n)
            return [x])
          (Syntax.commaSeparated close item' (m + 1)) := faulty he _
      exact hstop
    | @token kind place place' broken ts us hkind h =>
      show EchoesAt params rest _ _ (if kind.isSymbol close then _ else _ : Parser (List α))
        (if kind.isSymbol close then _ else _ : Parser (List α))
      cases kind.isSymbol close with
      | true => exact .pure (.token _ _ _ hkind h)
      | false =>
        refine (hitem _ _ (.token _ _ _ hkind h)).bind fun x ts' us' h' hle => ?_
        exact moreItems hrest x h' fun _ _ h hlt => ih (by omega) (by omega) h

theorem arrayItems {item item' : Parser Expr} (hitem : Echoes params rest item item') {n m : Nat}
    (hn : ts.length ≤ n) (hm : ts.length ≤ m) (h : Alongside rest ts us) :
    EchoesAt params rest ts us (Syntax.arrayItems item n) (Syntax.arrayItems item' m) := by
  induction n generalizing m ts us with
  | zero => exact absurd h.length_pos (Nat.not_lt.2 hn)
  | succ n ih =>
    have hpos : 0 < m := Nat.lt_of_lt_of_le h.length_pos hm
    obtain ⟨m, rfl⟩ := Nat.exists_eq_succ_of_ne_zero (Nat.ne_zero_of_lt hpos)
    refine atSymbol hrest (by decide) h fun b => ?_
    cases b with
    | true => exact .pure h
    | false =>
      refine eat hrest (by decide) h (fun _ _ h hlt => ?_) ?_
      · exact (ih (by omega) (by omega) h).bind fun _ _ _ h _ => .pure h
      · refine (hitem _ _ h).bind fun x ts' us' h' hle => ?_
        exact moreItems hrest x h' fun _ _ h hlt => ih (by omega) (by omega) h

end Lists

end EchoesAt

/-! ### Grammars -/

/-- The parsers of expressions of the second grammar do before other tokens what those of the first
one do before the end of a text.  In the first grammar, every operand takes a token. -/
structure Grammar.Echo (params : List String) (rest : List Token) (g g' : Grammar) : Prop where
  separates (tokens : List Token) : g.Separates tokens
  assignment : Echoes params rest g.assignment g'.assignment
  unary : Echoes params rest g.unary g'.unary
  power : Echoes params rest g.power g'.power
  operand (tier : Nat) : Echoes params rest (g.operand tier) (g'.operand tier)
  chain (tier : Nat) (left : Expr) : Echoes params rest (g.chain tier left) (g'.chain tier left)
  link (optional : Bool) (e : Expr) : Echoes params rest (g.link optional e) (g'.link optional e)

/-- A parser that takes a token fails at the end of a text. -/
theorem Echoes.fails_at_end {α : Type} {p q : Parser α} (h : Echoes params rest p q)
    (hbegins : ∀ tokens, Begins tokens p) (place : List Char) (broken : Bool) :
    ∃ e, p.run (.start params [⟨.finish, place, broken⟩]) = .error e := by
  have hrun := h _ _ (.finish place broken)
  unfold EchoesAt at hrun
  have htakes := hbegins [⟨.finish, place, broken⟩] 1
    (.start params [⟨.finish, place, broken⟩])
  generalize p.run (.start params [⟨.finish, place, broken⟩]) = r, q.run (.start params rest) = r'
    at hrun htakes ⊢
  cases hrun with
  | error e => exact ⟨e, rfl⟩
  | @ok x ts us _ h hle hr =>
    -- the end of the text would have been taken, and it never is
    have hleft := (htakes x _ ⟨⟨[], rfl, .singleton _⟩, Nat.le_refl 1⟩ rfl).left
    exact absurd h.length_pos (Nat.not_lt.2 hleft)

theorem jointOf?_rightParen (tier : Nat) : jointOf? tier (.symbol .rightParen) = none := by
  show (tierOperators tier).lookup .rightParen = none
  unfold tierOperators
  split <;> rfl

namespace Grammar.Echo

variable {g g' : Grammar} (hrest : Closes rest) (hg : g.Echo params rest g')

/-! #### Primary expressions -/

theorem resolve (name : String) : Echoes params rest (Syntax.resolve name) (Syntax.resolve name) :=
  fun _ _ h => .ok h (Nat.le_refl _) (.inl rfl)

theorem word (place place' : List Char) (name : String) :
    Echoes params rest (Grammar.word place name) (Grammar.word place' name) := by
  intro ts us h
  unfold Grammar.word
  split
  · exact .pure h
  · exact .pure h
  · exact .pure h
  · split
    · exact EndsEchoed.error _ _
    · exact resolve name ts us h

include hg

theorem assignment_fails_at_end (place : List Char) (broken : Bool) :
    ∃ e, g.assignment.run (.start params [⟨.finish, place, broken⟩]) = .error e :=
  hg.assignment.fails_at_end (fun tokens => (hg.separates tokens).assignment) place broken

theorem propertyValue : Echoes params rest g.propertyValue g'.propertyValue :=
  fun _ _ h => .expect h hg.assignment

include hrest in
theorem property : Echoes params rest g.property g'.property := by
  have hvalue (key : String) : Echoes params rest (do return (key, ← g.propertyValue))
      (do return (key, ← g'.propertyValue)) := fun ts us h =>
    (hg.propertyValue ts us h).bind fun _ _ _ h _ => .pure h
  have hshort (key : String) : Echoes params rest (do return (key, ← Syntax.resolve key))
      (do return (key, ← Syntax.resolve key)) := fun ts us h =>
    (resolve key ts us h).bind fun _ _ _ h _ => .pure h
  intro ts us h
  cases h with
  | finish => exact EndsEchoed.error _ _
  | @token kind place place' broken ts us hkind h =>
    refine .advance hkind ?_
    cases kind with
    | name key =>
      refine .atSymbol hrest (by decide) h fun b => ?_
      cases b with
      | true => exact hvalue key ts us h
      | false =>
        dsimp only
        cases isReserved key with
        | true => exact EndsEchoed.error _ _
        | false => exact hshort key ts us h
    | string key => exact hvalue key ts us h
    | number x => exact hvalue _ ts us h
    | symbol | finish => exact EndsEchoed.error _ _

include hrest in
theorem primary : Echoes params rest g.primary g'.primary := by
  intro ts us h
  cases h with
  | finish => exact EndsEchoed.error _ _
  | @token kind place place' broken ts us hkind h =>
    refine .advance hkind ?_
    dsimp only
    split
    · exact .pure h
    · exact .pure h
    · exact word place place' _ ts us h
    · exact (hg.assignment ts us h).bind fun _ _ _ h _ => .expect h fun _ _ h => .pure h
    · exact .fueled hrest h (fun _ _ hn hm => .arrayItems hrest hg.assignment hn hm h)
        fun _ _ _ h => .expect h fun _ _ h => .pure h
    · exact .fueled hrest h
        (fun _ _ hn hm => .commaSeparated hrest (hg.property hrest) (fun _ _ => ⟨_, rfl⟩) _ hn hm h)
        fun _ _ _ h => .expect h fun _ _ h => .pure h
    · exact EndsEchoed.error _ _

/-! #### Chains of members and calls -/

include hrest in
theorem arguments : Echoes params rest g.arguments g'.arguments := fun _ _ h =>
  .expect h fun _ _ h =>
    .fueled hrest h
      (fun _ _ hn hm => .commaSeparated hrest hg.assignment hg.assignment_fails_at_end _ hn hm h)
      fun _ _ _ h => .expect h fun _ _ h => .pure h

theorem bracketed : Echoes params rest g.bracketed g'.bracketed := fun ts us h =>
  (hg.assignment ts us h).bind fun _ _ _ h _ => .expect h fun _ _ h => .pure h

include hrest in
theorem optionalLink (e : Expr) : Echoes params rest (g.optionalLink e) (g'.optionalLink e) := by
  intro ts us h
  cases h with
  | finish => exact EndsEchoed.error _ _
  | @token kind place place' broken ts us hkind h =>
    have hhere : Alongside rest (⟨kind, place, broken⟩ :: ts) (⟨kind, place', broken⟩ :: us) :=
      .token _ _ _ hkind h
    refine .peek ?_
    dsimp only
    split
    · exact (hg.arguments hrest _ _ hhere).bind fun _ _ _ h _ => .pure h
    · exact .advance hkind ((hg.bracketed _ _ h).bind fun _ _ _ h _ => .pure h)
    · exact .propertyName hhere fun _ _ _ h => .pure h

include hrest in
theorem links (optional : Bool) (e : Expr) :
    Echoes params rest (g.links optional e) (g'.links optional e) := by
  intro ts us h
  obtain ⟨place, broken, more, rfl⟩ := hrest
  cases h with
  | finish => exact .pure (.finish _ _)
  | @token kind place place' broken ts us hkind h =>
    refine .peek ?_
    dsimp only
    split
    · exact hg.link optional e _ _ (.token _ _ _ hkind h)
    · exact .pure (.token _ _ _ hkind h)

include hrest in
theorem linkHere (optional : Bool) (e : Expr) :
    Echoes params rest (g.linkHere optional e) (g'.linkHere optional e) := by
  intro ts us h
  cases h with
  | finish => exact EndsEchoed.error _ _
  | @token kind place place' broken ts us hkind h =>
    refine .peek ?_
    dsimp only
    split
    · exact .advance hkind (.propertyName h fun name _ _ h => hg.links hrest _ _ _ _ h)
    · exact .advance hkind
        ((hg.optionalLink hrest e _ _ h).bind fun _ _ _ h _ => hg.links hrest _ _ _ _ h)
    · exact .advance hkind ((hg.bracketed _ _ h).bind fun _ _ _ h _ => hg.links hrest _ _ _ _ h)
    · exact (hg.arguments hrest _ _ (.token _ _ _ hkind h)).bind fun _ _ _ h _ =>
        hg.links hrest _ _ _ _ h

/-! #### Operators -/

include hrest in
theorem postfixed : Echoes params rest g.postfixed g'.postfixed := by
  intro ts us h
  have hmember : EchoesAt params rest ts us g.callMember g'.callMember :=
    (hg.primary hrest ts us h).bind fun e _ _ h _ => hg.links hrest false e _ _ h
  refine hmember.bind fun e ts us h _ => ?_
  obtain ⟨place, broken, more, rfl⟩ := hrest
  cases h with
  | finish => exact .pure (.finish _ _)
  | @token kind place place' broken ts us hkind h =>
    refine .peek ?_
    dsimp only
    split
    · exact .pure (.token _ _ _ hkind h)
    · split
      · exact .pure (.token _ _ _ hkind h)
      · exact .checkAssignable e _ _ fun _ => .advance hkind (.pure h)

include hrest in
theorem unaryHere : Echoes params rest g.unaryHere g'.unaryHere := by
  intro ts us h
  have hpostfixed := hg.postfixed hrest ts us h
  obtain ⟨place, broken, more, rfl⟩ := hrest
  cases h with
  | finish => exact hpostfixed
  | @token kind place place' broken ts us hkind h =>
    refine .peek ?_
    dsimp only
    split
    · exact .advance hkind ((hg.unary _ _ h).bind fun target _ _ h _ =>
        .checkAssignable target _ _ fun _ => .pure h)
    · split
      · exact .advance hkind ((hg.unary _ _ h).bind fun _ _ _ h _ => .pure h)
      · exact hpostfixed

include hrest in
theorem exponent : Echoes params rest g.exponent g'.exponent := by
  intro ts us h
  refine (hg.unary ts us h).bind fun base ts us h _ => ?_
  obtain ⟨place, broken, more, rfl⟩ := hrest
  cases h with
  | finish => exact .pure (.finish _ _)
  | @token kind place place' broken ts us hkind h =>
    refine .atSymbol ⟨_, _, _, rfl⟩ (by decide) (.token _ _ _ hkind h) fun b => ?_
    split
    · split
      · exact EndsEchoed.error _ _
      · exact .advance hkind ((hg.power _ _ h).bind fun _ _ _ h _ => .pure h)
    · exact .pure (.token _ _ _ hkind h)

include hrest in
theorem chainHere (tier : Nat) (left : Expr) :
    Echoes params rest (g.chainHere tier left) (g'.chainHere tier left) := by
  intro ts us h
  obtain ⟨place, broken, more, rfl⟩ := hrest
  cases h with
  | finish =>
    refine .peek ?_
    dsimp only
    rw [jointOf?_rightParen]
    exact .pure (.finish _ _)
  | @token kind place place' broken ts us hkind h =>
    refine .peek ?_
    dsimp only
    split
    · exact .pure (.token _ _ _ hkind h)
    · exact .advance hkind ((hg.operand tier _ _ h).bind fun _ _ _ h _ => hg.chain tier _ _ _ h)

include hrest in
theorem tiers (tier : Nat) : Echoes params rest (g.tiers tier) (g'.tiers tier) := by
  induction tier with
  | zero => exact hg.exponent hrest
  | succ tier ih =>
    exact fun ts us h => (ih ts us h).bind fun left _ _ h _ => hg.chainHere hrest tier left _ _ h

include hrest in
theorem conditional : Echoes params rest g.conditional g'.conditional := by
  intro ts us h
  refine (hg.tiers hrest tierCount ts us h).bind fun test ts us h _ =>
    .eat hrest (by decide) h (fun _ _ h _ => ?_) (.pure h)
  refine (hg.assignment _ _ h).bind fun _ _ _ h _ => .expect h fun _ _ h => ?_
  exact (hg.assignment _ _ h).bind fun _ _ _ h _ => .pure h

include hrest in
theorem assignmentHere : Echoes params rest g.assignmentHere g'.assignmentHere := by
  intro ts us h
  refine (hg.conditional hrest ts us h).bind fun target ts us h _ => ?_
  obtain ⟨place, broken, more, rfl⟩ := hrest
  cases h with
  | finish => exact .pure (.finish _ _)
  | @token kind place place' broken ts us hkind h =>
    refine .peek ?_
    dsimp only
    split
    · exact .pure (.token _ _ _ hkind h)
    · exact .checkAssignable target _ _ fun _ =>
        .advance hkind ((hg.assignment _ _ h).bind fun _ _ _ h _ => .pure h)

include hrest in
theorem deeper : g.deeper.Echo params rest g'.deeper where
  separates tokens := (hg.separates tokens).deeper
  assignment := hg.assignmentHere hrest
  unary := hg.unaryHere hrest
  power := hg.exponent hrest
  operand := hg.tiers hrest
  chain := hg.chainHere hrest
  link := hg.linkHere hrest

end Grammar.Echo

theorem Echoes.exhausted {α : Type} {p q : Parser α} (h : Echoes params rest p q) :
    Echoes params rest p (faultHere .nestedTooDeeply) :=
  fun ts us hts => (h ts us hts).nestedTooDeeply _

/-- Nothing is parsed with the first grammar if it has no levels left, and the second one may run
out of levels anywhere. -/
theorem echo_grammar (hrest : Closes rest) (n m : Nat) :
    (grammar n).Echo params rest (grammar m) := by
  induction n generalizing m with
  | zero =>
    exact ⟨fun _ => separates_grammar 0, fun _ _ _ => .error _ _, fun _ _ _ => .error _ _,
      fun _ _ _ => .error _ _, fun _ _ _ _ => .error _ _, fun _ _ _ _ _ => .error _ _,
      fun _ _ _ _ _ => .error _ _⟩
  | succ n ih =>
    cases m with
    | succ m => exact (ih m).deeper hrest
    | zero =>
      -- where the first parser ends is seen from a second one with the same levels
      have hsame : (grammar (n + 1)).Echo params rest (grammar (n + 1)) := (ih n).deeper hrest
      exact {
        separates := hsame.separates
        assignment := hsame.assignment.exhausted
        unary := hsame.unary.exhausted
        power := hsame.power.exhausted
        operand := fun tier => (hsame.operand tier).exhausted
        chain := fun tier left => (hsame.chain tier left).exhausted
        link := fun optional e => (hsame.link optional e).exhausted }

end LiveMarkup.Syntax
