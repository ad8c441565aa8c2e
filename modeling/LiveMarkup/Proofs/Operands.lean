import LiveMarkup.Proofs.Enclosing
import LiveMarkup.Proofs.Ranks
import Mathlib

/-!
# Operands in parentheses

Whatever expression a text is, in parentheses it is an operand of every operator: the operator
stands at the top of the tree, with the trees of the two texts as its operands, or the text is
nested too deeply.  There is one exception.  Parentheses leave no trace in the tree, and the parser
of `**` looks at the tree of its left operand: one with a unary operator at its top is refused, in
parentheses or not.

## Main definitions

* `Parses` — what a parser makes of tokens, if they are not nested too deeply.
* `joined` — two texts in parentheses with an operator between them.

## Main results

* `parse_joined` — the tree of such a text, or why there is none.
* `negative_base_refused` — the exception.
-/

namespace LiveMarkup.Syntax

variable {params : List String} {α β : Type}

/-! ### Runs that may end early -/

/-- The parser makes `x` of the tokens and leaves `rest`, or finds them nested too deeply. -/
def Parses (params : List String) (p : Parser α) (ts : List Token) (x : α) (rest : List Token) :
    Prop :=
  p.run (.start params ts) = .ok (x, .start params rest) ∨
    ∃ place, p.run (.start params ts) = .error (.nestedTooDeeply, place)

/-- The parser finds the tokens nested too deeply, or a unary operator where it may not be. -/
def Refuses (params : List String) (p : Parser α) (ts : List Token) : Prop :=
  ∃ fault place, p.run (.start params ts) = .error (fault, place) ∧
    (fault = .nestedTooDeeply ∨ fault = .unaryBeforePower)

theorem Refuses.bind {p : Parser α} {ts : List Token} (h : Refuses params p ts)
    (k : α → Parser β) : Refuses params (p >>= k) ts := by
  obtain ⟨fault, place, hrun, hfault⟩ := h
  refine ⟨fault, place, ?_, hfault⟩
  rw [StateT.run_bind, hrun]
  rfl

namespace Parses

variable {p : Parser α} {k : α → Parser β} {x : α} {y : β} {t : Token} {ts us rest : List Token}

theorem pure : Parses params (Pure.pure x) ts x ts := .inl rfl

theorem bind (h : Parses params p ts x us) (hk : Parses params (k x) us y rest) :
    Parses params (p >>= k) ts y rest := by
  unfold Parses
  rw [StateT.run_bind]
  rcases h with hrun | ⟨place, hrun⟩
  · rw [hrun]
    exact hk
  · rw [hrun]
    exact .inr ⟨place, rfl⟩

/-- After a parser that finds the tokens nested too deeply, nothing is looked at. -/
theorem bind_refuses (h : Parses params p ts x us) (hk : Refuses params (k x) us) :
    Refuses params (p >>= k) ts := by
  unfold Refuses
  rw [StateT.run_bind]
  rcases h with hrun | ⟨place, hrun⟩
  · rw [hrun]
    exact hk
  · rw [hrun]
    exact ⟨_, place, rfl, .inl rfl⟩

theorem nestedTooDeeply : Parses params (faultHere .nestedTooDeeply) ts x rest := .inr ⟨_, rfl⟩

theorem peek {k : Token → Parser β} (h : Parses params (k t) (t :: ts) y rest) :
    Parses params (Syntax.peek >>= k) (t :: ts) y rest := h

theorem advance {k : Token → Parser β} (ht : t.kind.isFinish = false)
    (h : Parses params (k t) ts y rest) :
    Parses params (Syntax.advance >>= k) (t :: ts) y rest := by
  obtain ⟨kind, place, broken⟩ := t
  cases kind with
  | finish => cases ht
  | number | string | name | symbol => exact h

theorem atSymbol {symbol : Symbol} :
    Parses params (Syntax.atSymbol symbol) (t :: ts) (t.kind.isSymbol symbol) (t :: ts) := .inl rfl

theorem atFinish : Parses params Syntax.atFinish (t :: ts) t.kind.isFinish (t :: ts) := .inl rfl

end Parses

/-! ### One operand -/

section Operand

variable {e : Expr} {t : Token} {ts us rest : List Token}

/-- A parser of expressions reads up to a closing parenthesis what is a text of its own. -/
theorem parses_of_wholeExpression {n : Nat} {final : ParserState} (hrest : Closes rest)
    (h : (wholeExpression n).run (.start params ts) = .ok (.expression e, final))
    (halong : Alongside rest ts us) (m : Nat) :
    Parses params (grammar m).assignment us e rest := by
  have hecho : EchoesAt params rest ts us (grammar n).assignment (grammar m).assignment :=
    (echo_grammar hrest n m).assignment ts us halong
  unfold EchoesAt at hecho
  unfold wholeExpression at h
  rw [StateT.run_bind] at h
  generalize (grammar n).assignment.run (.start params ts) = r at h hecho
  cases hecho with
  | error => cases h
  | ok halong hle hr =>
    -- the whole text is taken, so the second parser has come to the parenthesis
    cases halong with
    | finish =>
      cases h
      exact hr
    | @token kind place place' broken ts' us' hkind =>
      cases kind with
      | finish => cases hkind
      | number | string | name | symbol => cases h

/-- The tokens begin with the expression in parentheses, and `rest` comes after it. -/
structure Encloses (params : List String) (ts : List Token) (e : Expr) (rest : List Token) :
    Prop where
  opens : ∃ place broken us, ts = ⟨.symbol .leftParen, place, broken⟩ :: us
  primary (n : Nat) : Parses params (grammar n).primary ts e rest

/-- What is a text of its own can be read in parentheses. -/
theorem encloses_of_wholeExpression {n : Nat} {final : ParserState} {place place' : List Char}
    {broken broken' : Bool}
    (h : (wholeExpression n).run (.start params ts) = .ok (.expression e, final))
    (halong : Alongside (⟨.symbol .rightParen, place, broken⟩ :: rest) ts us) :
    Encloses params (⟨.symbol .leftParen, place', broken'⟩ :: us) e rest where
  opens := ⟨place', broken', us, rfl⟩
  primary m := by
    have hinside := parses_of_wholeExpression ⟨_, _, _, rfl⟩ h halong m
    have hclose : Parses params (expect .rightParen) (⟨.symbol .rightParen, place, broken⟩ :: rest)
        () rest := .inl rfl
    exact .advance rfl (hinside.bind (hclose.bind .pure))

theorem chainHere_of_grip {g : Grammar} {tier : Nat} (htier : tier < tierCount)
    (ht : t.kind.grip ≤ 8 - tier) :
    Parses params (g.chainHere tier e) (t :: rest) e (t :: rest) := by
  refine .peek ?_
  rw [jointOf?_of_grip htier ht]
  exact .pure

/-- An expression of a tier is one of a looser tier, if no operator of the tiers up to that one
comes next. -/
theorem parses_tiers {g : Grammar} {tier higher : Nat} (hle : tier ≤ higher)
    (hhigher : higher ≤ tierCount) (h : Parses params (g.tiers tier) ts e (t :: rest))
    (ht : t.kind.grip ≤ 9 - higher) :
    Parses params (g.tiers higher) ts e (t :: rest) := by
  induction hle with
  | refl => exact h
  | @step higher hle ih =>
    have hlower := ih (Nat.le_of_succ_le hhigher) (by omega)
    exact hlower.bind (chainHere_of_grip hhigher (by omega))

namespace Encloses

variable (h : Encloses params ts e (t :: rest))

include h

theorem unary (ht : t.kind.grip ≤ 11) (n : Nat) :
    Parses params (grammar n).unary ts e (t :: rest) := by
  cases n with
  | zero => exact .nestedTooDeeply
  | succ n =>
    have hlinks : Parses params ((grammar n).links false e) (t :: rest) e (t :: rest) := by
      refine .peek ?_
      rw [isLink_of_grip (Nat.le_succ_of_le ht)]
      exact .pure
    have hpostfixed : Parses params (grammar n).postfixed ts e (t :: rest) := by
      refine Parses.bind ((h.primary n).bind hlinks) (.peek ?_)
      rw [updateOpOf?_of_grip ht]
      exact .pure
    obtain ⟨place, broken, us, rfl⟩ := h.opens
    exact .peek hpostfixed

theorem exponent (ht : t.kind.grip ≤ 9) (n : Nat) :
    Parses params (grammar n).exponent ts e (t :: rest) := by
  have hother : t.kind.isSymbol .starStar = false := isSymbol_of_grip (Nat.lt_succ_of_le ht)
  refine (h.unary (Nat.le_trans ht (by decide)) n).bind (.bind .atSymbol ?_)
  rw [hother]
  exact .pure

theorem tiers {tier : Nat} (htier : tier ≤ tierCount) (ht : t.kind.grip ≤ 9 - tier) (n : Nat) :
    Parses params ((grammar n).tiers tier) ts e (t :: rest) :=
  parses_tiers (Nat.zero_le tier) htier (h.exponent (by omega) n) ht

end Encloses

end Operand

/-! ### Two operands -/

/-- Every operator but the power belongs to a tier. -/
theorem exists_tier {joint : Joint} (h : joint ≠ .binary .pow) :
    ∃ tier, tier < tierCount ∧ joint.rank + tier = 8 := by
  have hbounds : 2 ≤ joint.rank ∧ joint.rank ≤ 8 := by
    cases joint with
    | binary op =>
      cases op with
      | pow => exact absurd rfl h
      | _ => decide
    | logical op => cases op <;> decide
  exact ⟨8 - joint.rank, by unfold tierCount; omega, by omega⟩

section Operator

variable {left right : Expr} {joint : Joint} {t last : Token} {ts us : List Token}
  (ht : t.kind = .symbol joint.symbol) (hlast : last.kind = .finish)
  (hleft : Encloses params ts left (t :: us)) (hright : Encloses params us right [last])

include ht hlast hleft hright

/-- An operator of a tier, which associates to the left. -/
theorem parses_tier {tier : Nat} (htier : tier < tierCount) (hjoint : joint.rank + tier = 8)
    (n : Nat) :
    Parses params ((grammar n).tiers (tier + 1)) ts (joint.join left right) [last] := by
  have hfinish : t.kind.isFinish = false := by rw [ht]; rfl
  have hgrip : t.kind.grip ≤ 9 - tier := by
    rw [ht, TokenKind.grip, grip_symbol (by omega)]
    omega
  have hstop (m : Nat) : last.kind.grip ≤ m := by rw [hlast]; exact Nat.zero_le m
  have hoperand : Parses params ((grammar n).operand tier) us right [last] := by
    cases n with
    | zero => exact .nestedTooDeeply
    | succ n => exact hright.tiers (Nat.le_of_lt htier) (hstop _) n
  have hchain : Parses params ((grammar n).chain tier (joint.join left right)) [last]
      (joint.join left right) [last] := by
    cases n with
    | zero => exact .nestedTooDeeply
    | succ n => exact chainHere_of_grip htier (hstop _)
  refine (hleft.tiers (Nat.le_of_lt htier) hgrip n).bind (.peek ?_)
  rw [ht, jointOf?_symbol hjoint]
  exact .advance hfinish (hoperand.bind hchain)

/-- A power, whose left operand may have no unary operator at its top. -/
theorem parses_exponent (hjoint : joint = .binary .pow) (n : Nat) :
    (left.isUnary = false → Parses params (grammar n).exponent ts (joint.join left right) [last]) ∧
      (left.isUnary = true → Refuses params (grammar n).exponent ts) := by
  subst hjoint
  have hfinish : t.kind.isFinish = false := by rw [ht]; rfl
  have hgrip : t.kind.grip ≤ 11 := by rw [ht]; decide
  have hbase := hleft.unary hgrip n
  have hstar : t.kind.isSymbol .starStar = true := by rw [ht]; rfl
  have hpower : Parses params (grammar n).power us right [last] := by
    cases n with
    | zero => exact .nestedTooDeeply
    | succ n => exact hright.exponent (by rw [hlast]; exact Nat.zero_le _) n
  constructor
  · intro hunary
    refine hbase.bind (.bind .atSymbol ?_)
    rw [hstar, hunary]
    exact .advance hfinish (hpower.bind .pure)
  · intro hunary
    refine hbase.bind_refuses (Parses.atSymbol.bind_refuses ?_)
    rw [hstar, hunary]
    exact ⟨_, _, rfl, .inr rfl⟩

end Operator

/-! ### Whole texts -/

section Whole

variable {e : Expr} {last : Token} {ts : List Token}

/-- Nothing comes after the tiers at the end of a text. -/
theorem parses_wholeExpression (hlast : last.kind = .finish) {tier : Nat} (htier : tier ≤ tierCount)
    {n : Nat} (h : Parses params ((grammar n).tiers tier) ts e [last]) :
    Parses params (wholeExpression (n + 1)) ts (.expression e) [last] := by
  obtain ⟨kind, place, broken⟩ := last
  cases hlast
  have htiers := parses_tiers htier (Nat.le_refl _) h (Nat.zero_le _)
  have hconditional : Parses params (grammar n).conditional ts e [⟨.finish, place, broken⟩] :=
    htiers.bind .pure
  have hassignment : Parses params (grammar (n + 1)).assignment ts e [⟨.finish, place, broken⟩] :=
    hconditional.bind (.peek .pure)
  exact hassignment.bind (.bind .atFinish .pure)

theorem refuses_wholeExpression {n : Nat} (h : Refuses params (grammar n).exponent ts) :
    Refuses params (wholeExpression (n + 1)) ts := by
  have htiers (tier : Nat) : Refuses params ((grammar n).tiers tier) ts := by
    induction tier with
    | zero => exact h
    | succ tier ih => exact ih.bind _
  exact (((htiers tierCount).bind _).bind _).bind _

end Whole

/-- Two texts in parentheses with an operator between them. -/
def joined (e : String) (op : Joint) (f : String) : String :=
  "(" ++ e ++ ") " ++ op.symbol.text ++ " (" ++ f ++ ")"

theorem Spelled.blank {cs : List Char} {ts : List Token} (h : Spelled cs ts) :
    Spelled (' ' :: cs) ts := by
  have hskip : skipTrivia .plain false (' ' :: cs) = skipTrivia .plain false cs := rfl
  cases h with
  | finish h => exact .finish (hskip.trans h)
  | token h hlexeme hmore => exact .token (hskip.trans h) hlexeme hmore

/-- In parentheses, a text without comments that is an expression is read as that expression. -/
theorem spelled_enclosed {e : String} {tree : Expr} {n : Nat} (he : CommentFree e)
    (hparse : parse e params .expression = .ok ⟨.expression tree, n⟩) {more : List Char}
    {after : List Token} (hmore : Spelled more after) :
    ∃ tokens, Spelled ('(' :: (e.toList ++ ')' :: more)) tokens ∧
      Encloses params tokens tree after := by
  obtain ⟨ts, final, htokens, hrun, -⟩ := parse_eq_ok hparse
  obtain ⟨place, broken, us, halong, hspelled⟩ :=
    spelled_append_close (tokenize_eq_ok.1 htokens) hmore (Nat.lt_succ_self _) he
  exact ⟨_, .token rfl rfl hspelled, encloses_of_wholeExpression hrun halong⟩

/-- The tokens of the text are those of two operands, with the operator between them. -/
theorem tokenize_joined {e f : String} {left right : Expr} {n m : Nat} (he : CommentFree e)
    (hf : CommentFree f) (hleft : parse e params .expression = .ok ⟨.expression left, n⟩)
    (hright : parse f params .expression = .ok ⟨.expression right, m⟩) (op : Joint) :
    ∃ tokens t us last, tokenize (joined e op f) = .ok tokens ∧
      t.kind = .symbol op.symbol ∧ last.kind = .finish ∧
      Encloses params tokens left (t :: us) ∧ Encloses params us right [last] := by
  have hend : Spelled [] [⟨.finish, [], false⟩] := .finish rfl
  obtain ⟨us, hus, hright⟩ := spelled_enclosed hf hright hend
  obtain ⟨c, cs, hop, hskip, hlexeme⟩ := splitLexeme_text (σ := ⟨fun _ => [], false⟩)
    (show (TokenKind.symbol op.symbol).Readable _ from trivial)
    (.inr ⟨'(' :: (f.toList ++ [')']), rfl⟩)
  have hsymbol : Spelled (c :: cs) (⟨.symbol op.symbol, c :: cs, false⟩ :: us) :=
    .token hskip hlexeme hus.blank
  rw [← hop] at hsymbol
  obtain ⟨tokens, htokens, hleft⟩ := spelled_enclosed he hleft hsymbol.blank
  refine ⟨tokens, _, us, _, tokenize_eq_ok.2 ?_, rfl, rfl, hleft, hright⟩
  have htext : (joined e op f).toList = '(' :: (e.toList ++ ')' :: ' ' ::
      (op.symbol.text.toList ++ ' ' :: '(' :: (f.toList ++ [')']))) := by
    simp [joined]
  rw [htext]
  exact htokens

/-- Two texts without comments that are expressions are, in parentheses, the operands of whatever
operator stands between them, unless that nests too deeply.  Only the left operand of `**` may have
no unary operator at its top. -/
theorem parse_joined {e f : String} {left right : Expr} {n m : Nat} (he : CommentFree e)
    (hf : CommentFree f) (hleft : parse e params .expression = .ok ⟨.expression left, n⟩)
    (hright : parse f params .expression = .ok ⟨.expression right, m⟩) (op : Joint) :
    if op = .binary .pow ∧ left.isUnary = true then
      ∃ fault offset, parse (joined e op f) params .expression = .error ⟨fault, offset⟩ ∧
        (fault = .nestedTooDeeply ∨ fault = .unaryBeforePower)
    else
      parse (joined e op f) params .expression =
          .ok ⟨.expression (op.join left right), params.length⟩ ∨
        ∃ offset, parse (joined e op f) params .expression = .error ⟨.nestedTooDeeply, offset⟩ := by
  obtain ⟨tokens, t, us, last, htokens, ht, hlast, hleft, hright⟩ :=
    tokenize_joined he hf hleft hright op
  obtain ⟨levels, hlevels⟩ : ∃ levels, maxNesting = levels + 1 := ⟨_, rfl⟩
  -- only the parser of powers looks at the tree of an operand
  split
  · next hpower =>
    have hrefused := (parses_exponent ht hlast hleft hright hpower.1 levels).2 hpower.2
    obtain ⟨fault, place, hrun, hfault⟩ := refuses_wholeExpression hrefused
    refine ⟨fault, offsetOf (joined e op f).toList place, ?_, hfault⟩
    rw [parse_eq, htokens]
    simp only [Except.bind, wholeText, hlevels, hrun]
    rfl
  · next hpower =>
    have hread : Parses params (wholeExpression (levels + 1)) tokens
        (.expression (op.join left right)) [last] := by
      by_cases hop : op = .binary .pow
      · have hunary : left.isUnary = false := Bool.eq_false_iff.2 fun h => hpower ⟨hop, h⟩
        exact parses_wholeExpression hlast (Nat.zero_le _)
          ((parses_exponent ht hlast hleft hright hop levels).1 hunary)
      · obtain ⟨tier, htier, hrank⟩ := exists_tier hop
        exact parses_wholeExpression hlast htier
          (parses_tier ht hlast hleft hright htier hrank levels)
    rw [parse_eq, htokens]
    rcases hread with hrun | ⟨place, hrun⟩
    · left
      simp only [Except.bind, wholeText, hlevels, hrun]
      rfl
    · right
      simp only [Except.bind, wholeText, hlevels, hrun]
      exact ⟨_, rfl⟩

theorem parse_choice : parse "a ? b : a" ["a", "b"] .expression =
    .ok ⟨.expression (.conditional (.param 0 "a") (.param 1 "b") (.param 0 "a")), 2⟩ := by
  cbv

theorem parse_assignment : parse "a = b" ["a", "b"] .expression =
    .ok ⟨.expression (.assign .assign (.param 0 "a") (.param 1 "b")), 2⟩ := by
  cbv

/-- A choice and an assignment, which bind more loosely than any operator, as operands. -/
theorem parse_choice_times_assignment :
    CommentFree "a ? b : a" ∧ CommentFree "a = b" ∧
      (parse "a ? b : a" ["a", "b"] .expression).isOk = true ∧
      (parse "a = b" ["a", "b"] .expression).isOk = true ∧
      parse "(a ? b : a) * (a = b)" ["a", "b"] .expression =
        .ok ⟨.expression (.binary .mul
          (.conditional (.param 0 "a") (.param 1 "b") (.param 0 "a"))
          (.assign .assign (.param 0 "a") (.param 1 "b"))), 2⟩ := by
  have hfree : CommentFree "a ? b : a" ∧ CommentFree "a = b" := by decide +kernel
  have hok : (parse "(a ? b : a) * (a = b)" ["a", "b"] .expression).isOk = true := by
    decide +kernel
  have htext : joined "a ? b : a" (.binary .mul) "a = b" = "(a ? b : a) * (a = b)" := rfl
  have hjoined := parse_joined hfree.1 hfree.2 parse_choice parse_assignment (.binary .mul)
  rw [if_neg (by decide), htext] at hjoined
  refine ⟨hfree.1, hfree.2, by rw [parse_choice]; rfl, by rw [parse_assignment]; rfl, ?_⟩
  rcases hjoined with h | ⟨offset, h⟩
  · exact h
  · rw [h] at hok
    cases hok

/-- A negated name is refused as the left operand of `**`, in parentheses as well. -/
theorem negative_base_refused :
    CommentFree "-a" ∧ CommentFree "b" ∧
      parse "-a" ["a", "b"] .expression =
        .ok ⟨.expression (.unary .negate (.param 0 "a")), 2⟩ ∧
      parse "b" ["a", "b"] .expression = .ok ⟨.expression (.param 1 "b"), 2⟩ ∧
      joined "-a" (.binary .pow) "b" = "(-a) ** (b)" ∧
      parse "(-a) ** (b)" ["a", "b"] .expression = .error ⟨.unaryBeforePower, 5⟩ := by
  refine ⟨by decide +kernel, by decide +kernel, ?_, ?_, by decide +kernel, ?_⟩
  · cbv
  · cbv
  · cbv

end LiveMarkup.Syntax
