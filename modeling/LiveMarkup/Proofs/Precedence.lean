import LiveMarkup.Proofs.Ranks
import LiveMarkup.Proofs.Spelling

/-!
# Precedence and associativity

A tree that is written out with as few parentheses as possible is read back as the same tree, unless
it is nested too deeply.  Each parser reads the expressions of its own rank and of all higher ranks,
up to a token that does not go on with them.  The argument is an induction on the levels that are
left, not on the tree: every operand is read with one level less.

## Main definitions

* `ReadsAt` — a parser reads back what is written out where a rank is needed.
* `Grammar.ReadsBack` — the parsers of a grammar do.

## Main results

* `readsBack_grammar` — the parsers of every grammar do, by induction on its levels.
* `parse_text_ok_or_nestedTooDeeply` — a tree that is written out is parsed as the same tree, or is
  found to be nested too deeply.
-/

namespace LiveMarkup.Syntax

/-- The parser reads back what is written out where the rank is needed, up to a token that does not
go on with it. -/
def ReadsAt (σ : Style) (params : List String) (p : Parser Expr) (rank : Nat) : Prop :=
  ∀ e rest, e.Expressible σ params false → Stops rank rest →
    Takes params p (e.tokensAt σ rank ++ rest) e rest

/-- A chain of members and calls, wrapped up if there is a `?.` link in it. -/
def Expr.wrapped (optional : Bool) (e : Expr) : Expr := if optional then .optionalChain e else e

/-- The parsers of a grammar read back what is written out. -/
structure Grammar.ReadsBack (σ : Style) (params : List String) (g : Grammar) : Prop where
  assignment : ReadsAt σ params g.assignment 0
  unary : ReadsAt σ params g.unary 10
  power : ReadsAt σ params g.power 9
  operand {tier : Nat} (htier : tier < tierCount) : ReadsAt σ params (g.operand tier) (9 - tier)
  chain {tier : Nat} {left e : Expr} {tokens rest : List TokenKind} (htier : tier < tierCount)
    (h : Chained σ params tier left tokens e) (hrest : Stops (8 - tier) rest) :
    Takes params (g.chain tier left) (tokens ++ rest) e rest
  link {before after : Bool} {base e : Expr} {tokens rest : List TokenKind}
    (h : Linked σ params before base tokens after e) (hne : tokens ≠ []) (hrest : Stops 12 rest) :
    Takes params (g.link before base) (tokens ++ rest) (e.wrapped after) rest

variable {σ : Style} {params : List String}

theorem readsBack_exhausted : Grammar.exhausted.ReadsBack σ params where
  assignment _ _ _ _ := .nestedTooDeeply
  unary _ _ _ _ := .nestedTooDeeply
  power _ _ _ _ := .nestedTooDeeply
  operand _ _ _ _ _ := .nestedTooDeeply
  chain _ _ _ := .nestedTooDeeply
  link _ _ _ := .nestedTooDeeply

namespace Grammar.ReadsBack

variable {rest : List TokenKind}

/-! #### Primary expressions -/

theorem word {name : String} (h : isReserved name = false) (place : List Char) :
    Takes params (Grammar.word place name) rest ((ParserState.start params []).resolve name)
      rest := by
  unfold Grammar.word
  split
  · exact absurd h (by decide)
  · exact absurd h (by decide)
  · exact absurd h (by decide)
  · rw [h]
    exact .resolve name

theorem named {g : Grammar} {name : String} {e : Expr} (h : isReserved name = false)
    (he : (ParserState.start params []).resolve name = e) :
    Takes params g.primary (.name name :: rest) e rest :=
  .advance rfl fun place => he ▸ word h place

theorem resolve_param {name : String} {slot : Nat} (h : lastPosition? params name = some slot) :
    (ParserState.start params []).resolve name = .param slot name := by
  simp [ParserState.resolve, ParserState.start, h]

theorem resolve_undefined (h : lastPosition? params "undefined" = none) :
    (ParserState.start params []).resolve "undefined" = .literal .undefined := by
  simp [ParserState.resolve, ParserState.start, h]

theorem resolve_global {g : Global} (h : lastPosition? params g.name = none)
    (hglobal : Global.ofName? g.name = some g) :
    (ParserState.start params []).resolve g.name = .global g := by
  have hne : g.name ≠ "undefined" := by
    rintro heq
    rw [heq] at hglobal
    cases hglobal
  simp [ParserState.resolve, ParserState.start, h, hglobal, hne]

theorem resolve_unbound {name : String} (h : lastPosition? params name = none)
    (hundefined : name ≠ "undefined") (hglobal : Global.ofName? name = none) :
    (ParserState.start params []).resolve name = .unbound name := by
  simp [ParserState.resolve, ParserState.start, h, hglobal, hundefined]

/-- Tokens between two others, with more after them. -/
theorem enclosed_append (first last : TokenKind) (tokens : List TokenKind) :
    (first :: tokens ++ [last]) ++ rest = first :: (tokens ++ last :: rest) := by
  simp

theorem updateOpOf?_symbol (op : UpdateOp) : updateOpOf? (.symbol op.symbol) = some op := by
  cases op <;> rfl

theorem assignOpOf?_symbol {op : AssignOp} {symbol : Symbol} (h : op.symbol? = some symbol) :
    assignOpOf? (.symbol symbol) = some op ∧ (TokenKind.symbol symbol).grip = 1 := by
  cases op with
  | assign =>
    cases h
    exact ⟨rfl, rfl⟩
  | compound op => cases op <;> cases h <;> exact ⟨rfl, rfl⟩

theorem rank_ne_one_of_isAssignable {e : Expr} (h : e.isAssignable = true) : e.rank ≠ 1 := by
  intro hrank
  cases (hrank ▸ ofRank e : OfRank 1 e) with
  | joined _ _ _ _ hlow => omega
  | conditional => cases h

theorem updateOpOf?_token (op : UnaryOp) : updateOpOf? op.token = none := by
  cases op <;> rfl

theorem unaryOpOf?_token (op : UnaryOp) : unaryOpOf? op.token = some op := by
  cases op <;> rfl

theorem avoids_keyToken {symbol : Symbol} (key : String) (more : List TokenKind) :
    Avoids symbol (keyToken key :: more) := by
  refine ⟨keyToken key, more, rfl, ?_⟩
  unfold keyToken
  split <;> rfl

variable {g : Grammar} (hg : g.ReadsBack σ params)

include hg

theorem assignment_cons {e : Expr} (he : e.Expressible σ params false) {symbol : Symbol}
    (hsymbol : (TokenKind.symbol symbol).grip = 0) (more : List TokenKind) :
    Takes params g.assignment (e.tokens σ ++ .symbol symbol :: more) e (.symbol symbol :: more) :=
  hg.assignment e _ he (stops_cons (Nat.le_of_eq hsymbol) more)

theorem takesItem {e : Expr} (he : e.Expressible σ params false) {close : Symbol}
    (hclose : (TokenKind.symbol close).grip = 0) :
    TakesItem params close g.assignment (e.tokens σ) e := by
  rintro symbol rest (rfl | rfl)
  · exact hg.assignment_cons he rfl rest
  · exact hg.assignment_cons he hclose rest

theorem arrayLiteral {items : List Expr}
    (hitems : ∀ e ∈ items, σ.leavesOut e = false → e.Expressible σ params false) :
    Takes params g.arrayLiteral
      (elementTokens (elementsTokens σ items) ++ .symbol .rightBracket :: rest) (.array items)
      rest := by
  refine .bind (.fueled_arrayItems ?_ ?_) (.bind .expect .pure)
  · exact fun e he hout => hg.takesItem (hitems e he hout) rfl
  · intro e he hout
    have hopens := opens_tokens (hitems e he hout)
    exact ⟨hopens.avoids rfl, hopens.avoids rfl⟩

theorem property {key : String} {value : Expr} (hvalue : value.Expressible σ params false) :
    TakesItem params .rightBrace g.property (keyToken key :: .symbol .colon :: value.tokens σ)
      (key, value) := by
  intro symbol rest hsymbol
  have hread : Takes params g.propertyValue
      (.symbol .colon :: value.tokens σ ++ .symbol symbol :: rest) value
      (.symbol symbol :: rest) :=
    .bind .expect (hg.takesItem hvalue rfl symbol rest hsymbol)
  unfold keyToken
  split
  · exact .advance rfl fun _ => .bind .atSymbol (.map hread)
  · exact .advance rfl fun _ => .map hread

theorem objectLiteral {properties : List (String × Expr)}
    (hvalues : ∀ p ∈ properties, p.2.Expressible σ params false) :
    Takes params g.objectLiteral
      (commaSeparatedTokens (propertiesTokens σ properties) ++ .symbol .rightBrace :: rest)
      (.object properties) rest := by
  rw [propertiesTokens_eq_map]
  refine .bind (.fueled_commaSeparated (by decide) ?_ ?_) (.bind .expect .pure)
  · exact fun p hp => hg.property (hvalues p hp)
  · exact fun p _ => avoids_keyToken p.1 _

/-- A whole expression of the highest rank, or one in parentheses; anything may come after it. -/
theorem primary {e : Expr} (he : e.Expressible σ params false) :
    Takes params g.primary (e.tokensAt σ 14 ++ rest) e rest := by
  rcases Nat.lt_or_ge e.rank 14 with hlt | hge
  · rw [tokensAt_of_lt hlt, enclosed_append]
    exact .advance rfl fun _ => .bind (hg.assignment_cons he rfl rest) (.bind .expect .pure)
  rw [tokensAt_of_le hge]
  cases he with
  | null | number | string => exact .advance rfl fun _ => .pure
  | bool b => cases b <;> exact .advance rfl fun _ => .pure
  | param hname hslot => exact named hname.not_reserved (resolve_param hslot)
  | undefined hslot => exact named (by decide) (resolve_undefined hslot)
  | global hslot hglobal =>
    exact named (isName_of_ofName? hglobal).2 (resolve_global hslot hglobal)
  | unbound hname hslot hundefined hglobal =>
    exact named hname.not_reserved (resolve_unbound hslot hundefined hglobal)
  | array hitems =>
    rw [Expr.tokens, enclosed_append]
    exact .advance rfl fun _ => hg.arrayLiteral hitems
  | object hvalues =>
    rw [Expr.tokens, enclosed_append]
    exact .advance rfl fun _ => hg.objectLiteral hvalues
  | @binary _ op => cases op <;> simp [Expr.rank, BinaryOp.rank] at hge
  | @logical _ op => cases op <;> simp [Expr.rank, LogicalOp.rank] at hge
  | @update _ _ result => cases result <;> simp [Expr.rank] at hge
  | member | index | call | optionalChain | unary | conditional | assign =>
    simp [Expr.rank] at hge

/-! #### Chains of members and calls -/

theorem arguments {args : List Expr} (hargs : ∀ e ∈ args, e.Expressible σ params false) :
    Takes params g.arguments
      (.symbol .leftParen :: commaSeparatedTokens (listTokens σ args) ++ [.symbol .rightParen] ++
        rest) args rest := by
  rw [enclosed_append, listTokens_eq_map]
  refine .bind .expect (.bind (.fueled_commaSeparated (by decide) ?_ ?_) (.bind .expect .pure))
  · exact fun e he => hg.takesItem (hargs e he) rfl
  · exact fun e he => (opens_tokens (hargs e he)).avoids rfl

theorem bracketed {key : Expr} (hkey : key.Expressible σ params false) :
    Takes params g.bracketed (key.tokens σ ++ .symbol .rightBracket :: rest) key rest :=
  .bind (hg.assignment_cons hkey rfl rest) (.bind .expect .pure)

theorem optionalLink {link : Link} (hlink : link.Expressible σ params) (base : Expr) :
    Takes params (g.optionalLink base) (link.body σ ++ rest) (link.attach true base) rest := by
  cases link with
  | member property =>
    exact .peek fun _ => .map .propertyName
  | index key =>
    rw [Link.body, enclosed_append]
    exact .peek fun _ => .skip rfl (.map (hg.bracketed hlink))
  | call args =>
    exact .peek fun _ => .map (hg.arguments hlink)

theorem links {before after : Bool} {base e : Expr} {tokens : List TokenKind}
    (h : Linked σ params before base tokens after e) (hrest : Stops 12 rest) :
    Takes params (g.links before base) (tokens ++ rest) (e.wrapped after) rest := by
  cases h with
  | nil =>
    obtain ⟨kind, more, rfl, hgrip⟩ := hrest
    refine .peek fun _ => ?_
    rw [isLink_of_grip hgrip]
    exact .pure
  | @cons _ optional _ link _ _ tokens hlink h =>
    obtain ⟨first, more, heq, hfirst⟩ := link.tokens_eq_cons σ optional
    have hread := hg.link (.cons hlink h) (by simp [heq]) hrest
    rw [heq] at hread ⊢
    refine .peek fun _ => ?_
    rw [hfirst]
    exact hread

theorem linkHere {before after : Bool} {base e : Expr} {tokens : List TokenKind}
    (h : Linked σ params before base tokens after e) (hne : tokens ≠ []) (hrest : Stops 12 rest) :
    Takes params (g.linkHere before base) (tokens ++ rest) (e.wrapped after) rest := by
  cases h with
  | nil => exact absurd rfl hne
  | @cons _ optional _ link _ _ tokens hlink h =>
    have hmore := hg.links h hrest
    rw [List.append_assoc]
    cases optional with
    | true =>
      rw [Bool.or_true] at hmore
      exact .peek fun _ => .skip rfl (.bind (hg.optionalLink hlink base) hmore)
    | false =>
      rw [Bool.or_false] at hmore
      cases link with
      | member property =>
        exact .peek fun _ => .skip rfl (.bind .propertyName hmore)
      | index key =>
        rw [Link.tokens, Link.body, enclosed_append]
        exact .peek fun _ => .skip rfl (.bind (hg.bracketed hlink) hmore)
      | call args =>
        exact .peek fun _ => .bind (hg.arguments hlink) hmore

theorem callMember : ReadsAt σ params g.callMember 12 := by
  intro e rest he hrest
  -- an optional chain is written as its links are, and nothing else has optional links
  have hchain : ∃ chain, ∃ links : Expr, links.Expressible σ params chain ∧
      e.tokensAt σ 12 = links.tokensAt σ 13 ∧ links.wrapped links.isOpen = e := by
    by_cases hrank : e.rank = 12
    · cases (hrank ▸ ofRank e : OfRank 12 e) with
      | joined _ _ _ _ _ hhigh => omega
      | @optionalChain links =>
        cases he with
        | optionalChain hlinks hopen =>
          have htokens : links.tokensAt σ 13 = links.tokens σ :=
            tokensAt_of_le (Nat.le_of_eq (rank_of_isOpen hopen).symm)
          exact ⟨true, links, hlinks, htokens ▸ tokensAt_of_le (Nat.le_of_eq hrank.symm),
            by rw [hopen]; rfl⟩
    · exact ⟨false, e, he, (tokensAt_succ hrank).symm, by rw [isOpen_of_expressible he]; rfl⟩
  obtain ⟨chain, links, hlinks, htokens, hwrapped⟩ := hchain
  obtain ⟨base, tokens, hbase, hlinked, hbegin⟩ := exists_linked hlinks
  rw [htokens, hbegin, List.append_assoc, ← hwrapped]
  exact .bind (hg.primary hbase) (hg.links hlinked hrest)

/-! #### Operators -/

theorem postfixed : ReadsAt σ params g.postfixed 11 := by
  intro e rest he hrest
  by_cases hrank : e.rank = 11
  · cases (hrank ▸ ofRank e : OfRank 11 e) with
    | joined _ _ _ _ _ hhigh => omega
    | @updateAfter op target =>
      cases he with
      | update htarget hassignable =>
        have hgrip : (TokenKind.symbol op.symbol).grip = 12 := by cases op <;> rfl
        rw [tokensAt_of_le (Nat.le_of_eq hrank.symm), Expr.tokens, List.append_assoc]
        refine .bind (hg.callMember target _ htarget (stops_cons (Nat.le_of_eq hgrip) rest)) ?_
        refine .peek fun place => ?_
        rw [updateOpOf?_symbol]
        exact .bind (.checkAssignable hassignable place) (.skip rfl .pure)
  · rw [← tokensAt_succ hrank]
    refine .bind (hg.callMember e rest he (hrest.mono (by decide))) ?_
    obtain ⟨kind, more, rfl, hgrip⟩ := hrest
    refine .peek fun _ => ?_
    rw [updateOpOf?_of_grip hgrip]
    exact .pure

theorem unaryHere : ReadsAt σ params g.unaryHere 10 := by
  intro e rest he hrest
  by_cases hrank : e.rank = 10
  · rw [tokensAt_of_le (Nat.le_of_eq hrank.symm)]
    cases (hrank ▸ ofRank e : OfRank 10 e) with
    | joined _ _ _ _ _ hhigh => omega
    | @unary op operand =>
      cases he with
      | unary hoperand =>
        refine .peek fun _ => ?_
        rw [updateOpOf?_token, unaryOpOf?_token]
        exact .skip (by cases op <;> rfl) (.map (hg.unary operand rest hoperand hrest))
    | @updateBefore op target =>
      cases he with
      | update htarget hassignable =>
        refine .peek fun place => ?_
        rw [updateOpOf?_symbol]
        refine .skip rfl (.bind (hg.unary target rest htarget hrest) ?_)
        exact .bind (.checkAssignable hassignable place) .pure
  · rw [← tokensAt_succ hrank]
    -- what can be read at the next rank begins with none of the operators that are looked for
    have hread := hg.postfixed e rest he (hrest.mono (by decide))
    obtain ⟨first, more, heq, -, hfirst⟩ := opens_tokensAt (σ := σ) he 11
    have hprimary := hfirst (Nat.le_refl 11)
    rw [heq] at hread ⊢
    refine .peek fun _ => ?_
    rw [updateOpOf?_of_opensPrimary hprimary, unaryOpOf?_of_opensPrimary hprimary]
    exact hread

theorem exponent : ReadsAt σ params g.exponent 9 := by
  intro e rest he hrest
  by_cases hrank : e.rank = 9
  · cases (hrank ▸ ofRank e : OfRank 9 e) with
    | joined _ _ _ _ _ hhigh => omega
    | @power base power =>
      cases he with
      | binary hbase hpower hunary =>
        rw [tokensAt_of_le (Nat.le_of_eq hrank.symm), Expr.tokens, List.append_assoc]
        refine .bind (hg.unary base _ hbase (stops_cons (show 10 ≤ 10 by decide) _)) ?_
        refine .bind .atSymbol ?_
        -- a unary operator on the left of the power would be a fault here
        rw [hunary rfl]
        exact .skip rfl (.map (hg.power power rest hpower hrest))
  · rw [← tokensAt_succ hrank]
    refine .bind (hg.unary e rest he (hrest.mono (by decide))) ?_
    exact .bind (.not_atSymbol (hrest.avoids (by decide))) .pure

theorem chainHere {tier : Nat} (htier : tier < tierCount) {left e : Expr}
    {tokens : List TokenKind} (h : Chained σ params tier left tokens e)
    (hrest : Stops (8 - tier) rest) :
    Takes params (g.chainHere tier left) (tokens ++ rest) e rest := by
  cases h with
  | nil =>
    obtain ⟨kind, more, rfl, hgrip⟩ := hrest
    refine .peek fun _ => ?_
    rw [jointOf?_of_grip htier hgrip]
    exact .pure
  | cons hjoint hright hmore =>
    rw [List.append_assoc]
    refine .peek fun _ => ?_
    rw [jointOf?_symbol hjoint]
    refine .skip rfl (.bind ?_ (hg.chain htier hmore hrest))
    exact hg.operand htier _ _ hright (hmore.stops hrest)

theorem tiers {tier : Nat} (htier : tier ≤ tierCount) :
    ReadsAt σ params (g.tiers tier) (9 - tier) := by
  induction tier with
  | zero => exact hg.exponent
  | succ tier ih =>
    intro e rest he hrest
    have hsub : 9 - (tier + 1) = 8 - tier := Nat.add_sub_add_right 8 1 tier
    rw [hsub] at hrest ⊢
    -- the parser of the tier before reads the leftmost operand, and the chain goes on from there
    obtain ⟨head, tokens, hhead, hchained, htokens⟩ := exists_chained htier he
    rw [htokens, List.append_assoc]
    refine .bind (ih (Nat.le_of_succ_le htier) head _ hhead (hchained.stops hrest)) ?_
    exact hg.chainHere htier hchained hrest

/-- The last part of a conditional goes on with an assignment operator; what is not a conditional
ends there. -/
theorem conditional {e : Expr} (he : e.Expressible σ params false) (hrest : Stops 1 rest)
    (hlast : e.rank = 1 → Stops 0 rest) :
    Takes params g.conditional (e.tokensAt σ 1 ++ rest) e rest := by
  by_cases hrank : e.rank = 1
  · cases (hrank ▸ ofRank e : OfRank 1 e) with
    | joined _ _ _ _ hlow => omega
    | @conditional test consequent alternate =>
      cases he with
      | conditional htest hconsequent halternate =>
        have htokens : (Expr.conditional test consequent alternate).tokens σ ++ rest =
            test.tokensAt σ 2 ++ .symbol .question ::
              (consequent.tokens σ ++ .symbol .colon :: (alternate.tokens σ ++ rest)) := by
          simp [Expr.tokens, Expr.tokensAt]
        rw [tokensAt_of_le (Nat.le_of_eq hrank.symm), htokens]
        refine .bind (hg.tiers (Nat.le_refl tierCount) test _ htest
          (stops_cons (show 2 ≤ 2 by decide) _)) (.bind .eat ?_)
        refine .bind (hg.assignment_cons hconsequent rfl _) (.bind .expect (.map ?_))
        exact hg.assignment alternate rest halternate (hlast hrank)
  · rw [← tokensAt_succ hrank]
    refine .bind (hg.tiers (Nat.le_refl tierCount) e rest he (hrest.mono (by decide))) ?_
    exact .bind (.not_eat (hrest.avoids (by decide))) .pure

theorem assignmentHere : ReadsAt σ params g.assignmentHere 0 := by
  intro e rest he hrest
  by_cases hrank : e.rank = 0
  · cases (hrank ▸ ofRank e : OfRank 0 e) with
    | joined _ _ _ _ hlow => omega
    | @assign op target value =>
      cases he with
      | assign hop htarget hassignable hvalue =>
        obtain ⟨symbol, hsymbol⟩ := Option.isSome_iff_exists.1 hop
        obtain ⟨hread, hgrip⟩ := assignOpOf?_symbol hsymbol
        rw [tokensAt_of_le (Nat.le_of_eq hrank.symm), Expr.tokens, List.append_assoc, hsymbol]
        refine .bind (hg.conditional htarget (stops_cons (Nat.le_of_eq hgrip) _) ?_) ?_
        -- a conditional would take the operator into its last part, but is no target
        · exact fun htargetRank => absurd htargetRank (rank_ne_one_of_isAssignable hassignable)
        refine .peek fun place => ?_
        rw [Option.getD_some, hread]
        refine .bind (.checkAssignable hassignable place) (.skip rfl (.map ?_))
        exact hg.assignment value rest hvalue hrest
  · rw [← tokensAt_succ hrank]
    refine .bind (hg.conditional he (hrest.mono (by decide)) fun _ => hrest) ?_
    obtain ⟨kind, more, rfl, hgrip⟩ := hrest
    refine .peek fun _ => ?_
    rw [assignOpOf?_of_grip hgrip]
    exact .pure

end Grammar.ReadsBack

/-- Every parser of a deeper level reads back what the parsers inside it do. -/
theorem Grammar.ReadsBack.deeper {g : Grammar} (hg : g.ReadsBack σ params) :
    g.deeper.ReadsBack σ params where
  assignment := hg.assignmentHere
  unary := hg.unaryHere
  power := hg.exponent
  operand htier := hg.tiers (Nat.le_of_lt htier)
  chain htier h hrest := hg.chainHere htier h hrest
  link h hne hrest := hg.linkHere h hne hrest

theorem readsBack_grammar (levels : Nat) : (grammar levels).ReadsBack σ params := by
  induction levels with
  | zero => exact readsBack_exhausted
  | succ levels ih => exact ih.deeper

/-! ### Whole texts -/

theorem takes_wholeExpression {e : Expr} (he : e.Expressible σ params false) (levels : Nat) :
    Takes params (wholeExpression levels) (e.tokens σ ++ [.finish]) (.expression e) [.finish] := by
  have hgrammar : (grammar levels).ReadsBack σ params := readsBack_grammar levels
  have hread := hgrammar.assignment e [.finish] he (stops_cons (Nat.le_refl 0) [])
  rw [tokensAt_of_le (Nat.zero_le _)] at hread
  exact .bind hread (.bind .atFinish .pure)

/-- A style that writes every number as a half. -/
def Style.halves : Style where
  numeral _ := ".5".toList
  holes := false

/-- A tree with operators of many ranks, of which three operands need parentheses. -/
def mixedTree : Expr :=
  .assign (.compound .add) (.member (.param 0 "a") "x" false)
    (.conditional
      (.logical .nullish
        (.optionalChain
          (.call (.member (.param 1 "b") "f" true) [.unary .not (.param 0 "a")] false))
        (.binary .less (.binary .sub (.param 0 "a") (.binary .sub (.param 1 "b") (.param 0 "a")))
          (.unary .typeOf (.update .decrement .old (.unbound "c")))))
      (.binary .mul
        (.binary .add (.param 0 "a") (.literal (.number (Number.nearest false ⟨5, -1⟩))))
        (.binary .pow (.update .increment .new (.param 1 "b")) (.unary .negate (.param 0 "a"))))
      (.member (.optionalChain (.index (.param 1 "b") (.literal (.string "k")) true)) "y" false))

theorem expressible_mixedTree : mixedTree.Expressible Style.halves ["a", "b"] false := by
  have ha {chain : Bool} : (Expr.param 0 "a").Expressible Style.halves ["a", "b"] chain :=
    .param ⟨by decide, by decide⟩ (by decide)
  have hb {chain : Bool} : (Expr.param 1 "b").Expressible Style.halves ["a", "b"] chain :=
    .param ⟨by decide, by decide⟩ (by decide)
  have hc : (Expr.unbound "c").Expressible Style.halves ["a", "b"] false :=
    .unbound ⟨by decide, by decide⟩ (by decide) (by decide) (by decide)
  have hhalf : IsNumeral ".5".toList (Number.nearest false ⟨5, -1⟩) := ⟨'.', ['5'], rfl, rfl⟩
  refine .assign rfl (.member ha (by decide) (by decide)) rfl
    (.conditional (.logical ?_ ?_) (.binary ?_ ?_ nofun) ?_)
  · refine .optionalChain (.call (.member hb (by decide) fun _ => rfl) ?_ nofun) rfl
    exact List.forall_mem_singleton.2 (.unary ha)
  · exact .binary (.binary ha (.binary hb ha nofun) nofun) (.unary (.update hc rfl)) nofun
  · exact .binary ha (.number hhalf) nofun
  · exact .binary (.update hb rfl) (.unary ha) fun _ => rfl
  · exact .member (.optionalChain (.index hb (.string "k") fun _ => rfl) rfl) (by decide) nofun

/-- A tree that is written out is parsed as the same tree, or is found to be nested too deeply. -/
theorem parse_text_ok_or_nestedTooDeeply {e : Expr} (he : e.Expressible σ params false) :
    parse (e.text σ) params .expression = .ok ⟨.expression e, params.length⟩ ∨
      ∃ offset, parse (e.text σ) params .expression = .error ⟨.nestedTooDeeply, offset⟩ := by
  obtain ⟨tokens, hspelled, -, hmap, hunbroken⟩ := spelled_blankSeparated (readable_tokens he)
  have htokenize : tokenize (e.text σ) = .ok tokens := by
    rw [tokenize_eq_ok, Expr.text, String.toList_ofList]
    exact hspelled
  rw [parse_eq, htokenize]
  rcases takes_wholeExpression he maxNesting _ ⟨tokens, rfl, hmap, hunbroken⟩ with
    ⟨t, hrun, kinds, rfl, -⟩ | ⟨place, hrun⟩
  · left
    simp only [Except.bind, wholeText, hrun]
    rfl
  · right
    simp only [Except.bind, wholeText, hrun]
    exact ⟨_, rfl⟩

/-- The tree is written with parentheses around three operands, and is not too deep. -/
theorem parse_mixedTree :
    mixedTree.Expressible Style.halves ["a", "b"] false ∧
      mixedTree.text Style.halves =
        "a . x += b ?. f ( ! a ) ?? a - ( b - a ) < typeof c -- ? " ++
          "( a + .5 ) * ++ b ** - a : ( b ?. [ \"k\" ] ) . y" ∧
      parse (mixedTree.text Style.halves) ["a", "b"] .expression =
        .ok ⟨.expression mixedTree, 2⟩ := by
  have hok : (parse (mixedTree.text Style.halves) ["a", "b"] .expression).isOk = true := by
    decide +kernel
  refine ⟨expressible_mixedTree, by decide +kernel, ?_⟩
  rcases parse_text_ok_or_nestedTooDeeply expressible_mixedTree with h | ⟨offset, h⟩
  · exact h
  · rw [h] at hok
    cases hok

end LiveMarkup.Syntax
