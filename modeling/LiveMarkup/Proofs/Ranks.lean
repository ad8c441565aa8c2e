import LiveMarkup.Proofs.TokensAhead

/-!
# Ranks of expressions

The rank of an expression says with which tokens another expression can go on after it, and with
which tokens it can begin itself.  An expression of a tier of operators is a chain that begins with
its leftmost operand, and an expression with links is a chain that begins with what the links stand
after; both are taken apart here from the right, in the order in which a parser does not read them.

## Main definitions

* `TokenKind.grip`, `Stops` — where expressions end.
* `OpensAt` — how expressions begin.
* `Chained` — the tokens that make an operand the left end of a chain of operators.
* `Link`, `Linked` — the tokens that make an operand the left end of a chain of members and calls.

## Main results

* `opens_tokensAt` — an operand begins as the rank of its place says.
* `exists_chained`, `exists_linked` — every expression is a chain, perhaps of length zero.
-/

namespace LiveMarkup.Syntax

/-! ### Where expressions end -/

/-- The rank from which on an expression ends before the symbol. -/
def Symbol.grip : Symbol → Nat
  | .assign | .plusAssign | .minusAssign | .starAssign | .slashAssign | .percentAssign => 1
  | .question => 2
  | .questionQuestion => 3
  | .orOr => 4
  | .andAnd => 5
  | .equal | .notEqual | .strictEqual | .strictNotEqual => 6
  | .less | .lessEqual | .greater | .greaterEqual => 7
  | .plus | .minus => 8
  | .star | .slash | .percent => 9
  | .starStar => 10
  | .plusPlus | .minusMinus => 12
  | .dot | .questionDot | .leftBracket | .leftParen => 14
  | _ => 0

/-- The rank from which on an expression ends before the token. -/
def TokenKind.grip : TokenKind → Nat
  | .symbol s => s.grip
  | _ => 0

/-- An expression that is read at the rank ends before these tokens. -/
def Stops (rank : Nat) (kinds : List TokenKind) : Prop :=
  ∃ kind more, kinds = kind :: more ∧ kind.grip ≤ rank

theorem Stops.mono {m n : Nat} {kinds : List TokenKind} (h : Stops m kinds) (hle : m ≤ n) :
    Stops n kinds := by
  obtain ⟨kind, more, rfl, hgrip⟩ := h
  exact ⟨kind, more, rfl, Nat.le_trans hgrip hle⟩

theorem stops_cons {n : Nat} {kind : TokenKind} (h : kind.grip ≤ n) (more : List TokenKind) :
    Stops n (kind :: more) :=
  ⟨kind, more, rfl, h⟩

theorem isLink_of_grip {kind : TokenKind} (h : kind.grip ≤ 12) : kind.isLink = false := by
  cases kind with
  | symbol s => revert h; cases s <;> decide
  | number | string | name | finish => rfl

theorem updateOpOf?_of_grip {kind : TokenKind} (h : kind.grip ≤ 11) : updateOpOf? kind = none := by
  cases kind with
  | symbol s => revert h; cases s <;> decide
  | number | string | name | finish => rfl

theorem assignOpOf?_of_grip {kind : TokenKind} (h : kind.grip ≤ 0) : assignOpOf? kind = none := by
  cases kind with
  | symbol s => revert h; cases s <;> decide
  | number | string | name | finish => rfl

theorem isSymbol_of_grip {kind : TokenKind} {symbol : Symbol} (h : kind.grip < symbol.grip) :
    kind.isSymbol symbol = false := by
  cases kind with
  | symbol s =>
    rw [TokenKind.isSymbol, beq_eq_false_iff_ne]
    rintro rfl
    exact absurd h (Nat.lt_irrefl _)
  | number | string | name | finish => rfl

theorem Stops.avoids {n : Nat} {kinds : List TokenKind} {symbol : Symbol} (h : Stops n kinds)
    (hlt : n < symbol.grip) : Avoids symbol kinds := by
  obtain ⟨kind, more, rfl, hgrip⟩ := h
  exact ⟨kind, more, rfl, isSymbol_of_grip (Nat.lt_of_le_of_lt hgrip hlt)⟩

/-! ### Operators between two operands -/

/-- How tightly the operator holds together. -/
def Joint.rank : Joint → Nat
  | .binary op => op.rank
  | .logical op => op.rank

/-- The symbol of the operator. -/
def Joint.symbol : Joint → Symbol
  | .binary op => op.symbol
  | .logical op => op.symbol

theorem grip_of_jointOf? {tier : Nat} {kind : TokenKind} {joint : Joint} (htier : tier < tierCount)
    (h : jointOf? tier kind = some joint) : kind.grip = 9 - tier := by
  have hall : ∀ tier < tierCount, ∀ p ∈ tierOperators tier, p.1.grip = 9 - tier := by decide
  cases kind with
  | symbol s =>
    obtain ⟨before, after, heq, -⟩ := List.lookup_eq_some_iff.1 h
    exact hall tier htier (s, joint) (by simp [heq])
  | number | string | name | finish => cases h

theorem jointOf?_of_grip {tier : Nat} {kind : TokenKind} (htier : tier < tierCount)
    (h : kind.grip ≤ 8 - tier) : jointOf? tier kind = none := by
  cases hjoint : jointOf? tier kind with
  | none => rfl
  | some joint =>
    have hgrip := grip_of_jointOf? htier hjoint
    unfold tierCount at htier
    omega

theorem jointOf?_symbol {tier : Nat} {joint : Joint} (h : joint.rank + tier = 8) :
    jointOf? tier (.symbol joint.symbol) = some joint := by
  obtain rfl : tier = 8 - joint.rank := by omega
  cases joint with
  | binary op =>
    cases op with
    | pow => cases h
    | _ => rfl
  | logical op => cases op <;> rfl

theorem grip_symbol {joint : Joint} (h : joint.rank ≤ 8) : joint.symbol.grip = joint.rank + 1 := by
  cases joint with
  | binary op =>
    cases op with
    | pow => exact absurd h (by decide)
    | _ => rfl
  | logical op => cases op <;> rfl

/-! ### Links -/

/-- A link of a chain of members and calls. -/
inductive Link
  | member (property : String)
  | index (key : Expr)
  | call (args : List Expr)

namespace Link

/-- The expression with the link after it. -/
def attach (optional : Bool) : Link → Expr → Expr
  | .member property, e => .member e property optional
  | .index key, e => .index e key optional
  | .call args, e => .call e args optional

/-- The tokens of the link, but for the mark before it. -/
def body (σ : Style) : Link → List TokenKind
  | .member property => [.name property]
  | .index key => .symbol .leftBracket :: key.tokens σ ++ [.symbol .rightBracket]
  | .call args =>
    .symbol .leftParen :: commaSeparatedTokens (listTokens σ args) ++ [.symbol .rightParen]

/-- The tokens of the link. -/
def tokens (σ : Style) : Bool → Link → List TokenKind
  | true, link => .symbol .questionDot :: link.body σ
  | false, .member property => .symbol .dot :: body σ (.member property)
  | false, .index key => body σ (.index key)
  | false, .call args => body σ (.call args)

/-- What the link is made of can be written. -/
def Expressible (σ : Style) (params : List String) : Link → Prop
  | .member property => isName property = true
  | .index key => key.Expressible σ params false
  | .call args => ∀ e ∈ args, e.Expressible σ params false

/-- A link begins with a token that goes on with a chain. -/
theorem tokens_eq_cons (σ : Style) (optional : Bool) (link : Link) :
    ∃ first more, link.tokens σ optional = first :: more ∧ first.isLink = true := by
  cases optional with
  | true => exact ⟨_, _, rfl, rfl⟩
  | false => cases link <;> exact ⟨_, _, rfl, rfl⟩

end Link

/-! ### Expressions by rank -/

/-- What an expression of a rank is. -/
inductive OfRank : Nat → Expr → Prop
  | assign {op : AssignOp} {target value : Expr} : OfRank 0 (.assign op target value)
  | conditional {test consequent alternate : Expr} :
    OfRank 1 (.conditional test consequent alternate)
  | joined {n : Nat} (joint : Joint) (left right : Expr) (hrank : joint.rank = n) (hlow : 2 ≤ n)
    (hhigh : n ≤ 8) : OfRank n (joint.join left right)
  | power {base power : Expr} : OfRank 9 (.binary .pow base power)
  | unary {op : UnaryOp} {operand : Expr} : OfRank 10 (.unary op operand)
  | updateBefore {op : UpdateOp} {target : Expr} : OfRank 10 (.update op .new target)
  | updateAfter {op : UpdateOp} {target : Expr} : OfRank 11 (.update op .old target)
  | optionalChain {links : Expr} : OfRank 12 (.optionalChain links)
  | linked (link : Link) (optional : Bool) (object : Expr) :
    OfRank 13 (link.attach optional object)
  | primary {e : Expr} : OfRank 14 e

theorem ofRank (e : Expr) : OfRank e.rank e := by
  cases e with
  | assign => exact .assign
  | conditional => exact .conditional
  | binary op left right =>
    by_cases hpow : op = .pow
    · subst hpow
      exact .power
    · have hbounds : 2 ≤ op.rank ∧ op.rank ≤ 8 := by revert hpow; cases op <;> decide
      exact .joined (.binary op) left right rfl hbounds.1 hbounds.2
  | logical op left right =>
    have hbounds : 2 ≤ op.rank ∧ op.rank ≤ 8 := by cases op <;> decide
    exact .joined (.logical op) left right rfl hbounds.1 hbounds.2
  | unary => exact .unary
  | update _ result => cases result <;> constructor
  | optionalChain => exact .optionalChain
  | member object property optional => exact .linked (.member property) optional object
  | index object key optional => exact .linked (.index key) optional object
  | call callee args optional => exact .linked (.call args) optional callee
  | literal | array | object | param | declared | global | unbound => exact .primary

theorem OfRank.exists_joint {e : Expr} {n : Nat} (h : OfRank n e) (hlow : 2 ≤ n) (hhigh : n ≤ 8) :
    ∃ (joint : Joint) (left right : Expr), e = joint.join left right ∧ joint.rank = n := by
  cases h with
  | joined joint left right hrank => exact ⟨joint, left, right, rfl, hrank⟩
  | _ => omega

theorem OfRank.exists_link {e : Expr} (h : OfRank 13 e) :
    ∃ (link : Link) (optional : Bool) (object : Expr), e = link.attach optional object := by
  cases h with
  | joined _ _ _ _ _ hhigh => omega
  | linked link optional object => exact ⟨link, optional, object, rfl⟩

/-! ### How expressions begin -/

/-- Whether a literal, a name or something in parentheses, brackets or braces begins with the
token. -/
def TokenKind.opensPrimary : TokenKind → Bool
  | .number _ | .string _ => true
  | .name s => s != "typeof"
  | .symbol s => s == .leftParen || s == .leftBracket || s == .leftBrace
  | .finish => false

/-- Whether an expression can begin with the token. -/
def TokenKind.opensOperand (kind : TokenKind) : Bool :=
  kind.opensPrimary || (updateOpOf? kind).isSome || (unaryOpOf? kind).isSome

/-- The tokens begin as those of an expression of the rank do. -/
def OpensAt (rank : Nat) (tokens : List TokenKind) : Prop :=
  ∃ first more, tokens = first :: more ∧ first.opensOperand = true ∧
    (11 ≤ rank → first.opensPrimary = true)

namespace OpensAt

variable {m n : Nat} {tokens : List TokenKind}

theorem mono (h : OpensAt n tokens) (hle : m ≤ n) : OpensAt m tokens := by
  obtain ⟨first, more, rfl, hfirst, hprimary⟩ := h
  exact ⟨first, more, rfl, hfirst, fun hm => hprimary (Nat.le_trans hm hle)⟩

theorem append (h : OpensAt n tokens) (more : List TokenKind) : OpensAt n (tokens ++ more) := by
  obtain ⟨first, tokens, rfl, hfirst⟩ := h
  exact ⟨first, tokens ++ more, rfl, hfirst⟩

theorem primary {first : TokenKind} (h : first.opensPrimary = true) (more : List TokenKind) :
    OpensAt n (first :: more) :=
  ⟨first, more, rfl, by simp [TokenKind.opensOperand, h], fun _ => h⟩

theorem operand {first : TokenKind} (h : first.opensOperand = true) (more : List TokenKind) :
    OpensAt 10 (first :: more) :=
  ⟨first, more, rfl, h, fun hle => absurd hle (by decide)⟩

/-- In parentheses or not, an operand begins as its place asks for. -/
theorem enclosed {least rank : Nat} (h : OpensAt rank tokens) :
    OpensAt least (Syntax.enclosed least rank tokens) := by
  unfold Syntax.enclosed
  split
  · exact primary rfl _
  · next hrank => exact h.mono (Nat.le_of_not_lt hrank)

theorem avoids (h : OpensAt n tokens) {symbol : Symbol}
    (hsymbol : (TokenKind.symbol symbol).opensOperand = false) : Avoids symbol tokens := by
  obtain ⟨first, more, rfl, hfirst, -⟩ := h
  refine ⟨first, more, rfl, ?_⟩
  cases first with
  | symbol s =>
    rw [TokenKind.isSymbol, beq_eq_false_iff_ne]
    rintro rfl
    rw [hsymbol] at hfirst
    cases hfirst
  | number | string | name | finish => rfl

end OpensAt

theorem opensPrimary_name {name : String} (h : isReserved name = false) :
    (TokenKind.name name).opensPrimary = true := by
  rw [TokenKind.opensPrimary, bne_iff_ne]
  rintro rfl
  exact absurd h (by decide)

theorem rank_le_leftRank (op : BinaryOp) : op.rank ≤ op.leftRank := by
  cases op <;> decide

theorem rank_of_isOpen {e : Expr} (h : e.isOpen = true) : e.rank = 13 := by
  cases e with
  | member | index | call => rfl
  | _ => cases h

variable {σ : Style} {params : List String}

/-- An expression begins as its rank says. -/
theorem opens_tokens {chain : Bool} {e : Expr} (h : e.Expressible σ params chain) :
    OpensAt e.rank (e.tokens σ) := by
  induction h with
  | null | undefined => exact .primary (by decide) _
  | bool b => cases b <;> exact .primary (by decide) _
  | number | string => exact .primary rfl _
  | param hname | unbound hname => exact .primary (opensPrimary_name hname.not_reserved) _
  | global _ hglobal => exact .primary (opensPrimary_name (isName_of_ofName? hglobal).2) _
  | array | object => exact .primary rfl _
  | member _ _ _ ih => exact ih.enclosed.append _
  | index _ _ _ ih | call _ _ _ ih => exact ((ih.enclosed.append _).append _).append _
  | optionalChain _ hopen ih => exact ih.mono (rank_of_isOpen hopen ▸ show 12 ≤ 13 by decide)
  | @unary _ op => exact .operand (by cases op <;> rfl) _
  | @binary _ op _ _ _ _ _ ih => exact (ih.enclosed.mono (rank_le_leftRank op)).append _
  | logical _ _ ih => exact ih.enclosed.append _
  | conditional _ _ _ ih => exact ((ih.enclosed.append _).append _).mono (show 1 ≤ 2 by decide)
  | assign _ _ _ _ ih => exact (ih.enclosed.append _).mono (Nat.zero_le _)
  | @update _ op result _ _ _ ih =>
    cases result with
    | new => exact .operand (by cases op <;> rfl) _
    | old => exact (ih.enclosed.append _).mono (show 11 ≤ 12 by decide)

theorem updateOpOf?_of_opensPrimary {kind : TokenKind} (h : kind.opensPrimary = true) :
    updateOpOf? kind = none := by
  cases kind with
  | symbol s => revert h; cases s <;> decide
  | number | string | name | finish => rfl

theorem unaryOpOf?_of_opensPrimary {kind : TokenKind} (h : kind.opensPrimary = true) :
    unaryOpOf? kind = none := by
  cases kind with
  | symbol s => revert h; cases s <;> decide
  | name s =>
    rw [TokenKind.opensPrimary, bne_iff_ne] at h
    simp [unaryOpOf?, h]
  | number | string | finish => rfl

/-! ### Tokens where a rank is needed -/

theorem opens_tokensAt {chain : Bool} {e : Expr} (h : e.Expressible σ params chain) (n : Nat) :
    OpensAt n (e.tokensAt σ n) :=
  (opens_tokens h).enclosed

theorem tokensAt_of_le {e : Expr} {n : Nat} (h : n ≤ e.rank) : e.tokensAt σ n = e.tokens σ :=
  if_neg (Nat.not_lt.2 h)

theorem tokensAt_of_lt {e : Expr} {n : Nat} (h : e.rank < n) :
    e.tokensAt σ n = .symbol .leftParen :: e.tokens σ ++ [.symbol .rightParen] :=
  if_pos h

/-- Only an expression of the very rank is written in another way at the next one. -/
theorem tokensAt_succ {e : Expr} {n : Nat} (h : e.rank ≠ n) :
    e.tokensAt σ (n + 1) = e.tokensAt σ n := by
  rcases Nat.lt_or_ge e.rank n with hlt | hge
  · rw [tokensAt_of_lt hlt, tokensAt_of_lt (Nat.lt_succ_of_lt hlt)]
  · rw [tokensAt_of_le hge, tokensAt_of_le (Nat.lt_of_le_of_ne hge h.symm)]

/-! ### Chains of operators -/

variable (σ params) in
/-- The tokens after `left` that make it the left end of a chain of operators of the tier. -/
inductive Chained (tier : Nat) : Expr → List TokenKind → Expr → Prop
  | nil {left : Expr} : Chained tier left [] left
  | cons {joint : Joint} {left right e : Expr} {tokens : List TokenKind}
    (hjoint : joint.rank + tier = 8) (hright : right.Expressible σ params false)
    (h : Chained tier (joint.join left right) tokens e) :
    Chained tier left (.symbol joint.symbol :: right.tokensAt σ (9 - tier) ++ tokens) e

theorem Chained.snoc {tier : Nat} {head left right : Expr} {joint : Joint}
    {tokens : List TokenKind} (h : Chained σ params tier head tokens left)
    (hjoint : joint.rank + tier = 8) (hright : right.Expressible σ params false) :
    Chained σ params tier head
      (tokens ++ .symbol joint.symbol :: right.tokensAt σ (9 - tier)) (joint.join left right) := by
  induction h with
  | nil => simpa using Chained.cons hjoint hright .nil
  | cons hjoint' hright' _ ih => simpa using Chained.cons hjoint' hright' ih

/-- Tokens of a chain end an operand of the chain. -/
theorem Chained.stops {tier : Nat} {left e : Expr} {tokens rest : List TokenKind}
    (h : Chained σ params tier left tokens e) (hrest : Stops (8 - tier) rest) :
    Stops (9 - tier) (tokens ++ rest) := by
  cases h with
  | nil => exact hrest.mono (Nat.sub_le_sub_right (by decide) tier)
  | cons hjoint =>
    refine stops_cons (Nat.le_of_eq ?_) _
    rw [TokenKind.grip, grip_symbol (by omega)]
    omega

theorem expressible_join {joint : Joint} {left right : Expr} {chain : Bool}
    (h : (joint.join left right).Expressible σ params chain) :
    left.Expressible σ params false ∧ right.Expressible σ params false := by
  cases joint with
  | binary =>
    cases h with
    | binary hleft hright => exact ⟨hleft, hright⟩
  | logical =>
    cases h with
    | logical hleft hright => exact ⟨hleft, hright⟩

theorem tokens_join {joint : Joint} (left right : Expr) (h : joint.rank ≤ 8) :
    (joint.join left right).tokens σ =
      left.tokensAt σ joint.rank ++ .symbol joint.symbol :: right.tokensAt σ (joint.rank + 1) := by
  cases joint with
  | binary op =>
    cases op with
    | pow => exact absurd h (by decide)
    | _ => rfl
  | logical op => rfl

theorem sizeOf_left_lt (joint : Joint) (left right : Expr) :
    sizeOf left < sizeOf (joint.join left right) := by
  cases joint <;> simp [Joint.join] <;> omega

/-- An expression is a chain of operators of any tier, perhaps without operators. -/
theorem exists_chained {tier : Nat} (htier : tier < tierCount) {e : Expr}
    (h : e.Expressible σ params false) :
    ∃ head tokens, head.Expressible σ params false ∧ Chained σ params tier head tokens e ∧
      e.tokensAt σ (8 - tier) = head.tokensAt σ (9 - tier) ++ tokens := by
  have htier' : tier < 7 := htier
  have hsucc : 9 - tier = 8 - tier + 1 := by omega
  by_cases hrank : e.rank = 8 - tier
  · -- the last operator of the chain is at the top of the tree, the others are in its left operand
    obtain ⟨joint, left, right, rfl, hjoint⟩ :=
      (hrank ▸ ofRank e).exists_joint (by omega) (by omega)
    obtain ⟨hleft, hright⟩ := expressible_join h
    have hdecreasing := sizeOf_left_lt joint left right
    obtain ⟨head, tokens, hhead, hchained, htokens⟩ := exists_chained htier hleft
    refine ⟨head, _, hhead, hchained.snoc (by omega) hright, ?_⟩
    rw [tokensAt_of_le (Nat.le_of_eq hrank.symm), tokens_join left right (by omega), hjoint,
      htokens, ← hsucc, List.append_assoc]
  · exact ⟨e, [], h, .nil, by rw [hsucc, tokensAt_succ hrank, List.append_nil]⟩
termination_by sizeOf e

/-! ### Chains of members and calls -/

theorem expressible_attach {link : Link} {optional chain : Bool} {object : Expr}
    (h : (link.attach optional object).Expressible σ params chain) :
    object.Expressible σ params chain ∧ link.Expressible σ params ∧
      (optional = true → chain = true) := by
  cases link with
  | member =>
    cases h with
    | member hobject hproperty hlink => exact ⟨hobject, hproperty, hlink⟩
  | index =>
    cases h with
    | index hobject hkey hlink => exact ⟨hobject, hkey, hlink⟩
  | call =>
    cases h with
    | call hcallee hargs hlink => exact ⟨hcallee, hargs, hlink⟩

theorem tokens_attach (link : Link) (optional : Bool) (object : Expr) :
    (link.attach optional object).tokens σ =
      object.tokensAt σ 13 ++ link.tokens σ optional := by
  cases link with
  | member => cases optional <;> rfl
  | index | call =>
    simp only [Link.attach, Expr.tokens, List.append_assoc]
    cases optional <;> rfl

theorem isOpen_attach (link : Link) (optional : Bool) (object : Expr) :
    (link.attach optional object).isOpen = (optional || object.isOpen) := by
  cases link <;> rfl

theorem sizeOf_object_lt (link : Link) (optional : Bool) (object : Expr) :
    sizeOf object < sizeOf (link.attach optional object) := by
  cases link <;> simp [Link.attach] <;> omega

/-- Within an optional chain or not, everything but a link is the same. -/
theorem expressible_of_rank {chain : Bool} {e : Expr} (h : e.Expressible σ params chain)
    (hrank : e.rank ≠ 13) : e.Expressible σ params false := by
  cases h with
  | member | index | call => exact absurd rfl hrank
  | _ => constructor <;> assumption

variable (σ params) in
/-- The tokens after `base` that make it the left end of a chain of members and calls.  The flags
say whether there is a `?.` link before and after them. -/
inductive Linked : Bool → Expr → List TokenKind → Bool → Expr → Prop
  | nil {before : Bool} {base : Expr} : Linked before base [] before base
  | cons {before optional after : Bool} {link : Link} {base e : Expr} {tokens : List TokenKind}
    (hlink : link.Expressible σ params)
    (h : Linked (before || optional) (link.attach optional base) tokens after e) :
    Linked before base (link.tokens σ optional ++ tokens) after e

theorem Linked.snoc {before after : Bool} {base object : Expr} {tokens : List TokenKind}
    (h : Linked σ params before base tokens after object) {link : Link}
    (hlink : link.Expressible σ params) (optional : Bool) :
    Linked σ params before base (tokens ++ link.tokens σ optional) (after || optional)
      (link.attach optional object) := by
  induction h with
  | nil => simpa using Linked.cons hlink .nil
  | cons hlink' _ ih => simpa using Linked.cons hlink' ih

/-- An expression is a chain of members and calls, perhaps without links. -/
theorem exists_linked {chain : Bool} {e : Expr} (h : e.Expressible σ params chain) :
    ∃ base tokens, base.Expressible σ params false ∧
      Linked σ params false base tokens e.isOpen e ∧
      e.tokensAt σ 13 = base.tokensAt σ 14 ++ tokens := by
  by_cases hrank : e.rank = 13
  · -- the last link is at the top of the tree, the others are in its object
    obtain ⟨link, optional, object, rfl⟩ := (hrank ▸ ofRank e).exists_link
    obtain ⟨hobject, hlink, -⟩ := expressible_attach h
    have hdecreasing := sizeOf_object_lt link optional object
    obtain ⟨base, tokens, hbase, hlinked, htokens⟩ := exists_linked hobject
    refine ⟨base, tokens ++ link.tokens σ optional, hbase, ?_, ?_⟩
    · rw [isOpen_attach, Bool.or_comm]
      exact hlinked.snoc hlink optional
    · rw [tokensAt_of_le (Nat.le_of_eq hrank.symm), tokens_attach, htokens, List.append_assoc]
  · refine ⟨e, [], expressible_of_rank h hrank, ?_, by rw [tokensAt_succ hrank, List.append_nil]⟩
    have hopen : e.isOpen = false := Bool.eq_false_iff.2 fun hopen => hrank (rank_of_isOpen hopen)
    exact hopen ▸ .nil
termination_by sizeOf e

/-- Optional links stand within optional chains only. -/
theorem isOpen_of_expressible {e : Expr} (h : e.Expressible σ params false) : e.isOpen = false := by
  by_cases hrank : e.rank = 13
  · obtain ⟨link, optional, object, rfl⟩ := (hrank ▸ ofRank e).exists_link
    obtain ⟨hobject, -, hlink⟩ := expressible_attach h
    have hdecreasing := sizeOf_object_lt link optional object
    rw [isOpen_attach, isOpen_of_expressible hobject, Bool.or_false]
    exact Bool.eq_false_iff.2 fun hoptional => absurd (hlink hoptional) Bool.false_ne_true
  · exact Bool.eq_false_iff.2 fun hopen => hrank (rank_of_isOpen hopen)
termination_by sizeOf e

end LiveMarkup.Syntax
