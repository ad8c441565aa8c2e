import LiveMarkup.Proofs.Lexemes
import LiveMarkup.Proofs.ParserResults
import Mathlib.Data.List.Chain

/-!
# Names after numbers

A hexadecimal number ends where its digits end, so a name may follow it with nothing in between.  No
text with such a name parses unless a line break stands before the name: after an operand come
operators, closing symbols and separators, and only the end of a statement lets anything come next.

The parser is followed with two properties of its state.  The tokens that it has taken are apart,
and where an operand or a statement can begin, the next token is apart from them too.  Every operand
and every statement takes a token; so the statements of a text go on until no tokens are left.

## Main definitions

* `Token.Apart` — a name comes after a number only on a new line.
* `ParserState.Passed`, `ParserState.Faces` — what the parser has taken, and what is next.
* `Grammar.Separates` — the parsers of a grammar keep tokens apart.

## Main results

* `separates_grammar` — every grammar does, by induction on its levels.
* `apart_of_parse` — the tokens of a text that parses are apart.
-/

namespace LiveMarkup.Syntax

/-- If a name comes after a number, it is on a new line. -/
def Token.Apart (t u : Token) : Prop :=
  ∀ x name, t.kind = .number x → u.kind = .name name → u.newlineBefore = true

/-- A word or a symbol, after which anything may come. -/
def TokenKind.isWordOrSymbol : TokenKind → Bool
  | .name _ | .symbol _ => true
  | _ => false

/-- Among all `tokens` those that have been taken are apart, and at most `n` are left. -/
structure ParserState.Passed (tokens : List Token) (n : Nat) (s : ParserState) : Prop where
  taken : ∃ done, tokens = done ++ s.tokens ∧ done.IsChain Token.Apart
  left : s.tokens.length ≤ n

/-- The next token is apart from those that have been taken, too. -/
structure ParserState.Faces (tokens : List Token) (n : Nat) (s : ParserState) : Prop where
  taken : ∃ done, tokens = done ++ s.tokens ∧ (done ++ [s.next]).IsChain Token.Apart
  left : s.tokens.length ≤ n

variable {tokens : List Token} {n m : Nat} {s : ParserState}

/-! ### One token -/

namespace ParserState

theorem Passed.mono (h : s.Passed tokens n) (hle : n ≤ m) : s.Passed tokens m :=
  ⟨h.taken, Nat.le_trans h.left hle⟩

theorem Faces.mono (h : s.Faces tokens n) (hle : n ≤ m) : s.Faces tokens m :=
  ⟨h.taken, Nat.le_trans h.left hle⟩

theorem Faces.passed (h : s.Faces tokens n) : s.Passed tokens n := by
  obtain ⟨done, heq, hchain⟩ := h.taken
  exact ⟨⟨done, heq, hchain.left_of_append⟩, h.left⟩

/-- The next token is apart from any token if it is no name or stands on a new line. -/
theorem Passed.faces (h : s.Passed tokens n)
    (hnext : ∀ name, s.next.kind = .name name → s.next.newlineBefore = true) :
    s.Faces tokens n := by
  obtain ⟨done, heq, hchain⟩ := h.taken
  refine ⟨⟨done, heq, List.isChain_append.2 ⟨hchain, .singleton _, ?_⟩⟩, h.left⟩
  intro t _ u hu
  obtain rfl : s.next = u := by simpa using hu
  exact fun _ name _ hname => hnext name hname

theorem tokens_eq (h : s.next.kind.isFinish = false) : s.tokens = s.next :: s.skip.tokens := by
  obtain ⟨params, tokens, locals, slot⟩ := s
  cases tokens with
  | nil => cases h
  | cons t rest =>
    obtain ⟨kind, place, newline⟩ := t
    cases kind with
    | finish => cases h
    | number | string | name | symbol => rfl

theorem skip_eq (h : s.next.kind.isFinish = true) : s.skip = s := by
  obtain ⟨params, tokens, locals, slot⟩ := s
  cases tokens with
  | nil => rfl
  | cons t rest =>
    obtain ⟨kind, place, newline⟩ := t
    cases kind with
    | finish => rfl
    | number | string | name | symbol => cases h

/-- A token that is taken is one fewer to come. -/
theorem Faces.passed_skip (h : s.Faces tokens n) (hnext : s.next.kind.isFinish = false) :
    s.skip.Passed tokens (n - 1) := by
  obtain ⟨done, heq, hchain⟩ := h.taken
  have htokens := tokens_eq hnext
  have hleft := h.left
  rw [htokens] at heq hleft
  refine ⟨⟨done ++ [s.next], by simpa using heq, hchain⟩, ?_⟩
  exact Nat.le_sub_of_add_le hleft

/-- After a word or a symbol anything may come. -/
theorem Faces.skip (h : s.Faces tokens n) (hnext : s.next.kind.isWordOrSymbol = true) :
    s.skip.Faces tokens (n - 1) := by
  have hfinish : s.next.kind.isFinish = false := by
    generalize s.next.kind = kind at hnext
    cases kind <;> first | rfl | cases hnext
  obtain ⟨done, heq, hchain⟩ := h.taken
  have htokens := tokens_eq hfinish
  have hleft := h.left
  rw [htokens] at heq hleft
  refine ⟨⟨done ++ [s.next], by simpa using heq, ?_⟩, Nat.le_sub_of_add_le hleft⟩
  refine List.isChain_append.2 ⟨hchain, .singleton _, ?_⟩
  intro t ht _ _ x _ hnumber
  obtain rfl : s.next = t := by simpa using ht
  rw [hnumber] at hnext
  cases hnext

theorem Passed.skip (h : s.Passed tokens n) {symbol : Symbol}
    (hnext : s.next.kind.isSymbol symbol = true) : s.skip.Faces tokens (n - 1) := by
  generalize hkind : s.next.kind = kind at hnext
  cases kind with
  | symbol other =>
    refine (h.faces fun name hname => ?_).skip (by rw [hkind]; rfl)
    rw [hkind] at hname
    cases hname
  | number | string | name | finish => cases hnext

end ParserState

section Taking

open ParserState

/-- The first token of an operand. -/
theorem Meets.first :
    Meets (Faces tokens n) Syntax.advance fun t s =>
      (t.kind.isFinish = false → s.Passed tokens (n - 1)) ∧
        (t.kind.isWordOrSymbol = true → s.Faces tokens (n - 1)) := by
  refine Meets.post .advance fun t s ⟨r, hr, ht, hs⟩ => ?_
  subst ht hs
  exact ⟨hr.passed_skip, hr.skip⟩

/-- Whatever is taken, it was apart. -/
theorem Meets.any : Meets (Faces tokens n) Syntax.advance fun _ s => s.Passed tokens n := by
  refine Meets.post .advance fun t s ⟨r, hr, _, hs⟩ => ?_
  subst hs
  cases hfinish : r.next.kind.isFinish with
  | false => exact (hr.passed_skip hfinish).mono (Nat.sub_le n 1)
  | true =>
    rw [skip_eq hfinish]
    exact hr.passed

/-- Takes a word or a symbol that has been looked at. -/
theorem Meets.advanceOver {t : Token} (ht : t.kind.isWordOrSymbol = true) :
    Meets (fun s => t = s.next ∧ s.Faces tokens n) Syntax.advance fun _ s =>
      s.Faces tokens (n - 1) := by
  refine Meets.post .advance fun _ s ⟨r, ⟨heq, hr⟩, _, hs⟩ => ?_
  subst heq hs
  exact hr.skip ht

/-- Takes a symbol that has been looked at. -/
theorem Meets.advanceSymbol {t : Token} {symbol : Symbol} (ht : t.kind = .symbol symbol) :
    Meets (fun s => t = s.next ∧ s.Passed tokens n) Syntax.advance fun _ s => s.Faces tokens n := by
  refine Meets.post .advance fun _ s ⟨r, ⟨heq, hr⟩, _, hs⟩ => ?_
  subst heq hs
  have hsymbol : r.next.kind.isSymbol symbol = true := by simp [ht, TokenKind.isSymbol]
  exact (hr.skip hsymbol).mono (Nat.sub_le n 1)

/-- Takes a word that has been recognised. -/
theorem Meets.advanceWord {word : String} :
    Meets (fun s => s.next.kind.isWord word = true ∧ s.Faces tokens n) Syntax.advance fun _ s =>
      s.Faces tokens (n - 1) := by
  refine Meets.post .advance fun _ s ⟨r, ⟨hword, hr⟩, _, hs⟩ => ?_
  subst hs
  refine hr.skip ?_
  generalize r.next.kind = kind at hword
  cases kind with
  | name => rfl
  | number | string | symbol | finish => cases hword

theorem Meets.eatPassed {symbol : Symbol} :
    Meets (Passed tokens n) (Syntax.eat symbol) fun b s =>
      bif b then s.Faces tokens n else s.Passed tokens n := by
  refine Meets.post .eat fun b s h => ?_
  cases b with
  | true =>
    obtain ⟨r, hr, hsymbol, rfl⟩ := h
    exact (hr.skip hsymbol).mono (Nat.sub_le n 1)
  | false => exact h

theorem Meets.expectPassed {symbol : Symbol} :
    Meets (Passed tokens n) (Syntax.expect symbol) fun _ s => s.Faces tokens (n - 1) := by
  refine Meets.post .expect fun _ s h => ?_
  obtain ⟨r, hr, hsymbol, rfl⟩ := h
  exact hr.skip hsymbol

end Taking

/-! ### Grammars -/

/-- A parser of an operand: it takes at least one token. -/
def Begins (tokens : List Token) {α : Type} (p : Parser α) : Prop :=
  ∀ n, Meets (ParserState.Faces tokens n) p fun _ s => s.Passed tokens (n - 1)

/-- A parser of what may follow an operand. -/
def Continues (tokens : List Token) {α : Type} (p : Parser α) : Prop :=
  ∀ n, Meets (ParserState.Passed tokens n) p fun _ s => s.Passed tokens n

/-- A parser of a statement: it takes at least one token, and comes to the next statement. -/
def Completes (tokens : List Token) {α : Type} (p : Parser α) : Prop :=
  ∀ n, Meets (ParserState.Faces tokens n) p fun _ s => s.Faces tokens (n - 1)

theorem Begins.loose {α : Type} {p : Parser α} (h : Begins tokens p) :
    Meets (ParserState.Faces tokens n) p fun _ s => s.Passed tokens n :=
  (h n).post fun _ _ hs => hs.mono (Nat.sub_le n 1)

theorem Completes.loose {α : Type} {p : Parser α} (h : Completes tokens p) :
    Meets (ParserState.Faces tokens n) p fun _ s => s.Faces tokens n :=
  (h n).post fun _ _ hs => hs.mono (Nat.sub_le n 1)

/-- The parsers of a grammar keep tokens apart. -/
structure Grammar.Separates (tokens : List Token) (g : Grammar) : Prop where
  statement : Completes tokens g.statement
  assignment : Begins tokens g.assignment
  unary : Begins tokens g.unary
  power : Begins tokens g.power
  operand (tier : Nat) : Begins tokens (g.operand tier)
  chain (tier : Nat) (left : Expr) : Continues tokens (g.chain tier left)
  link (optional : Bool) (e : Expr) : Continues tokens (g.link optional e)

theorem separates_exhausted : Grammar.exhausted.Separates tokens where
  statement _ := meets_faultHere _
  assignment _ := meets_faultHere _
  unary _ := meets_faultHere _
  power _ := meets_faultHere _
  operand _ _ := meets_faultHere _
  chain _ _ _ := meets_faultHere _
  link _ _ _ := meets_faultHere _

theorem symbol_of_jointOf? {tier : Nat} {kind : TokenKind} {joint : Joint}
    (h : jointOf? tier kind = some joint) : ∃ symbol, kind = .symbol symbol := by
  cases kind with
  | symbol symbol => exact ⟨symbol, rfl⟩
  | number | string | name | finish => cases h

theorem symbol_of_assignOpOf? {kind : TokenKind} {op : AssignOp}
    (h : assignOpOf? kind = some op) : ∃ symbol, kind = .symbol symbol := by
  cases kind with
  | symbol symbol => exact ⟨symbol, rfl⟩
  | number | string | name | finish => cases h

theorem symbol_of_updateOpOf? {kind : TokenKind} {op : UpdateOp}
    (h : updateOpOf? kind = some op) : ∃ symbol, kind = .symbol symbol := by
  cases kind with
  | symbol symbol => exact ⟨symbol, rfl⟩
  | number | string | name | finish => cases h

theorem isWordOrSymbol_of_unaryOpOf? {kind : TokenKind} {op : UnaryOp}
    (h : unaryOpOf? kind = some op) : kind.isWordOrSymbol = true := by
  cases kind with
  | symbol | name => rfl
  | number | string | finish => cases h

namespace Grammar.Separates

open ParserState

/-! #### Primary expressions -/

/-- Items with commas between them begin where an operand can begin. -/
theorem commas {α : Type} {close : Symbol} {item : Parser α}
    (h : Meets (Faces tokens n) item fun _ s => s.Passed tokens n) :
    Meets (Faces tokens n) (fueled (commaSeparated close item)) fun _ s => s.Passed tokens n :=
  Meets.fueled fun fuel => (Meets.commaSeparated (F := fun _ => True) (fun _ hs => hs.passed)
    (fun _ hs hcomma => (hs.skip hcomma).mono (Nat.sub_le n 1))
    (h.post fun _ _ hs => ⟨trivial, hs⟩) fuel).post fun _ _ hs => hs.2

/-- A closing symbol. -/
theorem close {α : Type} {symbol : Symbol} {x : α} :
    Meets (Passed tokens n) (do expect symbol; return x) fun _ s => s.Passed tokens n :=
  Meets.bind .expectPassed fun _ => .pure fun _ hs => hs.passed.mono (Nat.sub_le n 1)

theorem resolve (name : String) : Continues tokens (Syntax.resolve name) := fun _ =>
  Meets.bind .get fun _ => .pure fun _ hs => hs.2

theorem word (place : List Char) (name : String) : Continues tokens (Grammar.word place name) := by
  intro n
  unfold Grammar.word
  split
  · exact .pure fun _ hs => hs
  · exact .pure fun _ hs => hs
  · exact .pure fun _ hs => hs
  · split
    · exact meets_faultAt _ _
    · exact resolve name n

theorem propertyName : Meets (Faces tokens n) Syntax.propertyName fun _ s => s.Passed tokens n := by
  refine Meets.bind .any fun token => ?_
  split
  · exact .pure fun _ hs => hs
  · exact meets_faultAt _ _

variable {g : Grammar} (hg : g.Separates tokens)

include hg

theorem arrayLiteral : Meets (Faces tokens n) g.arrayLiteral fun _ s => s.Passed tokens n := by
  have hitems : Meets (Faces tokens n) (fueled (arrayItems g.assignment)) fun _ s =>
      s.Passed tokens n :=
    Meets.fueled fun fuel => (Meets.arrayItems (F := fun _ => True) (fun _ hs => hs.passed)
      (fun _ hs hcomma => (hs.skip hcomma).mono (Nat.sub_le n 1))
      (hg.assignment.loose.post fun _ _ hs => ⟨trivial, hs⟩) trivial fuel).post fun _ _ hs => hs.2
  exact Meets.bind hitems fun _ => close

theorem propertyValue : Continues tokens g.propertyValue := fun n =>
  Meets.bind .expectPassed fun _ =>
    hg.assignment.loose.post fun _ _ hs => hs.mono (Nat.sub_le n 1)

theorem property : Meets (Faces tokens n) g.property fun _ s => s.Passed tokens n := by
  have hvalue : ∀ key : String,
      Meets (Passed tokens n) (do return (key, ← g.propertyValue)) fun _ s => s.Passed tokens n :=
    fun _ => Meets.bind (hg.propertyValue n) fun _ => .pure fun _ hs => hs
  have hshort : ∀ key : String,
      Meets (Passed tokens n) (do return (key, ← Syntax.resolve key)) fun _ s =>
        s.Passed tokens n :=
    fun key => Meets.bind (resolve key n) fun _ => .pure fun _ hs => hs
  refine Meets.bind .any fun token => ?_
  split
  · next key _ =>
    refine Meets.bind .atSymbol fun b => Meets.pre ?_ fun _ hs => hs.2
    split
    · exact hvalue key
    · dsimp only
      split
      · exact Meets.bind (meets_faultAt _ _ : Meets _ _ fun _ s => s.Passed tokens n)
          fun _ => hshort key
      · exact hshort key
  · exact hvalue _
  · exact hvalue _
  · exact meets_faultAt _ _

theorem objectLiteral : Meets (Faces tokens n) g.objectLiteral fun _ s => s.Passed tokens n :=
  Meets.bind (commas hg.property) fun _ => close

theorem primary : Begins tokens g.primary := by
  intro n
  refine Meets.bind .first fun token => ?_
  split
  · next hkind => exact .pure fun _ hs => hs.1 (by rw [hkind]; rfl)
  · next hkind => exact .pure fun _ hs => hs.1 (by rw [hkind]; rfl)
  · next name hkind => exact (word _ name (n - 1)).pre fun _ hs => hs.1 (by rw [hkind]; rfl)
  · next hkind =>
    refine Meets.pre (P := Faces tokens (n - 1)) ?_ fun _ hs => hs.2 (by rw [hkind]; rfl)
    exact Meets.bind hg.assignment.loose fun _ => close
  · next hkind => exact hg.arrayLiteral.pre fun _ hs => hs.2 (by rw [hkind]; rfl)
  · next hkind => exact hg.objectLiteral.pre fun _ hs => hs.2 (by rw [hkind]; rfl)
  · exact meets_faultAt _ _

/-! #### Chains of members and calls -/

theorem arguments : Continues tokens g.arguments := by
  intro n
  refine Meets.bind .expectPassed fun _ => ?_
  refine Meets.bind (commas hg.assignment.loose) fun _ => close.post fun _ _ hs => ?_
  exact hs.mono (Nat.sub_le n 1)

theorem bracketed : Meets (Faces tokens n) g.bracketed fun _ s => s.Passed tokens n :=
  Meets.bind hg.assignment.loose fun _ => close

theorem optionalLink (e : Expr) :
    Meets (Faces tokens n) (g.optionalLink e) fun _ s => s.Passed tokens n := by
  refine Meets.bind .peek fun token => ?_
  split
  · exact Meets.bind ((hg.arguments n).pre fun _ hs => hs.2.passed) fun _ => .pure fun _ hs => hs
  · next hkind =>
    refine Meets.bind ((Meets.advanceSymbol hkind).pre fun _ hs => ⟨hs.1, hs.2.passed⟩) fun _ => ?_
    exact Meets.bind hg.bracketed fun _ => .pure fun _ hs => hs
  · exact Meets.bind (propertyName.pre fun _ hs => hs.2) fun _ => .pure fun _ hs => hs

theorem links (optional : Bool) (e : Expr) : Continues tokens (g.links optional e) := by
  intro n
  refine Meets.bind .peek fun token => Meets.pre ?_ fun _ hs => hs.2
  split
  · exact hg.link optional e n
  · exact .pure fun _ hs => hs

theorem linkHere (optional : Bool) (e : Expr) : Continues tokens (g.linkHere optional e) := by
  intro n
  refine Meets.bind .peek fun token => ?_
  split
  · next hkind =>
    refine Meets.bind (.advanceSymbol hkind) fun _ => Meets.bind propertyName fun _ => ?_
    exact hg.links optional _ n
  · next hkind =>
    refine Meets.bind (.advanceSymbol hkind) fun _ => Meets.bind (hg.optionalLink e) fun _ => ?_
    exact hg.links true _ n
  · next hkind =>
    refine Meets.bind (.advanceSymbol hkind) fun _ => Meets.bind hg.bracketed fun _ => ?_
    exact hg.links optional _ n
  · refine Meets.bind ((hg.arguments n).pre fun _ hs => hs.2) fun _ => ?_
    exact hg.links optional _ n

theorem callMember : Begins tokens g.callMember := fun n =>
  Meets.bind (hg.primary n) fun _ => hg.links false _ (n - 1)

/-! #### Operators -/

theorem postfixed : Begins tokens g.postfixed := by
  intro n
  refine Meets.bind (hg.callMember n) fun e => Meets.bind .peek fun token => ?_
  split
  · exact .pure fun _ hs => hs.2
  · next op hop =>
    obtain ⟨symbol, hkind⟩ := symbol_of_updateOpOf? hop
    split
    · exact .pure fun _ hs => hs.2
    · refine Meets.bind (.checkAssignable e token.place) fun _ => ?_
      exact Meets.bind (.advanceSymbol hkind) fun _ => .pure fun _ hs => hs.passed

theorem unaryHere : Begins tokens g.unaryHere := by
  intro n
  refine Meets.bind .peek fun token => ?_
  split
  · next op hop =>
    obtain ⟨symbol, hkind⟩ := symbol_of_updateOpOf? hop
    have hword : token.kind.isWordOrSymbol = true := by rw [hkind]; rfl
    refine Meets.bind (.advanceOver hword) fun _ => Meets.bind hg.unary.loose fun target => ?_
    exact Meets.bind (.checkAssignable target token.place) fun _ => .pure fun _ hs => hs
  · split
    · next op hop =>
      refine Meets.bind (.advanceOver (isWordOrSymbol_of_unaryOpOf? hop)) fun _ => ?_
      exact Meets.bind hg.unary.loose fun _ => .pure fun _ hs => hs
    · exact (hg.postfixed n).pre fun _ hs => hs.2

theorem exponent : Begins tokens g.exponent := by
  intro n
  refine Meets.bind (hg.unary n) fun base => Meets.bind .atSymbol fun b => ?_
  split
  · next hb =>
    have hpower : Meets (fun s => s.next.kind.isSymbol .starStar = b ∧ s.Passed tokens (n - 1)) (do
        let _ ← advance
        return Expr.binary .pow base (← g.power)) fun _ s => s.Passed tokens (n - 1) := by
      refine Meets.bind (R := fun _ s => s.Faces tokens (n - 1)) ?_ fun _ =>
        Meets.bind hg.power.loose fun _ => .pure fun _ hs => hs
      refine Meets.post .advance fun _ s ⟨r, ⟨hsymbol, hr⟩, _, hs⟩ => ?_
      subst hs
      exact (hr.skip (hsymbol.trans hb)).mono (Nat.sub_le _ 1)
    dsimp only
    split
    · exact Meets.bind (meets_faultHere _ : Meets _ _ fun _ _ => False) fun _ _ _ _ h => h.elim
    · exact hpower
  · exact .pure fun _ hs => hs.2

theorem chainHere (tier : Nat) (left : Expr) : Continues tokens (g.chainHere tier left) := by
  intro n
  refine Meets.bind .peek fun token => ?_
  split
  · exact .pure fun _ hs => hs.2
  · next joint hjoint =>
    obtain ⟨symbol, hkind⟩ := symbol_of_jointOf? hjoint
    refine Meets.bind (.advanceSymbol hkind) fun _ => ?_
    exact Meets.bind (hg.operand tier).loose fun _ => hg.chain tier _ n

theorem tiers (tier : Nat) : Begins tokens (g.tiers tier) := by
  intro n
  induction tier with
  | zero => exact hg.exponent n
  | succ tier ih => exact Meets.bind ih fun _ => hg.chainHere tier _ (n - 1)

theorem conditional : Begins tokens g.conditional := by
  intro n
  refine Meets.bind (hg.tiers tierCount n) fun test => Meets.bind .eatPassed fun b => ?_
  cases b with
  | false => exact .pure fun _ hs => hs
  | true =>
    refine Meets.bind hg.assignment.loose fun _ => Meets.bind .expectPassed fun _ => ?_
    refine Meets.bind hg.assignment.loose fun _ => .pure fun _ hs => hs.mono (Nat.sub_le _ 1)

theorem assignmentHere : Begins tokens g.assignmentHere := by
  intro n
  refine Meets.bind (hg.conditional n) fun target => Meets.bind .peek fun token => ?_
  split
  · exact .pure fun _ hs => hs.2
  · next op hop =>
    obtain ⟨symbol, hkind⟩ := symbol_of_assignOpOf? hop
    refine Meets.bind (.checkAssignable target token.place) fun _ => ?_
    refine Meets.bind (.advanceSymbol hkind) fun _ => ?_
    exact Meets.bind hg.assignment.loose fun _ => .pure fun _ hs => hs

/-! #### Statements -/

omit hg in
/-- The end of a statement is a semicolon, a closing brace, the end of the text or a line break, and
after each of them anything may come. -/
theorem terminator :
    Meets (Passed tokens n) Grammar.terminator fun _ s => s.Faces tokens n := by
  refine Meets.bind .eatPassed fun b => ?_
  cases b with
  | true => exact .pure fun _ hs => hs
  | false =>
    refine Meets.bind .peek fun token => ?_
    split
    · next hends =>
      refine .pure fun s ⟨htoken, hs⟩ => hs.faces fun name hname => ?_
      simpa [Grammar.Token.endsStatement, htoken, hname, TokenKind.isSymbol, TokenKind.isFinish]
        using hends
    · exact meets_faultAt _ _

theorem block : Completes tokens g.block := by
  intro n
  have hitem : Meets (Faces tokens (n - 1)) (do
      if ← atFinish then unexpected
      g.statement) fun _ s => True ∧ s.Faces tokens (n - 1) := by
    refine Meets.bind .atFinish fun b => ?_
    have hstatement := hg.statement.loose (n := n - 1)
    dsimp only
    split
    · exact Meets.bind (meets_unexpected : Meets _ _ fun _ s => s.Faces tokens (n - 1))
        fun _ => hstatement.post fun _ _ hs => ⟨trivial, hs⟩
    · exact hstatement.post fun _ _ hs => ⟨trivial, hs⟩
  refine Meets.bind (Meets.expectPassed.pre fun _ hs => hs.passed) fun _ => ?_
  refine Meets.bind .get fun outside => Meets.pre ?_ fun _ hs => hs.2
  refine Meets.bind (Meets.fueled fun fuel => Meets.itemsUntil ?_ hitem fuel) fun _ => ?_
  · exact Meets.atSymbol.post fun _ _ hs => hs.2
  · refine Meets.bind (Meets.expectPassed.pre fun _ hs => hs.2.passed) fun _ => ?_
    refine Meets.bind (R := fun _ s => s.Faces tokens (n - 1)) ?_ fun _ => .pure fun _ hs => hs
    rintro s _ t hs hrun
    cases hrun
    exact ⟨hs.taken, Nat.le_trans hs.left (Nat.sub_le _ 1)⟩

section Keywords

/-! A statement that begins with a word has looked at it. -/

variable {t : Token} (ht : t.kind.isWordOrSymbol = true)

include ht

theorem ifStatement :
    Meets (fun s => t = s.next ∧ s.Faces tokens n) g.ifStatement fun _ s =>
      s.Faces tokens (n - 1) := by
  refine Meets.bind (.advanceOver ht) fun _ => ?_
  refine Meets.bind (Meets.expectPassed.pre fun _ hs => hs.passed) fun _ => ?_
  refine Meets.bind hg.assignment.loose fun _ => Meets.bind .expectPassed fun _ => ?_
  refine Meets.bind (hg.statement.loose.pre fun _ hs => hs) fun consequent => ?_
  refine Meets.bind .atWord fun b => ?_
  split
  · next hb =>
    refine Meets.bind (Meets.advanceWord.pre fun _ hs => ⟨hs.1.trans hb, hs.2⟩) fun _ => ?_
    exact Meets.bind hg.statement.loose fun _ => .pure fun _ hs => hs.mono (by omega)
  · exact .pure fun _ hs => hs.2.mono (by omega)

theorem returnStatement :
    Meets (fun s => t = s.next ∧ s.Faces tokens n) g.returnStatement fun _ s =>
      s.Faces tokens (n - 1) := by
  refine Meets.bind (.advanceOver ht) fun _ => Meets.bind .peek fun token => ?_
  split
  · exact Meets.bind (terminator.pre fun _ hs => hs.2.passed) fun _ => .pure fun _ hs => hs
  · refine Meets.bind (hg.assignment.loose.pre fun _ hs => hs.2) fun value => ?_
    exact Meets.bind terminator fun _ => .pure fun _ hs => hs

omit ht in
theorem initializer (constant : Bool) (place : List Char) :
    Continues tokens (g.initializer constant place) := by
  intro n
  have hnone : Meets (Passed tokens n) (return none : Parser (Option Expr)) fun _ s =>
      s.Passed tokens n := .pure fun _ hs => hs
  refine Meets.bind .eatPassed fun b => ?_
  cases b with
  | true => exact Meets.bind hg.assignment.loose fun _ => .pure fun _ hs => hs
  | false =>
    simp only [Bool.false_eq_true, if_false]
    split
    · exact Meets.bind (meets_faultAt _ _ : Meets _ _ fun _ s => s.Passed tokens n) fun _ => hnone
    · exact hnone

omit ht in
theorem declarator (constant : Bool) :
    Meets (Faces tokens n) (g.declarator constant) fun _ s => s.Passed tokens n := by
  have hdeclare : ∀ (name : String) (place : List Char) (_ : Unit),
      Meets (Passed tokens n) (do
        let init ← g.initializer constant place
        let slot := (← MonadState.get).nextSlot
        modify fun s =>
          { s with nextSlot := slot + 1, locals := ⟨name, slot, constant⟩ :: s.locals }
        return (slot, init)) fun _ s => s.Passed tokens n := by
    intro name place _
    refine Meets.bind (hg.initializer constant place n) fun init => Meets.bind .get fun r => ?_
    refine Meets.bind (R := fun _ s => s.Passed tokens n) ?_ fun _ => .pure fun _ hs => hs
    rintro s _ t hs hrun
    cases hrun
    exact ⟨hs.2.taken, hs.2.left⟩
  refine Meets.bind .any fun token => ?_
  split
  · dsimp only
    split
    · exact Meets.bind (meets_faultAt _ _ : Meets _ _ fun _ s => s.Passed tokens n)
        (hdeclare _ token.place)
    · exact hdeclare _ token.place ()
  · exact meets_faultAt _ _

theorem declaration :
    Meets (fun s => t = s.next ∧ s.Faces tokens n) g.declaration fun _ s =>
      s.Faces tokens (n - 1) := by
  refine Meets.bind .atWord fun constant => ?_
  refine Meets.bind ((Meets.advanceOver ht).pre fun _ hs => hs.2) fun _ => ?_
  refine Meets.bind (Meets.fueled fun fuel => Meets.separatedByComma (F := fun _ => True)
    (fun _ hs => hs.passed) (fun _ hs hcomma => (hs.skip hcomma).mono (Nat.sub_le _ 1))
    ((hg.declarator constant).post fun _ _ hs => ⟨trivial, hs⟩) fuel) fun _ => ?_
  exact Meets.bind (terminator.pre fun _ hs => hs.2) fun _ => .pure fun _ hs => hs

end Keywords

theorem expressionStatement : Completes tokens g.expressionStatement := fun n =>
  Meets.bind (hg.assignment n) fun _ => Meets.bind terminator fun _ => .pure fun _ hs => hs

theorem statementHere : Completes tokens g.statementHere := by
  intro n
  refine Meets.bind .eat fun b => ?_
  cases b with
  | true =>
    refine .pure fun s ⟨r, hr, hsymbol, hs⟩ => ?_
    subst hs
    exact hr.passed.skip hsymbol
  | false =>
    refine Meets.bind (Meets.peek (P := Faces tokens n)) fun token => ?_
    split
    · exact (hg.block n).pre fun _ hs => hs.2
    · next hkind => exact hg.ifStatement (by rw [hkind]; rfl)
    · next hkind => exact hg.returnStatement (by rw [hkind]; rfl)
    · next hkind => exact hg.declaration (by rw [hkind]; rfl)
    · next hkind => exact hg.declaration (by rw [hkind]; rfl)
    · next hkind => exact hg.declaration (by rw [hkind]; rfl)
    · exact (hg.expressionStatement n).pre fun _ hs => hs.2

theorem deeper : g.deeper.Separates tokens where
  statement := hg.statementHere
  assignment := hg.assignmentHere
  unary := hg.unaryHere
  power := hg.exponent
  operand := hg.tiers
  chain := hg.chainHere
  link := hg.linkHere

end Grammar.Separates

/-- The parsers of every grammar keep tokens apart. -/
theorem separates_grammar (levels : Nat) : (grammar levels).Separates tokens := by
  induction levels with
  | zero => exact separates_exhausted
  | succ levels ih => exact ih.deeper

/-! ### Programs -/

theorem Meets.ended {P : ParserState → Prop} :
    Meets P Syntax.atFinish fun b s => s.next.kind.isFinish = b ∧ P s :=
  Meets.bind .peek fun _ => .pure fun _ h => ⟨h.1 ▸ rfl, h.2⟩

/-- Statements go on to the end of the text: the fuel is enough, since each takes a token. -/
theorem meets_statements {item : Parser Stmt} (hitem : Completes tokens item) (fuel : Nat) :
    Meets (ParserState.Faces tokens fuel) (itemsUntil atFinish item fuel) fun _ s =>
      s.next.kind.isFinish = true ∧ s.Faces tokens fuel := by
  induction fuel with
  | zero =>
    refine .pure fun s hs => ⟨?_, hs⟩
    have hnil : s.tokens = [] := List.length_eq_zero_iff.1 (Nat.le_zero.1 hs.left)
    rw [ParserState.next, hnil]
    rfl
  | succ fuel ih =>
    refine Meets.bind .ended fun b => ?_
    split
    · next hb => exact .pure fun _ hs => ⟨hs.1.trans hb, hs.2⟩
    · refine Meets.bind ((hitem (fuel + 1)).pre fun _ hs => hs.2) fun x => ?_
      exact Meets.bind ih fun xs => .pure fun _ hs => ⟨hs.1, hs.2.mono (Nat.le_succ fuel)⟩

theorem meets_wholeText (mode : Mode) :
    Meets (ParserState.Faces tokens tokens.length) (wholeText mode) fun _ s =>
      s.next.kind.isFinish = true ∧ s.Passed tokens tokens.length := by
  cases mode with
  | expression =>
    refine Meets.bind (separates_grammar maxNesting).assignment.loose fun e => ?_
    refine Meets.bind .ended fun b => ?_
    dsimp only
    split
    · next hb => exact .pure fun _ hs => ⟨hs.1.trans hb, hs.2⟩
    · exact Meets.bind (meets_unexpected : Meets _ _ fun _ _ => False) fun _ _ _ _ h => h.elim
  | statement =>
    refine Meets.bind (R := fun _ s =>
      s.next.kind.isFinish = true ∧ s.Faces tokens tokens.length) ?_ fun _ =>
        .pure fun _ hs => ⟨hs.1, hs.2.passed⟩
    intro s xs t hs hrun
    refine (meets_statements (separates_grammar maxNesting).statement s.tokens.length s xs t
      ⟨hs.taken, Nat.le_refl _⟩ hrun).imp_right fun h => ?_
    exact h.mono hs.left

/-- In a text that parses, a name comes after a number only on a new line. -/
theorem apart_of_parse {source : String} {params : List String} {mode : Mode} {program : Program}
    (h : parse source params mode = .ok program) :
    ∃ tokens, tokenize source = .ok tokens ∧ tokens.IsChain Token.Apart := by
  obtain ⟨tokens, finish, htokens, hrun, -⟩ := parse_eq_ok h
  have hstart : (ParserState.start params tokens).Faces tokens tokens.length :=
    ⟨⟨[], rfl, .singleton _⟩, Nat.le_refl _⟩
  obtain ⟨hfinish, hpassed⟩ := meets_wholeText mode _ _ _ hstart hrun
  refine ⟨tokens, htokens, ?_⟩
  obtain ⟨done, heq, hchain⟩ := (hpassed.faces fun name hname => by
    rw [hname] at hfinish
    cases hfinish).taken
  rw [ParserState.next] at hchain hfinish
  cases hrest : finish.tokens with
  | nil =>
    rw [heq, hrest, List.append_nil]
    exact hchain.left_of_append
  | cons t rest =>
    rw [hrest] at heq hchain hfinish
    obtain rfl : rest = [] := (tokenize_eq_ok.1 htokens).finish_last heq hfinish
    exact heq ▸ hchain

end LiveMarkup.Syntax
