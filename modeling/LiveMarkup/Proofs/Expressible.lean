import LiveMarkup.Proofs.Spelling

/-!
# What texts express

The trees that the parser gives for expressions are among those that can be written out.  Every name
of a tree was a name of the text and every number was written with a numeral; optional links stand
within optional chains, targets can be assigned to, and no power has a unary operator on its left.

## Main definitions

* `ParserState.Plain` — a state whose tokens can be read back, with no variables to be seen.
* `Grammar.Expresses` — the parsers of a grammar give expressible trees.

## Main results

* `expresses_grammar` — the parsers of every grammar do, by induction on its levels.
* `expressible_of_parse` — every expression that parses can be written out.
-/

namespace LiveMarkup.Syntax

variable {σ : Style} {params : List String}

/-! ### States -/

variable (σ params) in
/-- The tokens to come can be read back, and no variables can be seen. -/
structure ParserState.Plain (s : ParserState) : Prop where
  params : s.params = params
  locals : s.locals = []
  readable : ∀ t ∈ s.tokens, t.kind.isFinish = false → t.kind.Readable σ

namespace ParserState.Plain

variable {s : ParserState}

theorem next (h : s.Plain σ params) : s.next.kind.isFinish = false → s.next.kind.Readable σ := by
  unfold ParserState.next
  cases htokens : s.tokens with
  | nil => exact fun hfinish => by cases hfinish
  | cons t rest => exact h.readable t (htokens ▸ List.mem_cons_self)

theorem skip (h : s.Plain σ params) : s.skip.Plain σ params := by
  unfold ParserState.skip
  split
  · next t rest htokens =>
    split
    · exact h
    · refine ⟨h.params, h.locals, fun u hu => h.readable u ?_⟩
      exact htokens ▸ List.mem_cons_of_mem t hu
  · exact h

end ParserState.Plain

variable (σ params) in
/-- A parser of plain tokens that gives only results with a property. -/
abbrev Expresses {α : Type} (p : Parser α) (F : α → Prop) : Prop :=
  Maintains ⟨ParserState.Plain σ params, fun _ hs => hs.skip⟩ p F

/-- A chain of members and calls so far; the flag says whether it has a `?.` link. -/
def Expr.Begun (σ : Style) (params : List String) (optional : Bool) (e : Expr) : Prop :=
  e.Expressible σ params optional ∧ (optional = true → e.isOpen = true)

variable (σ params) in
/-- The parsers of expressions of a grammar give expressible trees. -/
structure Grammar.Expresses (g : Grammar) : Prop where
  assignment : Syntax.Expresses σ params g.assignment (Expr.Expressible σ params false)
  unary : Syntax.Expresses σ params g.unary (Expr.Expressible σ params false)
  power : Syntax.Expresses σ params g.power (Expr.Expressible σ params false)
  operand (tier : Nat) :
    Syntax.Expresses σ params (g.operand tier) (Expr.Expressible σ params false)
  chain (tier : Nat) {left : Expr} (hleft : left.Expressible σ params false) :
    Syntax.Expresses σ params (g.chain tier left) (Expr.Expressible σ params false)
  link {optional : Bool} {e : Expr} (he : e.Begun σ params optional) :
    Syntax.Expresses σ params (g.link optional e) (Expr.Expressible σ params false)

theorem expresses_exhausted : Grammar.exhausted.Expresses σ params where
  assignment := meets_faultHere _
  unary := meets_faultHere _
  power := meets_faultHere _
  operand _ := meets_faultHere _
  chain _ _ _ := meets_faultHere _
  link _ := meets_faultHere _

/-! ### Single steps -/

theorem expresses_advance : Expresses σ params advance
    fun t => t.kind.isFinish = false → t.kind.Readable σ :=
  .advance fun _ hs => hs.next

theorem expresses_resolve {name : String} (hname : IsFree name) :
    Expresses σ params (resolve name) (Expr.Expressible σ params false) := by
  refine .bind .get fun s hs => .pure ?_
  unfold ParserState.resolve
  rw [hs.locals, hs.params]
  dsimp only [List.find?_nil]
  split
  · next slot hslot => exact .param hname hslot
  · next hslot =>
    split
    · next hundefined => exact .undefined (hundefined ▸ hslot)
    · next hundefined =>
      split
      · next g hglobal =>
        obtain rfl : g.name = name := by simpa using List.find?_some hglobal
        exact .global hslot hglobal
      · next hglobal => exact .unbound hname hslot hundefined hglobal

theorem expresses_word {name : String} (hname : isName name = true) (place : List Char) :
    Expresses σ params (Grammar.word place name) (Expr.Expressible σ params false) := by
  unfold Grammar.word
  split
  · exact .pure (.bool true)
  · exact .pure (.bool false)
  · exact .pure .null
  · split
    · exact meets_faultAt _ _
    · next hreserved =>
      exact expresses_resolve ⟨hname, Bool.eq_false_iff.2 hreserved⟩

theorem expresses_propertyName :
    Expresses σ params propertyName fun name => isName name = true := by
  refine .bind expresses_advance fun token htoken => ?_
  split
  · next name hkind =>
    rw [hkind] at htoken
    exact .pure (htoken rfl)
  · exact meets_faultAt _ _

theorem expresses_checkAssignable (target : Expr) (place : List Char) :
    Expresses σ params (checkAssignable target place) fun _ => target.isAssignable = true :=
  meets_checkAssignable target place

/-- A chain in which optional links may stand is no less expressible. -/
theorem Expr.Expressible.loosen {chain : Bool} {e : Expr} (h : e.Expressible σ params chain) :
    e.Expressible σ params true := by
  induction h with
  | member _ hproperty _ ih => exact .member ih hproperty fun _ => rfl
  | index _ hkey _ ih => exact .index ih hkey fun _ => rfl
  | call _ hargs _ ih => exact .call ih hargs fun _ => rfl
  | _ => constructor <;> assumption

/-- No tier has the operator `**`. -/
theorem jointOf?_ne_pow {tier : Nat} {kind : TokenKind} :
    jointOf? tier kind ≠ some (.binary .pow) := by
  intro h
  cases kind with
  | symbol s =>
    obtain ⟨before, after, heq, -⟩ := List.lookup_eq_some_iff.1 h
    have hmem : (s, Joint.binary .pow) ∈ tierOperators tier := by simp [heq]
    unfold tierOperators at hmem
    split at hmem <;> simp at hmem
  | number | string | name | finish => cases h

theorem expressible_joined {tier : Nat} {kind : TokenKind} {joint : Joint}
    (hjoint : jointOf? tier kind = some joint) {left right : Expr}
    (hleft : left.Expressible σ params false) (hright : right.Expressible σ params false) :
    (joint.join left right).Expressible σ params false := by
  cases joint with
  | logical op => exact .logical hleft hright
  | binary op =>
    refine .binary hleft hright fun hpow => absurd hjoint ?_
    subst hpow
    exact jointOf?_ne_pow

theorem isSome_symbol?_of_assignOpOf? {kind : TokenKind} {op : AssignOp}
    (h : assignOpOf? kind = some op) : op.symbol?.isSome = true := by
  unfold assignOpOf? at h
  split at h <;> cases h <;> rfl

/-- A chain goes on with a link that is not optional. -/
theorem Expr.Begun.more {optional : Bool} {e e' : Expr} (h : e.Begun σ params optional)
    (he : e'.Expressible σ params optional) (hopen : e'.isOpen = (false || e.isOpen)) :
    e'.Begun σ params optional :=
  ⟨he, fun hoptional => hopen.trans (h.2 hoptional)⟩

namespace Grammar.Expresses

variable {g : Grammar} (hσ : σ.holes = true) (hg : g.Expresses σ params)

include hg

/-! ### Primary expressions -/

theorem propertyValue :
    Syntax.Expresses σ params g.propertyValue (Expr.Expressible σ params false) :=
  .step (.expect .colon) fun _ => hg.assignment

theorem property :
    Syntax.Expresses σ params g.property fun p => p.2.Expressible σ params false := by
  have hvalue (key : String) : Syntax.Expresses σ params (do return (key, ← g.propertyValue))
      fun p => p.2.Expressible σ params false :=
    hg.propertyValue.bind fun _ hvalue => .pure hvalue
  refine .bind expresses_advance fun token htoken => ?_
  split
  · next key hkind =>
    rw [hkind] at htoken
    have hname : isName key = true := htoken rfl
    have hshort : isReserved key = false → Syntax.Expresses σ params
        (do return (key, ← Syntax.resolve key)) fun p => p.2.Expressible σ params false :=
      fun hreserved => .bind (expresses_resolve ⟨hname, hreserved⟩) fun _ he => .pure he
    refine .step (.atSymbol .colon) fun b => ?_
    split
    · exact hvalue key
    · dsimp only
      split
      · exact Maintains.fails (meets_faultAt _ _)
      · next hreserved => exact hshort (Bool.eq_false_iff.2 hreserved)
  · exact hvalue _
  · exact hvalue _
  · exact meets_faultAt _ _

include hσ in
theorem primary : Syntax.Expresses σ params g.primary (Expr.Expressible σ params false) := by
  refine .bind expresses_advance fun token htoken => ?_
  split
  · next hkind =>
    rw [hkind] at htoken
    exact .pure (.number (htoken rfl))
  · exact .pure (.string _)
  · next hkind =>
    rw [hkind] at htoken
    exact expresses_word (htoken rfl) token.place
  · exact hg.assignment.bind fun _ he => .step (.expect .rightParen) fun _ => .pure he
  · -- an element left out is `undefined`, also where a parameter has taken that name
    have hitems : Syntax.Expresses σ params (fueled (arrayItems g.assignment))
        fun items => ∀ e ∈ items, σ.leavesOut e = false → e.Expressible σ params false :=
      Meets.fueled fun fuel =>
        Maintains.arrayItems (F := fun e => σ.leavesOut e = false → e.Expressible σ params false)
          (hg.assignment.post fun _ he _ => he)
          (fun hout => absurd (hσ.symm.trans hout) (by decide)) fuel
    exact hitems.bind fun _ hitems => .step (.expect .rightBracket) fun _ => .pure (.array hitems)
  · have hproperties : Syntax.Expresses σ params (fueled (commaSeparated .rightBrace g.property))
        fun properties => ∀ p ∈ properties, p.2.Expressible σ params false :=
      Meets.fueled fun fuel => Maintains.commaSeparated hg.property fuel
    exact hproperties.bind fun _ hvalues =>
      .step (.expect .rightBrace) fun _ => .pure (.object hvalues)
  · exact meets_faultAt _ _

/-! ### Chains of members and calls -/

theorem arguments : Syntax.Expresses σ params g.arguments
    fun args => ∀ e ∈ args, e.Expressible σ params false := by
  have hargs : Syntax.Expresses σ params (fueled (commaSeparated .rightParen g.assignment))
      fun args => ∀ e ∈ args, e.Expressible σ params false :=
    Meets.fueled fun fuel => Maintains.commaSeparated hg.assignment fuel
  exact .step (.expect .leftParen) fun _ => hargs.bind fun _ hargs =>
    .step (.expect .rightParen) fun _ => .pure hargs

theorem bracketed : Syntax.Expresses σ params g.bracketed (Expr.Expressible σ params false) :=
  hg.assignment.bind fun _ hkey => .step (.expect .rightBracket) fun _ => .pure hkey

theorem optionalLink {e : Expr} (he : e.Expressible σ params true) :
    Syntax.Expresses σ params (g.optionalLink e) (Expr.Begun σ params true) := by
  refine .step (.peek fun _ _ => trivial) fun token => ?_
  split
  · exact hg.arguments.bind fun _ hargs => .pure ⟨.call he hargs fun _ => rfl, fun _ => rfl⟩
  · exact .step (.advance fun _ _ => trivial) fun _ => hg.bracketed.bind fun _ hkey =>
      .pure ⟨.index he hkey fun _ => rfl, fun _ => rfl⟩
  · exact .bind expresses_propertyName fun _ hname =>
      .pure ⟨.member he hname fun _ => rfl, fun _ => rfl⟩

theorem links {optional : Bool} {e : Expr} (he : e.Begun σ params optional) :
    Syntax.Expresses σ params (g.links optional e) (Expr.Expressible σ params false) := by
  refine .step (.peek fun _ _ => trivial) fun token => ?_
  split
  · exact hg.link he
  · cases optional with
    | true => exact .pure (.optionalChain he.1 (he.2 rfl))
    | false => exact .pure he.1

theorem linkHere {optional : Bool} {e : Expr} (he : e.Begun σ params optional) :
    Syntax.Expresses σ params (g.linkHere optional e) (Expr.Expressible σ params false) := by
  have hplain : ∀ {chain : Bool}, (false = true → chain = true) := fun h => absurd h (by decide)
  refine .step (.peek fun _ _ => trivial) fun token => ?_
  split
  · exact .step (.advance fun _ _ => trivial) fun _ => .bind expresses_propertyName fun _ hname =>
      hg.links (he.more (.member he.1 hname hplain) rfl)
  · -- with the first `?.` link the whole chain becomes an optional one
    exact .step (.advance fun _ _ => trivial) fun _ =>
      (hg.optionalLink he.1.loosen).bind fun _ hmore => hg.links hmore
  · exact .step (.advance fun _ _ => trivial) fun _ => hg.bracketed.bind fun _ hkey =>
      hg.links (he.more (.index he.1 hkey hplain) rfl)
  · exact hg.arguments.bind fun _ hargs =>
      hg.links (he.more (.call he.1 hargs hplain) rfl)

include hσ in
theorem callMember : Syntax.Expresses σ params g.callMember (Expr.Expressible σ params false) :=
  (hg.primary hσ).bind fun _ he => hg.links ⟨he, fun h => absurd h (by decide)⟩

/-! ### Operators -/

include hσ in
theorem postfixed : Syntax.Expresses σ params g.postfixed (Expr.Expressible σ params false) := by
  refine (hg.callMember hσ).bind fun e he => .step (.peek fun _ _ => trivial) fun token => ?_
  split
  · exact .pure he
  · split
    · exact .pure he
    · exact .bind (expresses_checkAssignable e token.place) fun _ hassignable =>
        .step (.advance fun _ _ => trivial) fun _ => .pure (.update he hassignable)

include hσ in
theorem unaryHere : Syntax.Expresses σ params g.unaryHere (Expr.Expressible σ params false) := by
  refine .step (.peek fun _ _ => trivial) fun token => ?_
  split
  · exact .step (.advance fun _ _ => trivial) fun _ => hg.unary.bind fun target htarget =>
      .bind (expresses_checkAssignable target token.place) fun _ hassignable =>
        .pure (.update htarget hassignable)
  · split
    · exact .step (.advance fun _ _ => trivial) fun _ => hg.unary.bind fun _ hoperand =>
        .pure (.unary hoperand)
    · exact hg.postfixed hσ

theorem exponent : Syntax.Expresses σ params g.exponent (Expr.Expressible σ params false) := by
  refine hg.unary.bind fun base hbase => .step (.atSymbol .starStar) fun b => ?_
  split
  · dsimp only
    split
    · exact Maintains.fails (meets_faultHere _)
    · next hunary =>
      refine .step (.advance fun _ _ => trivial) fun _ => hg.power.bind fun _ hpower => .pure ?_
      exact .binary hbase hpower fun _ => Bool.eq_false_iff.2 hunary
  · exact .pure hbase

theorem chainHere (tier : Nat) {left : Expr} (hleft : left.Expressible σ params false) :
    Syntax.Expresses σ params (g.chainHere tier left) (Expr.Expressible σ params false) := by
  refine .step (.peek fun _ _ => trivial) fun token => ?_
  split
  · exact .pure hleft
  · next joint hjoint =>
    exact .step (.advance fun _ _ => trivial) fun _ => (hg.operand tier).bind fun _ hright =>
      hg.chain tier (expressible_joined hjoint hleft hright)

theorem tiers (tier : Nat) :
    Syntax.Expresses σ params (g.tiers tier) (Expr.Expressible σ params false) := by
  induction tier with
  | zero => exact hg.exponent
  | succ tier ih => exact ih.bind fun _ hleft => hg.chainHere tier hleft

theorem conditional :
    Syntax.Expresses σ params g.conditional (Expr.Expressible σ params false) := by
  refine (hg.tiers tierCount).bind fun test htest => .step (.eat .question) fun b => ?_
  split
  · exact hg.assignment.bind fun _ hconsequent => .step (.expect .colon) fun _ =>
      hg.assignment.bind fun _ halternate => .pure (.conditional htest hconsequent halternate)
  · exact .pure htest

theorem assignmentHere :
    Syntax.Expresses σ params g.assignmentHere (Expr.Expressible σ params false) := by
  refine hg.conditional.bind fun target htarget => .step (.peek fun _ _ => trivial) fun token => ?_
  split
  · exact .pure htarget
  · next op hop =>
    exact .bind (expresses_checkAssignable target token.place) fun _ hassignable =>
      .step (.advance fun _ _ => trivial) fun _ => hg.assignment.bind fun _ hvalue =>
        .pure (.assign (isSome_symbol?_of_assignOpOf? hop) htarget hassignable hvalue)

/-- The parsers of a deeper level give expressible trees if those inside them do. -/
theorem deeper (hσ : σ.holes = true) : g.deeper.Expresses σ params where
  assignment := hg.assignmentHere
  unary := hg.unaryHere hσ
  power := hg.exponent
  operand tier := hg.tiers tier
  chain tier _ hleft := hg.chainHere tier hleft
  link he := hg.linkHere he

end Grammar.Expresses

theorem expresses_grammar (hσ : σ.holes = true) (levels : Nat) :
    (grammar levels).Expresses σ params := by
  induction levels with
  | zero => exact expresses_exhausted
  | succ levels ih => exact ih.deeper hσ

/-! ### Whole texts -/

open Classical in
/-- The style that writes a number with a numeral if it has one, and leaves `undefined` elements
out. -/
noncomputable def Style.reading : Style where
  numeral x := if h : ∃ cs, IsNumeral cs x then h.choose else []
  holes := true

theorem isNumeral_reading {cs : List Char} {x : Float} (h : IsNumeral cs x) :
    IsNumeral (Style.reading.numeral x) x := by
  have hex : ∃ cs, IsNumeral cs x := ⟨cs, h⟩
  simp only [Style.reading, dif_pos hex]
  exact hex.choose_spec

/-- A token of a text is read back from its characters. -/
theorem readable_of_splitLexeme {c : Char} {cs rest : List Char} {kind : TokenKind}
    (h : splitLexeme c cs = .ok (kind, rest)) : kind.Readable Style.reading := by
  obtain ⟨lexeme, -, hlexeme⟩ := lexeme_of_splitLexeme h
  cases hlexeme with
  | name hc hcs hrest => exact isName_ofList.2 ⟨hc, hcs⟩
  | number =>
    obtain ⟨taken, -, hafter⟩ := splitLexeme_number_append h
    have halone := hafter [] (.inl rfl)
    rw [List.append_nil] at halone
    exact isNumeral_reading ⟨c, taken, rfl, halone⟩
  | string => trivial
  | symbol => trivial

theorem readable_of_spelled {cs : List Char} {tokens : List Token} (h : Spelled cs tokens) :
    ∀ t ∈ tokens, t.kind.isFinish = false → t.kind.Readable Style.reading := by
  induction h with
  | finish => simp [TokenKind.isFinish]
  | token _ hlexeme _ ih =>
    exact List.forall_mem_cons.2 ⟨fun _ => readable_of_splitLexeme hlexeme, ih⟩

/-- Every expression that parses can be written out. -/
theorem expressible_of_parse {source : String} {e : Expr} {slotCount : Nat}
    (h : parse source params .expression = .ok ⟨.expression e, slotCount⟩) :
    e.Expressible Style.reading params false := by
  obtain ⟨tokens, finish, htokens, hrun, -⟩ := parse_eq_ok h
  have hwhole : Expresses Style.reading params (wholeExpression maxNesting)
      fun body => ∀ e, body = .expression e → e.Expressible Style.reading params false := by
    refine (expresses_grammar rfl maxNesting).assignment.bind fun e he => ?_
    have hresult : ∀ e', Body.expression e = .expression e' →
        e'.Expressible Style.reading params false := by
      rintro _ ⟨⟩
      exact he
    refine .step .atFinish fun b => ?_
    dsimp only
    split
    · exact .pure hresult
    · exact Maintains.fails meets_unexpected
  exact (hwhole _ _ _ ⟨rfl, rfl, readable_of_spelled (tokenize_eq_ok.1 htokens)⟩ hrun).1 e rfl

end LiveMarkup.Syntax
