import LiveMarkup.Proofs.ParserResults
import LiveMarkup.Proofs.Words

/-!
# The variables of an expression

In an expression every name that is looked up is a parameter, a builtin or not defined: there are no
declarations.  The parser looks a name up only where an operand or the short form of a property can
stand, and there the token before the name is neither a number nor a point.  So every parameter in
the tree of an expression comes from an open name of the text.

## Main definitions

* `Expr.subterms`, `Expr.All` — the parts of an expression, and what holds of all of them.
* `Resolved` — a part that refers to no variable, or to a parameter with an open name.
* `ParserState.Sees` — what the tokens to come have as open names.
* `Grammar.Resolves` — the parsers of a grammar give expressions with resolved parts.

## Main results

* `resolves_grammar` — every grammar does, by induction on its levels.
* `resolved_of_parse` — the parts of a parsed expression are resolved.
-/

namespace LiveMarkup.Syntax

/-! ### Parts of expressions -/

mutual

/-- An expression with all expressions inside it. -/
@[simp] def Expr.subterms : Expr → List Expr
  | .literal l => [.literal l]
  | .array items => .array items :: subtermsOf items
  | .object properties => .object properties :: subtermsOfProperties properties
  | .param slot name => [.param slot name]
  | .declared slot name => [.declared slot name]
  | .global g => [.global g]
  | .unbound name => [.unbound name]
  | .member object property optional => .member object property optional :: object.subterms
  | .index object key optional => .index object key optional :: (object.subterms ++ key.subterms)
  | .call callee args optional => .call callee args optional :: (callee.subterms ++ subtermsOf args)
  | .optionalChain chain => .optionalChain chain :: chain.subterms
  | .unary op operand => .unary op operand :: operand.subterms
  | .binary op left right => .binary op left right :: (left.subterms ++ right.subterms)
  | .logical op left right => .logical op left right :: (left.subterms ++ right.subterms)
  | .conditional test consequent alternate =>
    .conditional test consequent alternate ::
      (test.subterms ++ (consequent.subterms ++ alternate.subterms))
  | .assign op target value => .assign op target value :: (target.subterms ++ value.subterms)
  | .update op result target => .update op result target :: target.subterms

/-- Several expressions with all expressions inside them. -/
def subtermsOf : List Expr → List Expr
  | [] => []
  | e :: rest => e.subterms ++ subtermsOf rest

/-- The values of several properties with all expressions inside them. -/
def subtermsOfProperties : List (String × Expr) → List Expr
  | [] => []
  | (_, e) :: rest => e.subterms ++ subtermsOfProperties rest

end

/-- The property holds of an expression and of every expression inside it. -/
def Expr.All (P : Expr → Prop) (e : Expr) : Prop := ∀ x ∈ e.subterms, P x

section All

variable {P : Expr → Prop}

theorem forall_mem_subtermsOf {items : List Expr} :
    (∀ x ∈ subtermsOf items, P x) ↔ ∀ e ∈ items, e.All P := by
  induction items with
  | nil => simp [subtermsOf]
  | cons e rest ih =>
    rw [subtermsOf, List.forall_mem_append, ih, List.forall_mem_cons]
    rfl

theorem forall_mem_subtermsOfProperties {properties : List (String × Expr)} :
    (∀ x ∈ subtermsOfProperties properties, P x) ↔ ∀ p ∈ properties, p.2.All P := by
  induction properties with
  | nil => simp [subtermsOfProperties]
  | cons p rest ih =>
    rw [subtermsOfProperties, List.forall_mem_append, ih, List.forall_mem_cons]
    rfl

/-! What holds of all parts holds of the whole and of all parts of each operand. -/

theorem all_literal {l : Literal} : (Expr.literal l).All P ↔ P (.literal l) := by
  simp [Expr.All, Expr.subterms]

theorem all_param {slot : Nat} {name : String} :
    (Expr.param slot name).All P ↔ P (.param slot name) := by
  simp [Expr.All, Expr.subterms]

theorem all_declared {slot : Nat} {name : String} :
    (Expr.declared slot name).All P ↔ P (.declared slot name) := by
  simp [Expr.All, Expr.subterms]

theorem all_global {g : Global} : (Expr.global g).All P ↔ P (.global g) := by
  simp [Expr.All, Expr.subterms]

theorem all_unbound {name : String} : (Expr.unbound name).All P ↔ P (.unbound name) := by
  simp [Expr.All, Expr.subterms]

theorem all_array {items : List Expr} :
    (Expr.array items).All P ↔ P (.array items) ∧ ∀ e ∈ items, e.All P := by
  rw [← forall_mem_subtermsOf, Expr.All, Expr.subterms, List.forall_mem_cons]

theorem all_object {properties : List (String × Expr)} :
    (Expr.object properties).All P ↔ P (.object properties) ∧ ∀ p ∈ properties, p.2.All P := by
  rw [← forall_mem_subtermsOfProperties, Expr.All, Expr.subterms, List.forall_mem_cons]

theorem all_member {object : Expr} {property : String} {optional : Bool} :
    (Expr.member object property optional).All P ↔
      P (.member object property optional) ∧ object.All P := by
  rw [Expr.All, Expr.subterms, List.forall_mem_cons, Expr.All]

theorem all_index {object key : Expr} {optional : Bool} :
    (Expr.index object key optional).All P ↔
      P (.index object key optional) ∧ object.All P ∧ key.All P := by
  rw [Expr.All, Expr.subterms, List.forall_mem_cons, List.forall_mem_append, Expr.All, Expr.All]

theorem all_call {callee : Expr} {args : List Expr} {optional : Bool} :
    (Expr.call callee args optional).All P ↔
      P (.call callee args optional) ∧ callee.All P ∧ ∀ e ∈ args, e.All P := by
  rw [← forall_mem_subtermsOf, Expr.All, Expr.subterms, List.forall_mem_cons,
    List.forall_mem_append, Expr.All]

theorem all_optionalChain {chain : Expr} :
    (Expr.optionalChain chain).All P ↔ P (.optionalChain chain) ∧ chain.All P := by
  rw [Expr.All, Expr.subterms, List.forall_mem_cons, Expr.All]

theorem all_unary {op : UnaryOp} {operand : Expr} :
    (Expr.unary op operand).All P ↔ P (.unary op operand) ∧ operand.All P := by
  rw [Expr.All, Expr.subterms, List.forall_mem_cons, Expr.All]

theorem all_binary {op : BinaryOp} {left right : Expr} :
    (Expr.binary op left right).All P ↔ P (.binary op left right) ∧ left.All P ∧ right.All P := by
  rw [Expr.All, Expr.subterms, List.forall_mem_cons, List.forall_mem_append, Expr.All, Expr.All]

theorem all_logical {op : LogicalOp} {left right : Expr} :
    (Expr.logical op left right).All P ↔ P (.logical op left right) ∧ left.All P ∧ right.All P := by
  rw [Expr.All, Expr.subterms, List.forall_mem_cons, List.forall_mem_append, Expr.All, Expr.All]

theorem all_conditional {test consequent alternate : Expr} :
    (Expr.conditional test consequent alternate).All P ↔
      P (.conditional test consequent alternate) ∧ test.All P ∧ consequent.All P ∧
        alternate.All P := by
  rw [Expr.All, Expr.subterms, List.forall_mem_cons, List.forall_mem_append,
    List.forall_mem_append, Expr.All, Expr.All, Expr.All]

theorem all_assign {op : AssignOp} {target value : Expr} :
    (Expr.assign op target value).All P ↔
      P (.assign op target value) ∧ target.All P ∧ value.All P := by
  rw [Expr.All, Expr.subterms, List.forall_mem_cons, List.forall_mem_append, Expr.All, Expr.All]

theorem all_update {op : UpdateOp} {result : UpdateResult} {target : Expr} :
    (Expr.update op result target).All P ↔ P (.update op result target) ∧ target.All P := by
  rw [Expr.All, Expr.subterms, List.forall_mem_cons, Expr.All]

end All

/-! ### Tokens to come -/

theorem openNames_true_subset (tokens : List Token) :
    openNames true tokens ⊆ openNames false tokens := by
  cases tokens with
  | nil => simp [openNames]
  | cons t rest =>
    simp only [openNames]
    split
    · simp
    · exact List.Subset.refl _

/-- A state of the parser of an expression over parameters.  The open names among the tokens to come
are among `found`; the flag says whether a name that comes next is hidden. -/
structure ParserState.Sees (params found : List String) (hidden : Bool) (s : ParserState) :
    Prop where
  slots : s.nextSlot = params.length
  params : s.params = params
  locals : s.locals = []
  names : openNames hidden s.tokens ⊆ found

namespace ParserState.Sees

variable {params found : List String} {hidden : Bool} {s : ParserState}

theorem hide (h : s.Sees params found hidden) : s.Sees params found true := by
  cases hidden with
  | true => exact h
  | false =>
    exact ⟨h.slots, h.params, h.locals, List.Subset.trans (openNames_true_subset s.tokens) h.names⟩

theorem skip (h : s.Sees params found hidden) :
    s.skip.Sees params found s.next.kind.hidesName := by
  obtain ⟨params', tokens, locals, slot⟩ := s
  obtain ⟨hslots, rfl, rfl, hnames⟩ := h
  cases tokens with
  | nil => exact ⟨hslots, rfl, rfl, by simp [ParserState.skip, openNames]⟩
  | cons t rest =>
    obtain ⟨kind, place, newline⟩ := t
    cases kind with
    | finish => exact ⟨hslots, rfl, rfl, hnames⟩
    | name n =>
      refine ⟨hslots, rfl, rfl, ?_⟩
      cases hidden with
      | true => exact hnames
      | false => exact (List.cons_subset.1 hnames).2
    | number x => exact ⟨hslots, rfl, rfl, hnames⟩
    | string x => exact ⟨hslots, rfl, rfl, hnames⟩
    | symbol symbol => exact ⟨hslots, rfl, rfl, hnames⟩

/-- A name that comes next and is not hidden is open. -/
theorem mem_found (h : s.Sees params found false) {name : String}
    (hname : s.next.kind = .name name) : name ∈ found := by
  obtain ⟨params', tokens, locals, slot⟩ := s
  obtain ⟨-, rfl, rfl, hnames⟩ := h
  cases tokens with
  | nil => cases hname
  | cons t rest =>
    obtain ⟨kind, place, newline⟩ := t
    obtain rfl : kind = .name name := hname
    exact (List.cons_subset.1 hnames).1

end ParserState.Sees

/-- A part that refers to no variable, or to a parameter whose name is among `found`. -/
def Resolved (params found : List String) : Expr → Prop
  | .param slot name =>
    name ∈ found ∧ isReserved name = false ∧ lastPosition? params name = some slot
  | .declared .. => False
  | _ => True

/-- A name is resolved to one part, which is no declared variable if there are none. -/
theorem all_resolve {params found : List String} {s : ParserState} {name : String}
    (hparams : s.params = params) (hlocals : s.locals = []) (hname : name ∈ found)
    (hreserved : isReserved name = false) : (s.resolve name).All (Resolved params found) := by
  unfold ParserState.resolve
  rw [hlocals, List.find?_nil]
  dsimp only
  split
  · next slot hslot => exact all_param.2 ⟨hname, hreserved, hparams ▸ hslot⟩
  · split
    · exact all_literal.2 trivial
    · split
      · exact all_global.2 trivial
      · exact all_unbound.2 trivial

section Taking

variable {params found : List String} {hidden : Bool}

theorem Meets.advanceSees :
    Meets (ParserState.Sees params found hidden) Syntax.advance fun _ s =>
      s.Sees params found true :=
  Meets.post .advance fun _ _ ⟨_, hr, _, heq⟩ => heq ▸ hr.skip.hide

/-- Takes a token that has been looked at and hides no name. -/
theorem Meets.advancePast {t : Token} (ht : t.kind.hidesName = false) :
    Meets (fun s => t = s.next ∧ s.Sees params found hidden) Syntax.advance fun _ s =>
      s.Sees params found false := by
  refine Meets.post .advance fun _ s ⟨r, ⟨heq, hr⟩, _, hs⟩ => ?_
  subst heq hs
  exact ht ▸ hr.skip

theorem hidesName_of_isSymbol {kind : TokenKind} {symbol : Symbol}
    (h : kind.isSymbol symbol = true) (hdot : symbol ≠ .dot) : kind.hidesName = false := by
  cases kind with
  | symbol other =>
    obtain rfl : other = symbol := by simpa [TokenKind.isSymbol] using h
    cases other <;> first | rfl | exact absurd rfl hdot
  | number x => cases h
  | string x => cases h
  | name x => cases h
  | finish => cases h

theorem Meets.eatSees {symbol : Symbol} (hdot : symbol ≠ .dot) :
    Meets (ParserState.Sees params found hidden) (Syntax.eat symbol) fun b s =>
      s.Sees params found (bif b then false else hidden) := by
  refine Meets.post .eat fun b s h => ?_
  cases b with
  | true =>
    obtain ⟨r, hr, hsymbol, rfl⟩ := h
    exact hidesName_of_isSymbol hsymbol hdot ▸ hr.skip
  | false => exact h

theorem Meets.expectSees {symbol : Symbol} (hdot : symbol ≠ .dot) :
    Meets (ParserState.Sees params found hidden) (Syntax.expect symbol) fun _ s =>
      s.Sees params found false := by
  refine Meets.post .expect fun _ s h => ?_
  obtain ⟨r, hr, hsymbol, rfl⟩ := h
  exact hidesName_of_isSymbol hsymbol hdot ▸ hr.skip

end Taking

/-! ### Grammars -/

variable {params found : List String}

/-- A parser that starts where a name can be looked up, and gives something with a property. -/
def Reads (params found : List String) {α : Type} (p : Parser α) (F : α → Prop) : Prop :=
  Meets (ParserState.Sees params found false) p fun x s => F x ∧ s.Sees params found true

/-- A parser that goes on after an expression. -/
def GoesOn (params found : List String) {α : Type} (p : Parser α) (F : α → Prop) : Prop :=
  Meets (ParserState.Sees params found true) p fun x s => F x ∧ s.Sees params found true

/-- The parsers of expressions of a grammar give expressions whose parts are resolved. -/
structure Grammar.Resolves (params found : List String) (g : Grammar) : Prop where
  assignment : Reads params found g.assignment fun e => e.All (Resolved params found)
  unary : Reads params found g.unary fun e => e.All (Resolved params found)
  power : Reads params found g.power fun e => e.All (Resolved params found)
  operand (tier : Nat) : Reads params found (g.operand tier) fun e => e.All (Resolved params found)
  chain (tier : Nat) (left : Expr) (hleft : left.All (Resolved params found)) :
    GoesOn params found (g.chain tier left) fun e => e.All (Resolved params found)
  link (optional : Bool) (e : Expr) (he : e.All (Resolved params found)) :
    GoesOn params found (g.link optional e) fun e => e.All (Resolved params found)

theorem resolves_exhausted : Grammar.exhausted.Resolves params found where
  assignment := meets_faultHere _
  unary := meets_faultHere _
  power := meets_faultHere _
  operand _ := meets_faultHere _
  chain _ _ _ := meets_faultHere _
  link _ _ _ := meets_faultHere _

theorem Meets.propertyName {hidden : Bool} :
    Meets (ParserState.Sees params found hidden) Syntax.propertyName fun _ s =>
      s.Sees params found true := by
  refine Meets.bind .advanceSees fun token => ?_
  split
  · exact .pure fun _ h => h
  · exact meets_faultAt _ _

namespace Grammar.Resolves

variable {g : Grammar} (hg : g.Resolves params found)

/-! #### Primary expressions -/

theorem resolve {name : String} (hname : name ∈ found) (hreserved : isReserved name = false)
    {hidden : Bool} :
    Meets (ParserState.Sees params found hidden) (Syntax.resolve name) fun e s =>
      e.All (Resolved params found) ∧ s.Sees params found hidden :=
  Meets.bind .get fun _ => .pure fun _ ⟨heq, hs⟩ =>
    ⟨all_resolve (heq ▸ hs.params) (heq ▸ hs.locals) hname hreserved, hs⟩

theorem word {name : String} (hname : name ∈ found) (place : List Char) :
    Meets (ParserState.Sees params found false) (Grammar.word place name) fun e s =>
      e.All (Resolved params found) ∧ s.Sees params found true := by
  unfold Grammar.word
  split
  · exact .pure fun _ hs => ⟨all_literal.2 trivial, hs.hide⟩
  · exact .pure fun _ hs => ⟨all_literal.2 trivial, hs.hide⟩
  · exact .pure fun _ hs => ⟨all_literal.2 trivial, hs.hide⟩
  · split
    · exact meets_faultAt _ _
    · next hreserved =>
      exact Meets.post (resolve hname (Bool.eq_false_iff.2 hreserved)) fun _ _ h => ⟨h.1, h.2.hide⟩

/-- The first token of an operand or a property: if it is a name, it is open. -/
theorem first : Meets (ParserState.Sees params found false) Syntax.advance fun t s =>
    (∀ name, t.kind = .name name → name ∈ found) ∧ s.Sees params found t.kind.hidesName :=
  Meets.post .advance fun _ _ ⟨_, hr, ht, hs⟩ =>
    ⟨fun _ hname => hr.mem_found (ht ▸ hname), by subst ht hs; exact hr.skip⟩

include hg

theorem arrayLiteral :
    Reads params found g.arrayLiteral fun e => e.All (Resolved params found) := by
  refine Meets.bind (Meets.fueled fun fuel => Meets.arrayItems (fun s hs => hs.hide)
    (fun s hs hcomma => hidesName_of_isSymbol hcomma (by decide) ▸ hs.skip) hg.assignment
    (all_literal.2 trivial) fuel) fun items => Meets.given fun hitems => ?_
  exact Meets.bind (.expectSees (by decide)) fun _ => .pure fun _ hs =>
    ⟨all_array.2 ⟨trivial, hitems⟩, hs.hide⟩

theorem propertyValue {hidden : Bool} :
    Meets (ParserState.Sees params found hidden) g.propertyValue fun e s =>
      e.All (Resolved params found) ∧ s.Sees params found true :=
  Meets.bind (.expectSees (by decide)) fun _ => hg.assignment

theorem property : Reads params found g.property fun p => p.2.All (Resolved params found) := by
  have hvalue : ∀ (key : String) {hidden : Bool},
      Meets (ParserState.Sees params found hidden) (do return (key, ← g.propertyValue))
        fun p s => p.2.All (Resolved params found) ∧ s.Sees params found true := fun key _ =>
    Meets.bind hg.propertyValue fun e => .pure fun _ h => h
  refine Meets.bind first fun token => Meets.given fun hname => ?_
  split
  · next key hkey =>
    have hshort : isReserved key = false → ∀ {hidden : Bool},
        Meets (ParserState.Sees params found hidden) (do return (key, ← Syntax.resolve key))
          fun p s => p.2.All (Resolved params found) ∧ s.Sees params found true := fun h _ =>
      Meets.bind (resolve (hname key hkey) h) fun e => .pure fun _ h => ⟨h.1, h.2.hide⟩
    refine Meets.bind .atSymbol fun b => Meets.pre ?_ fun _ hs => hs.2
    split
    · exact hvalue key
    · dsimp only
      split
      · exact Meets.bind (meets_faultAt _ _ : Meets _ _ fun _ _ => False) fun _ _ _ _ h => h.elim
      · next hreserved => exact hshort (Bool.eq_false_iff.2 hreserved)
  · exact hvalue _
  · exact hvalue _
  · exact meets_faultAt _ _

theorem objectLiteral :
    Reads params found g.objectLiteral fun e => e.All (Resolved params found) := by
  refine Meets.bind (Meets.fueled fun fuel => Meets.commaSeparated (fun s hs => hs.hide)
    (fun s hs hcomma => hidesName_of_isSymbol hcomma (by decide) ▸ hs.skip) hg.property fuel)
    fun properties => Meets.given fun hproperties => ?_
  exact Meets.bind (.expectSees (by decide)) fun _ => .pure fun _ hs =>
    ⟨all_object.2 ⟨trivial, hproperties⟩, hs.hide⟩

theorem primary : Reads params found g.primary fun e => e.All (Resolved params found) := by
  refine Meets.bind first fun token => Meets.given fun hname => ?_
  split
  · exact .pure fun _ hs => ⟨all_literal.2 trivial, hs.hide⟩
  · exact .pure fun _ hs => ⟨all_literal.2 trivial, hs.hide⟩
  · next name hkind =>
    rw [hkind]
    exact word (hname name hkind) _
  · next hkind =>
    rw [hkind]
    refine Meets.bind hg.assignment fun e => Meets.given fun he => ?_
    exact Meets.bind (.expectSees (by decide)) fun _ => .pure fun _ hs => ⟨he, hs.hide⟩
  · next hkind =>
    rw [hkind]
    exact hg.arrayLiteral
  · next hkind =>
    rw [hkind]
    exact hg.objectLiteral
  · exact meets_faultAt _ _

/-! #### Chains of members and calls -/

theorem arguments {hidden : Bool} :
    Meets (ParserState.Sees params found hidden) g.arguments fun args s =>
      (∀ e ∈ args, e.All (Resolved params found)) ∧ s.Sees params found true := by
  refine Meets.bind (.expectSees (by decide)) fun _ => ?_
  refine Meets.bind (Meets.fueled fun fuel => Meets.commaSeparated (fun s hs => hs.hide)
    (fun s hs hcomma => hidesName_of_isSymbol hcomma (by decide) ▸ hs.skip) hg.assignment fuel)
    fun args => Meets.given fun hargs => ?_
  exact Meets.bind (.expectSees (by decide)) fun _ => .pure fun _ hs => ⟨hargs, hs.hide⟩

theorem bracketed : Reads params found g.bracketed fun e => e.All (Resolved params found) :=
  Meets.bind hg.assignment fun _ => Meets.given fun hkey =>
    Meets.bind (.expectSees (by decide)) fun _ => .pure fun _ hs => ⟨hkey, hs.hide⟩

section Links

variable {e : Expr} (he : e.All (Resolved params found))

include he

theorem optionalLink {hidden : Bool} :
    Meets (ParserState.Sees params found hidden) (g.optionalLink e) fun e s =>
      e.All (Resolved params found) ∧ s.Sees params found true := by
  refine Meets.bind .peek fun token => ?_
  split
  · exact Meets.bind (hg.arguments.pre fun _ hs => hs.2) fun args => .pure fun _ h =>
      ⟨all_call.2 ⟨trivial, he, h.1⟩, h.2⟩
  · next hkind =>
    refine Meets.bind (.advancePast (hkind ▸ rfl)) fun _ => ?_
    exact Meets.bind hg.bracketed fun key => .pure fun _ h => ⟨all_index.2 ⟨trivial, he, h.1⟩, h.2⟩
  · exact Meets.bind (Meets.propertyName.pre fun _ hs => hs.2) fun name => .pure fun _ hs =>
      ⟨all_member.2 ⟨trivial, he⟩, hs⟩

theorem links (optional : Bool) :
    GoesOn params found (g.links optional e) fun e => e.All (Resolved params found) := by
  refine Meets.bind .peek fun token => Meets.pre ?_ fun _ hs => hs.2
  split
  · exact hg.link optional e he
  · refine .pure fun _ hs => ⟨?_, hs⟩
    split
    · exact all_optionalChain.2 ⟨trivial, he⟩
    · exact he

theorem linkHere (optional : Bool) :
    GoesOn params found (g.linkHere optional e) fun e => e.All (Resolved params found) := by
  refine Meets.bind .peek fun token => ?_
  split
  · refine Meets.bind (Meets.advanceSees.pre fun _ hs => hs.2) fun _ => ?_
    exact Meets.bind .propertyName fun name => hg.links (all_member.2 ⟨trivial, he⟩) optional
  · next hkind =>
    refine Meets.bind (.advancePast (hkind ▸ rfl)) fun _ => ?_
    exact Meets.bind (hg.optionalLink he) fun e => Meets.given fun he => hg.links he true
  · next hkind =>
    refine Meets.bind (.advancePast (hkind ▸ rfl)) fun _ => ?_
    exact Meets.bind hg.bracketed fun key => Meets.given fun hkey =>
      hg.links (all_index.2 ⟨trivial, he, hkey⟩) optional
  · exact Meets.bind (hg.arguments.pre fun _ hs => hs.2) fun args => Meets.given fun hargs =>
      hg.links (all_call.2 ⟨trivial, he, hargs⟩) optional

end Links

theorem callMember : Reads params found g.callMember fun e => e.All (Resolved params found) :=
  Meets.bind hg.primary fun _ => Meets.given fun he => hg.links he false

/-! #### Operators -/

theorem postfixed : Reads params found g.postfixed fun e => e.All (Resolved params found) := by
  refine Meets.bind hg.callMember fun e => Meets.given fun he => ?_
  refine Meets.bind .peek fun token => Meets.pre ?_ fun _ hs => hs.2
  split
  · exact .pure fun _ hs => ⟨he, hs⟩
  · split
    · exact .pure fun _ hs => ⟨he, hs⟩
    · refine Meets.bind (.checkAssignable e token.place) fun _ => ?_
      exact Meets.bind .advanceSees fun _ => .pure fun _ hs => ⟨all_update.2 ⟨trivial, he⟩, hs⟩

theorem unaryHere : Reads params found g.unaryHere fun e => e.All (Resolved params found) := by
  refine Meets.bind .peek fun token => ?_
  split
  · next op hop =>
    refine Meets.bind (.advancePast ?_) fun _ => ?_
    · unfold updateOpOf? at hop
      split at hop <;> simp_all [TokenKind.hidesName]
    · refine Meets.bind hg.unary fun target => Meets.given fun htarget => ?_
      exact Meets.bind (.checkAssignable target token.place) fun _ => .pure fun _ hs =>
        ⟨all_update.2 ⟨trivial, htarget⟩, hs⟩
  · split
    · next op hop =>
      refine Meets.bind (.advancePast ?_) fun _ => ?_
      · unfold unaryOpOf? at hop
        split at hop <;> simp_all [TokenKind.hidesName]
      · exact Meets.bind hg.unary fun operand => .pure fun _ h =>
          ⟨all_unary.2 ⟨trivial, h.1⟩, h.2⟩
    · exact hg.postfixed.pre fun _ hs => hs.2

theorem exponent : Reads params found g.exponent fun e => e.All (Resolved params found) := by
  refine Meets.bind hg.unary fun base => Meets.given fun hbase => ?_
  refine Meets.bind .atSymbol fun b => ?_
  split
  · next hb =>
    have hpower : Meets (fun s => s.next.kind.isSymbol .starStar = b ∧ s.Sees params found true)
        (do
          let _ ← advance
          return Expr.binary .pow base (← g.power)) fun e s =>
        e.All (Resolved params found) ∧ s.Sees params found true := by
      refine Meets.bind (R := fun _ s => s.Sees params found false) ?_ fun _ =>
        Meets.bind hg.power fun e => .pure fun _ h => ⟨all_binary.2 ⟨trivial, hbase, h.1⟩, h.2⟩
      refine Meets.post .advance fun _ s ⟨r, ⟨hsymbol, hr⟩, _, hs⟩ => ?_
      exact hs ▸ hidesName_of_isSymbol (hsymbol.trans hb) (by decide) ▸ hr.skip
    dsimp only
    split
    · exact Meets.bind (meets_faultHere _ : Meets _ _ fun _ _ => False) fun _ _ _ _ h => h.elim
    · exact hpower
  · exact .pure fun _ hs => ⟨hbase, hs.2⟩

omit hg in
theorem hidesName_of_jointOf? {tier : Nat} {kind : TokenKind} {joint : Joint}
    (h : jointOf? tier kind = some joint) : kind.hidesName = false := by
  have hdot : jointOf? tier (.symbol .dot) = none := by
    show (tierOperators tier).lookup .dot = none
    unfold tierOperators
    split <;> rfl
  cases kind with
  | symbol symbol => cases symbol <;> first | rfl | (rw [hdot] at h; cases h)
  | number x => cases h
  | string x => rfl
  | name x => rfl
  | finish => rfl

theorem chainHere (tier : Nat) {left : Expr} (hleft : left.All (Resolved params found)) :
    GoesOn params found (g.chainHere tier left) fun e => e.All (Resolved params found) := by
  refine Meets.bind .peek fun token => ?_
  split
  · exact .pure fun _ hs => ⟨hleft, hs.2⟩
  · next joint hjoint =>
    refine Meets.bind (.advancePast (hidesName_of_jointOf? hjoint)) fun _ => ?_
    refine Meets.bind (hg.operand tier) fun right => Meets.given fun hright => ?_
    refine hg.chain tier _ ?_
    cases joint with
    | binary op => exact all_binary.2 ⟨trivial, hleft, hright⟩
    | logical op => exact all_logical.2 ⟨trivial, hleft, hright⟩

theorem tiers (tier : Nat) :
    Reads params found (g.tiers tier) fun e => e.All (Resolved params found) := by
  induction tier with
  | zero => exact hg.exponent
  | succ tier ih => exact Meets.bind ih fun _ => Meets.given fun hleft => hg.chainHere tier hleft

theorem conditional : Reads params found g.conditional fun e => e.All (Resolved params found) := by
  refine Meets.bind (hg.tiers tierCount) fun test => Meets.given fun htest => ?_
  refine Meets.bind (.eatSees (by decide)) fun b => ?_
  cases b with
  | true =>
    refine Meets.bind hg.assignment fun consequent => Meets.given fun hconsequent => ?_
    refine Meets.bind (.expectSees (by decide)) fun _ => ?_
    exact Meets.bind hg.assignment fun alternate => .pure fun _ h =>
      ⟨all_conditional.2 ⟨trivial, htest, hconsequent, h.1⟩, h.2⟩
  | false => exact .pure fun _ hs => ⟨htest, hs⟩

theorem assignmentHere :
    Reads params found g.assignmentHere fun e => e.All (Resolved params found) := by
  refine Meets.bind hg.conditional fun target => Meets.given fun htarget => ?_
  refine Meets.bind .peek fun token => ?_
  split
  · exact .pure fun _ hs => ⟨htarget, hs.2⟩
  · next op hop =>
    refine Meets.bind (.checkAssignable target token.place) fun _ => ?_
    refine Meets.bind (.advancePast ?_) fun _ => ?_
    · unfold assignOpOf? at hop
      split at hop <;> simp_all [TokenKind.hidesName]
    · exact Meets.bind hg.assignment fun value => .pure fun _ h =>
        ⟨all_assign.2 ⟨trivial, htarget, h.1⟩, h.2⟩

/-- One more level gives expressions with resolved parts too. -/
theorem deeper : g.deeper.Resolves params found where
  assignment := hg.assignmentHere
  unary := hg.unaryHere
  power := hg.exponent
  operand := hg.tiers
  chain tier _ hleft := hg.chainHere tier hleft
  link optional _ he := hg.linkHere he optional

end Grammar.Resolves

/-- Every grammar gives expressions with resolved parts. -/
theorem resolves_grammar (levels : Nat) : (grammar levels).Resolves params found := by
  induction levels with
  | zero => exact resolves_exhausted
  | succ levels ih => exact ih.deeper

/-! ### Programs -/

theorem meets_wholeExpression (levels : Nat) :
    Meets (ParserState.Sees params found false) (wholeExpression levels) fun body s =>
      (∃ e, body = .expression e ∧ e.All (Resolved params found)) ∧ s.nextSlot = params.length := by
  refine Meets.bind (resolves_grammar levels).assignment fun e => Meets.given fun he => ?_
  refine Meets.bind .atFinish fun b => ?_
  dsimp only
  split
  · exact .pure fun _ hs => ⟨⟨e, rfl, he⟩, hs.slots⟩
  · exact Meets.bind (meets_unexpected : Meets _ _ fun _ _ => False) fun _ _ _ _ h => h.elim

/-- A text that parses as an expression gives an expression in which every variable is a parameter
with an open name, and no reserved word. -/
theorem resolved_of_parse {source : String} {program : Program}
    (h : parse source params .expression = .ok program) :
    ∃ tokens e, tokenize source = .ok tokens ∧ program.body = .expression e ∧
      program.slotCount = params.length ∧ e.All (Resolved params (openNames false tokens)) := by
  obtain ⟨tokens, finish, htokens, hrun, hslots⟩ := parse_eq_ok h
  obtain ⟨⟨e, hbody, he⟩, hnext⟩ := meets_wholeExpression maxNesting _ _ _
    ⟨rfl, rfl, rfl, List.Subset.refl _⟩ hrun
  exact ⟨tokens, e, htokens, hbody, hslots.trans hnext, he⟩

end LiveMarkup.Syntax
