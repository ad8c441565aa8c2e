import LiveMarkup.Proofs.Unparsing

/-!
# Parsing known tokens

What a parser does with a known list of tokens is followed step by step.  At every step it either
goes on as expected or finds the text nested too deeply; no other fault is allowed.  The places of
tokens do not matter, since only faults mention them.

## Main definitions

* `ParserState.Ahead` — the kinds of the tokens to come, all on one line.
* `Takes` — a parser takes tokens for a given result, or finds them nested too deeply.

## Main results

* `Takes.bind`, `Takes.pure`, `Takes.peek`, `Takes.advance` — one law for each way to build a
  parser.
* `Takes.eat`, `Takes.expect` — single symbols.
* `Takes.commaSeparated` — lists of items.
-/

namespace LiveMarkup.Syntax

variable {α β : Type}

/-- The kinds of the tokens to come; there are no line breaks, and no variables can be seen. -/
def ParserState.Ahead (params : List String) (kinds : List TokenKind) (s : ParserState) : Prop :=
  ∃ tokens, s = .start params tokens ∧ tokens.map Token.kind = kinds ∧
    ∀ t ∈ tokens, t.newlineBefore = false

namespace ParserState.Ahead

variable {params : List String} {kind : TokenKind} {kinds : List TokenKind} {s : ParserState}

/-- The next token has the kind that is expected, and stands on the same line. -/
theorem exists_next (h : s.Ahead params (kind :: kinds)) :
    ∃ place, s.next = ⟨kind, place, false⟩ := by
  obtain ⟨tokens, rfl, hmap, hunbroken⟩ := h
  obtain ⟨⟨kind, place, broken⟩, rest, rfl, rfl, -⟩ := List.map_eq_cons_iff.1 hmap
  obtain rfl : broken = false := hunbroken _ List.mem_cons_self
  exact ⟨place, rfl⟩

theorem skip (h : s.Ahead params (kind :: kinds)) (hkind : kind.isFinish = false) :
    s.skip.Ahead params kinds := by
  obtain ⟨tokens, rfl, hmap, hunbroken⟩ := h
  obtain ⟨t, rest, rfl, rfl, hrest⟩ := List.map_eq_cons_iff.1 hmap
  refine ⟨rest, ?_, hrest, fun u hu => hunbroken u (List.mem_cons_of_mem t hu)⟩
  unfold ParserState.skip ParserState.start
  dsimp only
  split
  · next heq =>
    rw [heq] at hkind
    cases hkind
  · rfl

end ParserState.Ahead

/-- There is a next token, and it is not the symbol. -/
def Avoids (symbol : Symbol) (kinds : List TokenKind) : Prop :=
  ∃ first more, kinds = first :: more ∧ first.isSymbol symbol = false

theorem Avoids.append {symbol : Symbol} {kinds : List TokenKind} (h : Avoids symbol kinds)
    (more : List TokenKind) : Avoids symbol (kinds ++ more) := by
  obtain ⟨first, kinds, rfl, hne⟩ := h
  exact ⟨first, kinds ++ more, rfl, hne⟩

theorem avoids_symbol {symbol other : Symbol} (h : other ≠ symbol) (kinds : List TokenKind) :
    Avoids symbol (.symbol other :: kinds) :=
  ⟨_, kinds, rfl, by simpa [TokenKind.isSymbol] using h⟩

/-- The parser takes tokens for `x` and leaves `rest`, or finds them nested too deeply. -/
def Takes (params : List String) (p : Parser α) (kinds : List TokenKind) (x : α)
    (rest : List TokenKind) : Prop :=
  ∀ s : ParserState, s.Ahead params kinds →
    (∃ t : ParserState, p.run s = .ok (x, t) ∧ t.Ahead params rest) ∨
      ∃ place, p.run s = .error (.nestedTooDeeply, place)

/-- The parser takes the tokens of an item, if a comma or a closing symbol comes next. -/
def TakesItem (params : List String) (close : Symbol) (item : Parser α) (tokens : List TokenKind)
    (x : α) : Prop :=
  ∀ symbol rest, symbol = .comma ∨ symbol = close →
    Takes params item (tokens ++ .symbol symbol :: rest) x (.symbol symbol :: rest)

namespace Takes

variable {params : List String} {p : Parser α} {k : α → Parser β} {x : α} {y : β}
  {kind : TokenKind} {kinds middle rest : List TokenKind} {symbol : Symbol}

/-! ### Building parsers -/

theorem pure : Takes params (Pure.pure x) kinds x kinds :=
  fun s hs => .inl ⟨s, rfl, hs⟩

theorem bind (h : Takes params p kinds x middle) (hk : Takes params (k x) middle y rest) :
    Takes params (p >>= k) kinds y rest := by
  intro s hs
  rw [StateT.run_bind]
  rcases h s hs with ⟨t, hrun, ht⟩ | ⟨place, hrun⟩
  · rw [hrun]
    exact hk t ht
  · rw [hrun]
    exact .inr ⟨place, rfl⟩

theorem map {f : α → β} (h : Takes params p kinds x rest) :
    Takes params (do return f (← p)) kinds (f x) rest :=
  h.bind .pure

/-- The nesting limit may be reached anywhere. -/
theorem nestedTooDeeply : Takes params (faultHere .nestedTooDeeply) kinds x rest :=
  fun s _ => .inr ⟨s.next.place, rfl⟩

/-! ### Tokens -/

/-- Looking at the next token. -/
theorem peek {k : Token → Parser β}
    (hk : ∀ place, Takes params (k ⟨kind, place, false⟩) (kind :: kinds) y rest) :
    Takes params (Syntax.peek >>= k) (kind :: kinds) y rest := by
  intro s hs
  obtain ⟨place, hnext⟩ := hs.exists_next
  have hrun : (Syntax.peek >>= k).run s = (k s.next).run s := rfl
  rw [hrun, hnext]
  exact hk place s hs

/-- Taking the next token. -/
theorem advance {k : Token → Parser β} (hkind : kind.isFinish = false)
    (hk : ∀ place, Takes params (k ⟨kind, place, false⟩) kinds y rest) :
    Takes params (Syntax.advance >>= k) (kind :: kinds) y rest := by
  intro s hs
  obtain ⟨place, hnext⟩ := hs.exists_next
  have hrun : (Syntax.advance >>= k).run s = (k s.next).run s.skip := rfl
  rw [hrun, hnext]
  exact hk place s.skip (hs.skip hkind)

/-- Taking the next token, whatever it is for. -/
theorem skip {p : Parser β} (hkind : kind.isFinish = false) (h : Takes params p kinds y rest) :
    Takes params (do let _ ← Syntax.advance; p) (kind :: kinds) y rest :=
  advance hkind fun _ => h

theorem atSymbol :
    Takes params (Syntax.atSymbol symbol) (kind :: kinds) (kind.isSymbol symbol) (kind :: kinds) :=
  peek fun _ => pure

theorem atFinish :
    Takes params Syntax.atFinish (kind :: kinds) kind.isFinish (kind :: kinds) :=
  peek fun _ => pure

theorem not_atSymbol (h : Avoids symbol kinds) :
    Takes params (Syntax.atSymbol symbol) kinds false kinds := by
  obtain ⟨first, more, rfl, hne⟩ := h
  exact hne ▸ atSymbol

theorem isSymbol_self (symbol : Symbol) : (TokenKind.symbol symbol).isSymbol symbol = true := by
  simp [TokenKind.isSymbol]

theorem eat : Takes params (Syntax.eat symbol) (.symbol symbol :: kinds) true kinds := by
  refine bind atSymbol ?_
  rw [isSymbol_self]
  exact skip rfl pure

theorem not_eat (h : Avoids symbol kinds) : Takes params (Syntax.eat symbol) kinds false kinds :=
  bind (not_atSymbol h) pure

theorem expect : Takes params (Syntax.expect symbol) (.symbol symbol :: kinds) () kinds :=
  bind eat pure

/-- With as much fuel as there are tokens. -/
theorem fueled {p : Nat → Parser α} (h : Takes params (p kinds.length) kinds x rest) :
    Takes params (Syntax.fueled p) kinds x rest := by
  intro s hs
  have hlength : s.tokens.length = kinds.length := by
    obtain ⟨tokens, rfl, rfl, -⟩ := hs
    exact (List.length_map Token.kind).symm
  have hrun := h s hs
  rw [← hlength] at hrun
  exact hrun

/-! ### Names -/

theorem resolve (name : String) :
    Takes params (Syntax.resolve name) kinds ((ParserState.start params []).resolve name)
      kinds := by
  rintro s ⟨tokens, rfl, hs⟩
  exact .inl ⟨_, rfl, tokens, rfl, hs⟩

theorem propertyName {name : String} :
    Takes params Syntax.propertyName (.name name :: kinds) name kinds :=
  advance rfl fun _ => pure

/-- No variables can be seen, so no target is a constant. -/
theorem checkAssignable {target : Expr} (h : target.isAssignable = true) (place : List Char) :
    Takes params (Syntax.checkAssignable target place) kinds () kinds := by
  rintro s ⟨tokens, rfl, hs⟩
  refine .inl ⟨.start params tokens, ?_, tokens, rfl, hs⟩
  unfold Syntax.checkAssignable
  rw [h]
  cases target <;> rfl

/-! ### Lists -/

section Lists

variable {item : Parser α} {write : α → List TokenKind} {items : List α} {close : Symbol}

/-- Items are read one by one up to the closing symbol. -/
theorem commaSeparated (hclose : close ≠ .comma)
    (hitem : ∀ x ∈ items, TakesItem params close item (write x) x)
    (hfirst : ∀ x ∈ items, Avoids close (write x)) {fuel : Nat} (hfuel : items.length < fuel) :
    Takes params (Syntax.commaSeparated close item fuel)
      (commaSeparatedTokens (items.map write) ++ .symbol close :: rest) items
      (.symbol close :: rest) := by
  -- the parser goes by its fuel, so the induction does, with ever fewer items
  induction fuel generalizing items with
  | zero => exact absurd hfuel (Nat.not_lt_zero _)
  | succ fuel ih =>
    cases items with
    | nil =>
      refine bind atSymbol ?_
      rw [isSymbol_self]
      exact pure
    | cons x items =>
      obtain ⟨hx, hitems⟩ := List.forall_mem_cons.1 hitem
      obtain ⟨hstart, hfirst⟩ := List.forall_mem_cons.1 hfirst
      cases items with
      | nil =>
        have htokens : commaSeparatedTokens ([x].map write) = write x := by
          simp [commaSeparatedTokens]
        rw [htokens]
        refine bind (not_atSymbol (hstart.append _)) (bind (hx close rest (.inr rfl)) ?_)
        exact bind (not_eat (avoids_symbol hclose rest)) pure
      | cons y items =>
        have htokens : commaSeparatedTokens ((x :: y :: items).map write) ++ .symbol close :: rest =
            write x ++ .symbol .comma ::
              (commaSeparatedTokens ((y :: items).map write) ++ .symbol close :: rest) := by
          simp [commaSeparatedTokens]
        rw [htokens]
        refine bind (not_atSymbol (hstart.append _)) (bind (hx .comma _ (.inl rfl)) ?_)
        exact bind eat (map (ih hitems hfirst (Nat.lt_of_succ_lt_succ hfuel)))

/-- Every item has a token, so the tokens are enough fuel. -/
theorem length_le_commaSeparatedTokens (h : ∀ x ∈ items, Avoids close (write x)) :
    items.length ≤ (commaSeparatedTokens (items.map write)).length := by
  unfold commaSeparatedTokens
  induction items with
  | nil => exact Nat.zero_le _
  | cons x items ih =>
    obtain ⟨⟨first, more, hwrite, -⟩, hitems⟩ := List.forall_mem_cons.1 h
    have hle := ih hitems
    cases items with
    | nil => simp [hwrite]
    | cons y items =>
      rw [List.map_cons, List.map_cons, List.intercalate_cons_cons]
      simp only [List.map_cons, List.length_cons, List.length_append, hwrite] at hle ⊢
      omega

theorem fueled_commaSeparated (hclose : close ≠ .comma)
    (hitem : ∀ x ∈ items, TakesItem params close item (write x) x)
    (hfirst : ∀ x ∈ items, Avoids close (write x)) :
    Takes params (Syntax.fueled (Syntax.commaSeparated close item))
      (commaSeparatedTokens (items.map write) ++ .symbol close :: rest) items
      (.symbol close :: rest) := by
  refine fueled (commaSeparated hclose hitem hfirst ?_)
  have hle := length_le_commaSeparatedTokens hfirst
  rw [List.length_append, List.length_cons]
  omega

end Lists

section Elements

variable {σ : Style} {item : Parser Expr} {items : List Expr}

theorem eq_undefined_of_leavesOut {e : Expr} (h : σ.leavesOut e = true) :
    e = .literal .undefined := by
  unfold Style.leavesOut at h
  split at h
  · rfl
  · cases h

theorem elementTokens_cons {tokens : List TokenKind} (h : tokens ≠ [])
    (more : List (List TokenKind)) :
    elementTokens (tokens :: more) =
      tokens ++ if more.isEmpty then [] else .symbol .comma :: elementTokens more := by
  cases tokens with
  | nil => exact absurd rfl h
  | cons first tokens => cases more <;> simp [elementTokens]

theorem length_elementsTokens (items : List Expr) :
    (elementsTokens σ items).length = items.length := by
  induction items with
  | nil => rfl
  | cons e items ih => rw [elementsTokens, List.length_cons, List.length_cons, ih]

/-- Array elements are read one by one, and a lone comma is an element left out. -/
theorem arrayItems
    (hitem : ∀ e ∈ items, σ.leavesOut e = false →
      TakesItem params .rightBracket item (e.tokens σ) e)
    (hfirst : ∀ e ∈ items, σ.leavesOut e = false →
      Avoids .rightBracket (e.tokens σ) ∧ Avoids .comma (e.tokens σ))
    {fuel : Nat} (hfuel : items.length < fuel) :
    Takes params (Syntax.arrayItems item fuel)
      (elementTokens (elementsTokens σ items) ++ .symbol .rightBracket :: rest) items
      (.symbol .rightBracket :: rest) := by
  induction fuel generalizing items with
  | zero => exact absurd hfuel (Nat.not_lt_zero _)
  | succ fuel ih =>
    cases items with
    | nil => exact bind atSymbol pure
    | cons e items =>
      obtain ⟨he, hitems⟩ := List.forall_mem_cons.1 hitem
      obtain ⟨hstart, hfirst⟩ := List.forall_mem_cons.1 hfirst
      have hmore := ih hitems hfirst (Nat.lt_of_succ_lt_succ hfuel)
      rw [elementsTokens]
      cases hout : σ.leavesOut e with
      | true =>
        -- only the comma is there; the parser fills in the element
        obtain rfl := eq_undefined_of_leavesOut hout
        exact bind (not_atSymbol (avoids_symbol (by decide) _)) (bind eat (map hmore))
      | false =>
        -- the parser looks for the end and for an element left out before it reads an element
        have hread := he hout
        obtain ⟨hbracket, hcomma⟩ := hstart hout
        have hne : e.tokens σ ≠ [] := by
          obtain ⟨first, more, heq, -⟩ := hcomma
          simp [heq]
        rw [if_neg Bool.false_ne_true, elementTokens_cons hne]
        cases items with
        | nil =>
          rw [elementsTokens, if_pos List.isEmpty_nil, List.append_nil]
          refine bind (not_atSymbol (hbracket.append _)) (bind (not_eat (hcomma.append _)) ?_)
          refine bind (hread .rightBracket rest (.inr rfl)) ?_
          exact bind (not_eat (avoids_symbol (by decide) rest)) pure
        | cons d items =>
          rw [if_neg (by simp [elementsTokens]), List.append_assoc, List.cons_append]
          refine bind (not_atSymbol (hbracket.append _)) (bind (not_eat (hcomma.append _)) ?_)
          exact bind (hread .comma _ (.inl rfl)) (bind eat (map hmore))

/-- Every element has a token or a comma, so the tokens are enough fuel. -/
theorem length_le_elementTokens (tokens : List (List TokenKind)) :
    tokens.length ≤ (elementTokens tokens).length := by
  fun_induction elementTokens tokens with
  | case1 => exact Nat.le_refl _
  | case2 rest ih => simpa using ih
  | case3 item hne =>
    exact List.length_pos_iff.2 hne
  | case4 item rest _ _ ih =>
    rw [List.length_append, List.length_cons, List.length_cons]
    omega

theorem fueled_arrayItems
    (hitem : ∀ e ∈ items, σ.leavesOut e = false →
      TakesItem params .rightBracket item (e.tokens σ) e)
    (hfirst : ∀ e ∈ items, σ.leavesOut e = false →
      Avoids .rightBracket (e.tokens σ) ∧ Avoids .comma (e.tokens σ)) :
    Takes params (Syntax.fueled (Syntax.arrayItems item))
      (elementTokens (elementsTokens σ items) ++ .symbol .rightBracket :: rest) items
      (.symbol .rightBracket :: rest) := by
  refine fueled (arrayItems hitem hfirst ?_)
  have hle := length_le_elementTokens (elementsTokens σ items)
  rw [length_elementsTokens] at hle
  rw [List.length_append, List.length_cons]
  omega

end Elements

end Takes

end LiveMarkup.Syntax
