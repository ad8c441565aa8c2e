import LiveMarkup.Proofs.Scoping
import LiveMarkup.Proofs.SlotHistory

/-!
# Which variables a text declares

A tree has the slots of variables, but it does not say which of them are constants, and what could
be seen at a fault is lost with the state of the parser.  Parsers with a register keep both: they go
the same way as the parsers of statements, note every variable when it is declared, and give what
can be seen along with a fault.

Variables get their slots one after another, after the parameters, and the register has them in
that order.  What a text assigns to is a parameter, or a variable in the register that is no
constant.  A target is refused as a constant only where a constant is seen under its name.

## Main definitions

* `Register`, `Registrar` — parsers that keep a register.
* `Registrar.wholeText` — the parser of a whole text, with a register.
* `Register.Sound` — a register that fits the state of the parser.
* `Stmt.Frees` — statements that assign to no constant.
* `Registers` — a parser, and the same parser with a register.

## Main results

* `registers_statement` — the parsers of statements of every grammar.
* `registers_wholeText` — the parser of a whole text.
-/

namespace LiveMarkup.Syntax

/-! ### How statements begin -/

/-- The kinds of statements that are told apart by the token they begin with. -/
inductive Opening
  | block | conditional | returns | declaration | expression

/-- The kind of statement that begins with a token. -/
def TokenKind.opening : TokenKind → Opening
  | .symbol .leftBrace => .block
  | .name "if" => .conditional
  | .name "return" => .returns
  | .name "let" | .name "const" | .name "var" => .declaration
  | _ => .expression

theorem statementHere_eq (inner : Grammar) : inner.statementHere = (do
    if ← eat .semicolon then return .empty
    match (← peek).kind.opening with
    | .block => inner.block
    | .conditional => inner.ifStatement
    | .returns => inner.returnStatement
    | .declaration => inner.declaration
    | .expression => inner.expressionStatement) := by
  refine bind_congr fun b => ?_
  split
  · rfl
  · refine bind_congr fun token => ?_
    generalize token.kind = kind
    split
    iterate 6 rfl
    next hblock hif hreturn hlet hconst hvar =>
      have hopening : kind.opening = .expression := by
        unfold TokenKind.opening
        split <;> first | rfl | simp_all
      rw [hopening]

/-! ### Parsers with a register -/

/-- The state of a parser with the variables that the text has declared so far, the first one
first. -/
structure Register where
  state : ParserState
  declared : List Local

/-- A parser that keeps a register.  With a fault come the variables that can be seen there. -/
abbrev Registrar := StateT Register (Except (Located × List Local))

namespace Registrar

variable {α : Type}

/-- A step that declares nothing. -/
def quiet (p : Parser α) : Registrar α := fun r =>
  match p.run r.state with
  | .ok (x, state) => .ok (x, { r with state })
  | .error e => .error (e, r.state.locals)

/-- A step that declares a variable. -/
def declaring (p : Parser α) : Registrar α := fun r =>
  match p.run r.state with
  | .ok (x, state) => .ok (x, ⟨state, r.declared ++ state.locals.take 1⟩)
  | .error e => .error (e, r.state.locals)

/-- Items up to a stop. -/
def itemsUntil (stop : Parser Bool) (item : Registrar α) : Nat → Registrar (List α)
  | 0 => return []
  | fuel + 1 => do
    if ← quiet stop then return []
    let x ← item
    return x :: (← itemsUntil stop item fuel)

/-- Items with commas between them. -/
def separatedByComma (item : Registrar α) : Nat → Registrar (List α)
  | 0 => return []
  | fuel + 1 => do
    let x ← item
    if ← quiet (eat .comma) then return x :: (← separatedByComma item fuel)
    return [x]

/-- Gives a list parser as much fuel as there are tokens. -/
def fueled (p : Nat → Registrar α) : Registrar α := do
  p (← get).state.tokens.length

section Statements

/-! The parsers below take the parsers of what is one level deeper. -/

variable (inner : Grammar) (nested : Registrar Stmt)

/-- A list of statements in braces. -/
def block : Registrar Stmt := do
  quiet (expect .leftBrace)
  let outside := (← get).state.locals
  let statements ← fueled (itemsUntil (atSymbol .rightBrace) do
    if ← quiet atFinish then quiet unexpected
    nested)
  quiet (expect .rightBrace)
  quiet (modify fun s => { s with locals := outside })
  return .block statements

/-- A choice between two statements. -/
def ifStatement : Registrar Stmt := do
  let _ ← quiet advance
  quiet (expect .leftParen)
  let test ← quiet inner.assignment
  quiet (expect .rightParen)
  let consequent ← nested
  if ← quiet (atWord "else") then
    let _ ← quiet advance
    return .conditional test consequent (some (← nested))
  return .conditional test consequent none

/-- A declaration of variables. -/
def declaration : Registrar Stmt := do
  let constant ← quiet (atWord "const")
  let _ ← quiet advance
  let declarators ← fueled (separatedByComma (declaring (inner.declarator constant)))
  quiet Grammar.terminator
  return .declare declarators

/-- A statement. -/
def statementHere : Registrar Stmt := do
  if ← quiet (eat .semicolon) then return .empty
  match (← quiet peek).kind.opening with
  | .block => block nested
  | .conditional => ifStatement inner nested
  | .returns => quiet inner.returnStatement
  | .declaration => declaration inner
  | .expression => quiet inner.expressionStatement

end Statements

/-- A statement, with so many levels left. -/
def statement : Nat → Registrar Stmt
  | 0 => quiet Grammar.exhausted.statement
  | levels + 1 => statementHere (grammar levels) (statement levels)

/-- Statements up to the end of the text. -/
def wholeText : Registrar Body := do
  return .statements (← fueled (itemsUntil atFinish (statement maxNesting)))

end Registrar

/-! ### Registers -/

/-- The register fits the state: the variables have the slots after the parameters, one after
another, the next slot is free, and the variables that can be seen are among those that have been
declared, the latest first. -/
structure Register.Sound (r : Register) : Prop where
  slots : r.declared.map Local.slot = List.range' r.state.params.length r.declared.length
  next : r.state.nextSlot = r.state.params.length + r.declared.length
  seen : r.state.locals.Sublist r.declared.reverse

/-- The second register has all of the first, and perhaps more after it. -/
def Register.Extends (r r' : Register) : Prop :=
  r.declared <+: r'.declared ∧ r'.state.params = r.state.params

/-- The slots that are given between two registers. -/
def Register.between (r r' : Register) : List Nat :=
  List.range' r.state.nextSlot (r'.state.nextSlot - r.state.nextSlot)

/-- The register before other tokens. -/
def Register.before (r : Register) (tokens : List Token) : Register :=
  { r with state := { r.state with tokens } }

namespace Register

variable {r r' r'' : Register}

theorem Sound.before (h : r.Sound) (tokens : List Token) : (r.before tokens).Sound :=
  ⟨h.slots, h.next, h.seen⟩

theorem Sound.nodup (h : r.Sound) : (r.declared.map Local.slot).Nodup :=
  h.slots ▸ List.nodup_range'

theorem Sound.distinct (h : r.Sound) : r.state.Distinct := by
  have hreverse : (r.declared.reverse.map Local.slot).Nodup :=
    List.map_reverse ▸ List.nodup_reverse.2 h.nodup
  exact hreverse.sublist (h.seen.map _)

/-- What can be seen has been declared. -/
theorem Sound.mem_of_visible {l : Local} {name : String} (h : r.Sound)
    (hl : visible? r.state.locals name = some l) : l ∈ r.declared :=
  List.mem_reverse.1 (h.seen.subset (List.mem_of_find?_eq_some hl))

theorem Sound.params_le {l : Local} (h : r.Sound) (hl : l ∈ r.declared) :
    r.state.params.length ≤ l.slot := by
  have hslot : l.slot ∈ r.declared.map Local.slot := List.mem_map_of_mem hl
  rw [h.slots, List.mem_range'_1] at hslot
  exact hslot.1

theorem Sound.slot_lt {l : Local} (h : r.Sound) (hl : l ∈ r.declared) :
    l.slot < r.state.nextSlot := by
  have hslot : l.slot ∈ r.declared.map Local.slot := List.mem_map_of_mem hl
  rw [h.slots, List.mem_range'_1] at hslot
  exact h.next ▸ hslot.2

theorem Extends.refl (r : Register) : r.Extends r := ⟨List.prefix_rfl, rfl⟩

theorem Extends.trans (h : r.Extends r') (h' : r'.Extends r'') : r.Extends r'' :=
  ⟨h.1.trans h'.1, h'.2.trans h.2⟩

theorem Extends.next_le (h : r.Extends r') (hr : r.Sound) (hr' : r'.Sound) :
    r.state.nextSlot ≤ r'.state.nextSlot := by
  rw [hr.next, hr'.next, h.2]
  exact Nat.add_le_add_left h.1.length_le _

theorem between_self (r : Register) : r.between r = [] := by
  rw [between, Nat.sub_self, List.range'_zero]

theorem between_append (h : r.Extends r') (h' : r'.Extends r'') (hr : r.Sound) (hr' : r'.Sound)
    (hr'' : r''.Sound) : r.between r' ++ r'.between r'' = r.between r'' := by
  have hle := h.next_le hr hr'
  have hle' := h'.next_le hr' hr''
  obtain ⟨m, hm⟩ := Nat.exists_eq_add_of_le hle
  obtain ⟨n, hn⟩ := Nat.exists_eq_add_of_le hle'
  unfold between
  rw [hn, hm, Nat.add_sub_cancel_left, Nat.add_sub_cancel_left, List.range'_append_1,
    Nat.add_assoc, Nat.add_sub_cancel_left]

end Register

/-! ### What is assigned to -/

/-- An expression with another target than a constant, if the given variables are all there are. -/
def Expr.Frees (known : List Local) : Expr → Prop
  | .assign _ target _ | .update _ _ target =>
    ∀ slot name, target = .declared slot name → ∃ l ∈ known, l.slot = slot ∧ l.constant = false
  | _ => True

/-- The expressions of a statement assign to no constant. -/
def Stmt.Frees (known : List Local) (s : Stmt) : Prop :=
  ∀ e ∈ s.expressions, e.All (Expr.Frees known)

variable {known known' : List Local}

theorem Expr.Frees.mono {e : Expr} (h : e.Frees known) (hsub : known ⊆ known') :
    e.Frees known' := by
  cases e with
  | assign op target value | update op result target =>
    intro slot name heq
    obtain ⟨l, hl, hslot⟩ := h slot name heq
    exact ⟨l, hsub hl, hslot⟩
  | _ => trivial

theorem Stmt.Frees.mono {s : Stmt} (h : s.All (Stmt.Frees known)) (hsub : known ⊆ known') :
    s.All (Stmt.Frees known') :=
  fun x hx e he y hy => (h x hx e he y hy).mono hsub

/-- What minds what can be seen assigns to no constant. -/
theorem Register.Sound.frees {r : Register} (h : r.Sound) {e : Expr}
    (he : e.All (Expr.Minds r.state.locals)) : e.All (Expr.Frees r.declared) := by
  intro x hx
  have hminds := he x hx
  cases x with
  | assign op target value | update op result target =>
    intro slot name heq
    obtain ⟨l, hl, hslot⟩ := hminds slot name heq
    exact ⟨l, h.mem_of_visible hl, hslot⟩
  | _ => trivial

/-! ### Runs and parsers -/

variable {α β : Type}

/-- Runs without and with a register: both fail with a fault that there may be where what comes with
it can be seen, or both give the same, and the register has all that it had. -/
inductive Follows (r : Register) (F : α → Register → Prop) :
    Except Located (α × ParserState) → Except (Located × List Local) (α × Register) → Prop
  | error {fault : SyntaxFault} {scope : List Local} (place : List Char) (h : fault.Fair scope) :
    Follows r F (.error (fault, place)) (.error ((fault, place), scope))
  | ok {x : α} {r' : Register} (hsound : r'.Sound) (hext : r.Extends r') (h : F x r') :
    Follows r F (.ok (x, r'.state)) (.ok (x, r'))

theorem Follows.of_before {r : Register} {tokens : List Token} {F : α → Register → Prop}
    {a : Except Located (α × ParserState)} {b : Except (Located × List Local) (α × Register)}
    (h : Follows (r.before tokens) F a b) : Follows r F a b := by
  cases h with
  | error place h => exact .error place h
  | ok hsound hext h => exact .ok hsound hext h

/-- From a register, a parser and the same parser with a register run alike. -/
def Registers (r : Register) (p : Parser α) (q : Registrar α) (F : α → Register → Prop) : Prop :=
  Follows r F (p.run r.state) (q.run r)

namespace Registers

variable {r : Register} {p : Parser α} {q : Registrar α} {k : α → Parser β} {l : α → Registrar β}
  {F : α → Register → Prop} {G : β → Register → Prop}

theorem pure {x : α} (hr : r.Sound) (hx : F x r) : Registers r (Pure.pure x) (Pure.pure x) F :=
  .ok hr (.refl r) hx

theorem post {F' : α → Register → Prop} (h : Registers r p q F) (hF : ∀ x r', F x r' → F' x r') :
    Registers r p q F' := by
  unfold Registers at h ⊢
  generalize p.run r.state = a, q.run r = b at h
  cases h with
  | error place h => exact .error place h
  | ok hsound hext h => exact .ok hsound hext (hF _ _ h)

theorem bind (hp : Registers r p q F)
    (hk : ∀ x r', r'.Sound → r.Extends r' → F x r' → Registers r' (k x) (l x) G) :
    Registers r (p >>= k) (q >>= l) G := by
  unfold Registers at hp ⊢
  rw [StateT.run_bind, StateT.run_bind]
  generalize p.run r.state = a, q.run r = b at hp
  cases hp with
  | error place h => exact .error place h
  | @ok x r' hsound hext h =>
    have hrest := hk x r' hsound hext h
    unfold Registers at hrest
    show Follows r G ((k x).run r'.state) ((l x).run r')
    generalize (k x).run r'.state = a, (l x).run r' = b at hrest
    cases hrest with
    | error place h => exact .error place h
    | ok hsound' hext' h' => exact .ok hsound' (hext.trans hext') h'

section Quiet

variable [Slotted α] {F : α → Prop}

/-- A parser that declares nothing leaves the register alone. -/
theorem quiet (hr : r.Sound) (hp : Alike id r.state r.state p p F) :
    Registers r p (Registrar.quiet p) fun x r' => F x ∧ ∃ tokens, r' = r.before tokens := by
  have hquiet : (Registrar.quiet p).run r = match p.run r.state with
      | .ok (x, state) => .ok (x, { r with state })
      | .error e => .error (e, r.state.locals) := rfl
  unfold Registers
  rw [hquiet]
  rcases hp.outcome with ⟨fault, place, hrun, hfair⟩ | ⟨x, tokens, hrun, hx⟩
  · rw [hrun]
    exact .error place hfair
  · rw [hrun]
    have hbefore : (r.before tokens).Sound := hr.before tokens
    exact Follows.ok hbefore (.refl r) ⟨hx, tokens, rfl⟩

theorem quietly (hr : r.Sound) (hp : Alike id r.state r.state p p F)
    (hk : ∀ x tokens, F x → (r.before tokens).Sound → Registers (r.before tokens) (k x) (l x) G) :
    Registers r (p >>= k) (Registrar.quiet p >>= l) G := by
  refine (quiet hr hp).bind ?_
  rintro x _ hr' - ⟨hx, tokens, rfl⟩
  exact hk x tokens hx hr'

/-- A declaration may begin with a parser that declares nothing. -/
theorem declaring (hr : r.Sound) (hp : Alike id r.state r.state p p F)
    (hk : ∀ x tokens, F x → (r.before tokens).Sound →
      Registers (r.before tokens) (k x) (Registrar.declaring (k x)) G) :
    Registers r (p >>= k) (Registrar.declaring (p >>= k)) G := by
  have hdeclaring {γ : Type} (p : Parser γ) (r : Register) : (Registrar.declaring p).run r =
      match p.run r.state with
      | .ok (x, state) => .ok (x, ⟨state, r.declared ++ state.locals.take 1⟩)
      | .error e => .error (e, r.state.locals) := rfl
  unfold Registers
  rw [hdeclaring, StateT.run_bind]
  rcases hp.outcome with ⟨fault, place, hrun, hfair⟩ | ⟨x, tokens, hrun, hx⟩
  · rw [hrun]
    exact .error place hfair
  · have hrest := hk x tokens hx (hr.before tokens)
    unfold Registers at hrest
    rw [hdeclaring] at hrest
    rw [hrun]
    exact hrest.of_before

end Quiet

theorem fueled {p : Nat → Parser α} {q : Nat → Registrar α}
    (h : ∀ fuel, Registers r (p fuel) (q fuel) F) :
    Registers r (Syntax.fueled p) (Registrar.fueled q) F :=
  h r.state.tokens.length

end Registers

/-! ### Statements -/

/-- A statement that is parsed between two registers: its variables have the slots that are given
there, and it assigns to no constant. -/
def Stmt.Registered (r : Register) (x : Stmt) (r' : Register) : Prop :=
  x.allSlots = r.between r' ∧ x.All (Stmt.Frees r'.declared)

/-- Statements that are parsed between two registers. -/
def StatementsRegistered (r : Register) (xs : List Stmt) (r' : Register) : Prop :=
  slotsOf xs = r.between r' ∧ ∀ x ∈ xs, x.All (Stmt.Frees r'.declared)

/-- Declarators that are parsed between two registers. -/
def DeclaratorsRegistered (r : Register) (ds : List (Nat × Option Expr)) (r' : Register) : Prop :=
  ds.map Prod.fst = r.between r' ∧ ∀ d ∈ ds, ∀ e ∈ d.2, e.All (Expr.Frees r'.declared)

/-- The parser with a register of a statement. -/
def RegistersStatement (p : Parser Stmt) (q : Registrar Stmt) : Prop :=
  ∀ r : Register, r.Sound → Registers r p q (Stmt.Registered r)

theorem Stmt.Minds.registered {r : Register} {x : Stmt} (hx : x.Minds r.state.locals)
    (hr : r.Sound) (tokens : List Token) : x.Registered r (r.before tokens) := by
  refine ⟨?_, fun y hy => ?_⟩
  · rw [Stmt.allSlots, hx.alone, List.flatMap_singleton, hx.silent]
    exact (r.between_self).symm
  · rw [hx.alone, List.mem_singleton] at hy
    subst hy
    exact fun e he => hr.frees (hx.expressions e he)

namespace Registers

variable {r : Register}

/-- A statement that declares nothing. -/
theorem simple {p : Parser Stmt} (hr : r.Sound)
    (hp : Alike id r.state r.state p p (Stmt.Minds r.state.locals)) :
    Registers r p (Registrar.quiet p) (Stmt.Registered r) := by
  refine (quiet hr hp).post ?_
  rintro x _ ⟨hx, tokens, rfl⟩
  exact hx.registered hr tokens

/-- Nothing has been parsed yet. -/
theorem nil_statements (hr : r.Sound) :
    Registers r (Pure.pure []) (Pure.pure []) (StatementsRegistered r) :=
  pure hr ⟨(r.between_self).symm, nofun⟩

variable {item : Parser Stmt} {item' : Registrar Stmt}

theorem itemsUntil {stop : Parser Bool}
    (hstop : ∀ s, Alike id s s stop stop fun _ => True) (hitem : RegistersStatement item item')
    (fuel : Nat) (hr : r.Sound) : Registers r (Syntax.itemsUntil stop item fuel)
      (Registrar.itemsUntil stop item' fuel) (StatementsRegistered r) := by
  induction fuel generalizing r with
  | zero => exact nil_statements hr
  | succ fuel ih =>
    refine quietly hr (hstop _) fun b tokens _ hr => ?_
    split
    · exact nil_statements hr
    · refine (hitem _ hr).bind fun x r' hr' hext hx => (ih hr').bind fun xs r'' hr'' hext' hxs => ?_
      refine pure hr'' ⟨?_, List.forall_mem_cons.2 ⟨Stmt.Frees.mono hx.2 hext'.1.subset, hxs.2⟩⟩
      rw [slotsOf_cons, hx.1, hxs.1]
      exact Register.between_append hext hext' hr hr' hr''

/-! #### Declarations -/

/-- The variable with the next slot comes next in the register. -/
theorem declare (hr : r.Sound) {constant : Bool} {d : String × Option Expr}
    (hd : ∀ e ∈ d.2, e.All (Expr.Minds r.state.locals)) :
    Registers r (Syntax.declare constant d) (Registrar.declaring (Syntax.declare constant d))
      fun x r' => DeclaratorsRegistered r [x] r' := by
  let l : Local := ⟨d.1, r.state.nextSlot, constant⟩
  let r' : Register :=
    ⟨{ r.state with nextSlot := r.state.nextSlot + 1, locals := l :: r.state.locals },
      r.declared ++ [l]⟩
  have hsound : r'.Sound := by
    constructor
    case slots =>
      show (r.declared ++ [l]).map Local.slot = List.range' _ (r.declared ++ [l]).length
      rw [List.map_append, hr.slots, List.length_append, List.length_singleton,
        List.range'_1_concat, List.map_singleton, ← hr.next]
    case next =>
      show r.state.nextSlot + 1 = _ + (r.declared ++ [l]).length
      rw [List.length_append, hr.next]
      rfl
    case seen =>
      show (l :: r.state.locals).Sublist (r.declared ++ [l]).reverse
      rw [List.reverse_append]
      exact hr.seen.cons_cons l
  refine Follows.ok hsound ⟨List.prefix_append _ _, rfl⟩ ⟨?_, ?_⟩
  · show [r.state.nextSlot] = List.range' r.state.nextSlot (r.state.nextSlot + 1 - r.state.nextSlot)
    rw [Nat.add_sub_cancel_left, List.range'_one]
  · refine List.forall_mem_singleton.2 fun e he x hx => ?_
    exact (hr.frees (hd e he) x hx).mono (List.subset_append_left _ _)

theorem declarator {levels : Nat} (constant : Bool) (hr : r.Sound) :
    Registers r ((grammar levels).declarator constant)
      (Registrar.declaring ((grammar levels).declarator constant))
      fun x r' => DeclaratorsRegistered r [x] r' := by
  have hsees := sees_grammar (.refl r.state) hr.distinct levels
  rw [declarator_eq]
  exact declaring hr (hsees.named constant) fun d tokens hd hr => declare hr hd

theorem separatedByComma {item : Parser (Nat × Option Expr)} {item' : Registrar (Nat × Option Expr)}
    (hitem : ∀ r : Register, r.Sound →
      Registers r item item' fun x r' => DeclaratorsRegistered r [x] r')
    (fuel : Nat) (hr : r.Sound) : Registers r (Syntax.separatedByComma item fuel)
      (Registrar.separatedByComma item' fuel) (DeclaratorsRegistered r) := by
  induction fuel generalizing r with
  | zero => exact pure hr ⟨(r.between_self).symm, nofun⟩
  | succ fuel ih =>
    refine (hitem r hr).bind fun x r' hr' hext hx =>
      quietly hr' (.eat .comma) fun b tokens _ hcomma => ?_
    split
    · refine (ih hcomma).bind fun xs r'' hr'' hext' hxs => pure hr'' ⟨?_, ?_⟩
      · show [x].map Prod.fst ++ xs.map Prod.fst = _
        rw [hx.1, hxs.1]
        exact Register.between_append hext hext' hr hr' hr''
      · refine List.forall_mem_cons.2 ⟨fun e he y hy => ?_, hxs.2⟩
        exact (hx.2 x (List.mem_singleton_self x) e he y hy).mono hext'.1.subset
    · exact pure hcomma hx

theorem declaration {levels : Nat} (hr : r.Sound) :
    Registers r (grammar levels).declaration (Registrar.declaration (grammar levels))
      (Stmt.Registered r) := by
  refine quietly hr (.atWord "const") fun constant _ _ hr => quietly hr .advance fun _ _ _ hr => ?_
  refine bind (fueled fun fuel => separatedByComma (fun r => declarator constant) fuel hr) ?_
  intro ds r' hr' _ hds
  refine quietly hr' .terminator fun _ _ _ hr' => pure hr' ⟨?_, Stmt.all_declare.2 fun e he => ?_⟩
  · rw [allSlots_declare]
    exact hds.1
  · obtain ⟨d, hd, hinit⟩ := List.mem_filterMap.1 he
    exact hds.2 d hd e hinit

/-! #### Statements with statements inside them -/

variable {p : Parser Stmt} {q : Registrar Stmt}

theorem seeing {k : ParserState → Parser Stmt} {l : Register → Registrar Stmt}
    {G : Stmt → Register → Prop} (h : Registers r (k r.state) (l r) G) :
    Registers r (get >>= k) (get >>= l) G :=
  h

/-- After a block can be seen what could be seen before it. -/
theorem restore {outside : List Local} (hr : r.Sound) (hseen : outside.Sublist r.declared.reverse)
    {x : Stmt} {G : Stmt → Register → Prop}
    (hx : G x { r with state := { r.state with locals := outside } }) :
    Registers r (do modify fun s => { s with locals := outside }; return x)
      (do Registrar.quiet (modify fun s => { s with locals := outside }); return x) G := by
  have hsound : Register.Sound { r with state := { r.state with locals := outside } } :=
    ⟨hr.slots, hr.next, hseen⟩
  exact Follows.ok hsound (.refl r) hx

theorem block {g : Grammar} (hinner : RegistersStatement g.statement q) :
    RegistersStatement g.block (Registrar.block q) := by
  have hitem : RegistersStatement (do
      if ← Syntax.atFinish then Syntax.unexpected
      g.statement) (do
      if ← Registrar.quiet Syntax.atFinish then Registrar.quiet Syntax.unexpected
      q) := by
    intro r hr
    refine quietly hr .atFinish fun b _ _ hr => ?_
    dsimp only
    split
    · exact quietly hr (.unexpected (F := fun _ => True)) fun _ _ _ hr => hinner _ hr
    · exact hinner _ hr
  intro r hr
  refine quietly hr (.expect .leftBrace) fun _ tokens _ hr => ?_
  -- what can be seen here is what can be seen after the block
  refine seeing ?_
  refine bind (fueled fun fuel => itemsUntil (fun _ => .atSymbol _) hitem fuel hr) ?_
  intro statements r' hr' hext hstatements
  refine quietly hr' (.expect .rightBrace) fun _ _ _ hr' => restore hr' ?_ ⟨?_, ?_⟩
  · exact hr.seen.trans (List.reverse_suffix.2 hext.1).sublist
  · rw [allSlots_block]
    exact hstatements.1
  · exact Stmt.all_block.2 ⟨nofun, hstatements.2⟩

theorem ifStatement {levels : Nat} (hinner : RegistersStatement (grammar levels).statement q) :
    RegistersStatement (grammar levels).ifStatement (Registrar.ifStatement (grammar levels) q) := by
  intro r hr
  refine quietly hr .advance fun _ _ _ hr => quietly hr (.expect .leftParen) fun _ _ _ hr => ?_
  have hsees := sees_grammar (.refl _) hr.distinct levels
  refine quietly hr hsees.assignment fun test _ htest hr => ?_
  have hfrees := hr.frees htest
  refine quietly hr (.expect .rightParen) fun _ _ _ hr => ?_
  refine (hinner _ hr).bind fun consequent r' hr' hext hconsequent => ?_
  refine quietly hr' (.atWord "else") fun b _ _ helse => ?_
  split
  · refine quietly helse .advance fun _ _ _ helse => ?_
    refine (hinner _ helse).bind fun alternate r'' hr'' hext' halternate => pure hr'' ⟨?_, ?_⟩
    · rw [allSlots_conditional, hconsequent.1, Option.toList_some, slotsOf_cons, halternate.1]
      exact (congrArg _ (List.append_nil _)).trans
        (Register.between_append hext hext' hr hr' hr'')
    · refine Stmt.all_conditional.2 ⟨?_, Stmt.Frees.mono hconsequent.2 hext'.1.subset, ?_⟩
      · refine List.forall_mem_singleton.2 fun y hy => (hfrees y hy).mono ?_
        exact (hext.trans hext').1.subset
      · rintro _ ⟨⟩
        exact halternate.2
  · refine pure helse ⟨?_, Stmt.all_conditional.2 ⟨?_, hconsequent.2, nofun⟩⟩
    · rw [allSlots_conditional, hconsequent.1]
      exact List.append_nil _
    · exact List.forall_mem_singleton.2 fun y hy => (hfrees y hy).mono hext.1.subset

theorem statementHere {levels : Nat} (hinner : RegistersStatement (grammar levels).statement q) :
    RegistersStatement (grammar levels).statementHere
      (Registrar.statementHere (grammar levels) q) := by
  intro r hr
  rw [statementHere_eq]
  refine quietly hr (.eat .semicolon) fun b tokens _ hr => ?_
  split
  · exact pure hr (Stmt.Minds.registered (x := .empty) ⟨rfl, rfl, nofun⟩ hr tokens)
  · refine quietly hr .peek fun token tokens _ hr => ?_
    have hsees := sees_grammar (.refl _) hr.distinct levels
    cases token.kind.opening with
    | block => exact block hinner _ hr
    | conditional => exact ifStatement hinner _ hr
    | returns => exact simple hr hsees.returnStatement
    | declaration => exact declaration hr
    | expression => exact simple hr hsees.expressionStatement

end Registers

/-- The parsers of statements of every grammar keep their registers. -/
theorem registers_statement (levels : Nat) :
    RegistersStatement (grammar levels).statement (Registrar.statement levels) := by
  induction levels with
  | zero => exact fun r hr => .simple hr (.faultHere trivial)
  | succ levels ih => exact .statementHere ih

/-- So does the parser of a whole text. -/
theorem registers_wholeText {r : Register} (hr : r.Sound) :
    Registers r (wholeText .statement) Registrar.wholeText fun body r' =>
      ∃ statements, body = .statements statements ∧ StatementsRegistered r statements r' := by
  have hitems (fuel : Nat) := Registers.itemsUntil (fun _ => .atFinish)
    (registers_statement maxNesting) fuel hr
  exact Registers.bind (.fueled hitems) fun statements r' hr' _ hstatements =>
    .pure hr' ⟨statements, rfl, hstatements⟩

end LiveMarkup.Syntax
