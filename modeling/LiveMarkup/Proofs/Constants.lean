import LiveMarkup.Proofs.Registers

/-!
# Constants

A constant is stored to once in a run at most, by its own declarator: no other variable has its
slot, and nothing that could assign to the slot gets past the parser, whatever names the text
declares again and wherever it stands.  So the slot of a constant keeps its value.

What the parser refuses as an assignment to a constant is one: in its place a constant is what is
seen under the name.

## Main definitions

* `registered` — the variables that a text declares, or its fault with what can be seen there.
* `Stmt.Leaves` — no expression in a statement changes a slot.
* `Code.Keeps` — a slot keeps the first value that is stored to it.

## Main results

* `spares_of_frees` — expressions that assign to no constant spare the slots of constants.
* `constants_never_change` — constants keep their values, and only constants are refused as such.
-/

namespace LiveMarkup

open Syntax Eval

/-! ### Parts of parts -/

namespace Syntax

section

variable {P : Expr → Prop}

mutual

/-- What holds of all parts of an expression holds of all parts of each of its parts. -/
theorem all_all (e : Expr) (h : e.All P) : e.All (Expr.All P) := by
  cases e with
  | literal l => exact all_literal.2 h
  | array items => exact all_array.2 ⟨h, all_all_items items (all_array.1 h).2⟩
  | object properties => exact all_object.2 ⟨h, all_all_properties properties (all_object.1 h).2⟩
  | param slot name => exact all_param.2 h
  | declared slot name => exact all_declared.2 h
  | global g => exact all_global.2 h
  | unbound name => exact all_unbound.2 h
  | member object property optional =>
    exact all_member.2 ⟨h, all_all object (all_member.1 h).2⟩
  | index object key optional =>
    obtain ⟨-, hobject, hkey⟩ := all_index.1 h
    exact all_index.2 ⟨h, all_all object hobject, all_all key hkey⟩
  | call callee args optional =>
    obtain ⟨-, hcallee, hargs⟩ := all_call.1 h
    exact all_call.2 ⟨h, all_all callee hcallee, all_all_items args hargs⟩
  | optionalChain chain => exact all_optionalChain.2 ⟨h, all_all chain (all_optionalChain.1 h).2⟩
  | unary op operand => exact all_unary.2 ⟨h, all_all operand (all_unary.1 h).2⟩
  | binary op left right =>
    obtain ⟨-, hleft, hright⟩ := all_binary.1 h
    exact all_binary.2 ⟨h, all_all left hleft, all_all right hright⟩
  | logical op left right =>
    obtain ⟨-, hleft, hright⟩ := all_logical.1 h
    exact all_logical.2 ⟨h, all_all left hleft, all_all right hright⟩
  | conditional test consequent alternate =>
    obtain ⟨-, htest, hconsequent, halternate⟩ := all_conditional.1 h
    exact all_conditional.2
      ⟨h, all_all test htest, all_all consequent hconsequent, all_all alternate halternate⟩
  | assign op target value =>
    obtain ⟨-, htarget, hvalue⟩ := all_assign.1 h
    exact all_assign.2 ⟨h, all_all target htarget, all_all value hvalue⟩
  | update op result target => exact all_update.2 ⟨h, all_all target (all_update.1 h).2⟩

theorem all_all_items (items : List Expr) (h : ∀ e ∈ items, e.All P) :
    ∀ e ∈ items, e.All (Expr.All P) := by
  match items, h with
  | [], _ => nofun
  | e :: rest, h =>
    obtain ⟨he, hrest⟩ := List.forall_mem_cons.1 h
    exact List.forall_mem_cons.2 ⟨all_all e he, all_all_items rest hrest⟩

theorem all_all_properties (properties : List (String × Expr)) (h : ∀ p ∈ properties, p.2.All P) :
    ∀ p ∈ properties, p.2.All (Expr.All P) := by
  match properties, h with
  | [], _ => nofun
  | (key, e) :: rest, h =>
    obtain ⟨he, hrest⟩ := List.forall_mem_cons.1 h
    exact List.forall_mem_cons.2 ⟨all_all e he, all_all_properties rest hrest⟩

end

end

/-! ### Faults of the lexer -/

/-- A text that cannot be read has another fault than a constant as a target. -/
def FailsFairly {α : Type} (read : Except Located α) : Prop :=
  ∀ e, read = .error e → e.1.Fair []

namespace FailsFairly

variable {α β : Type} {read : Except Located α}

theorem ok (x : α) : FailsFairly (.ok x : Except Located α) := by
  intro e h
  cases h

theorem error {fault : SyntaxFault} (place : List Char) (h : fault.Fair [] := by trivial) :
    FailsFairly (.error (fault, place) : Except Located α) := by
  rintro _ ⟨⟩
  exact h

theorem map (h : FailsFairly read) (f : α → β) : FailsFairly (read.map f) := by
  cases read with
  | ok x => exact ok _
  | error e =>
    rintro _ ⟨⟩
    exact h e rfl

theorem bind {f : α → Except Located β} (h : FailsFairly read) (hf : ∀ x, FailsFairly (f x)) :
    FailsFairly (read >>= f) := by
  cases read with
  | ok x => exact hf x
  | error e =>
    rintro _ ⟨⟩
    exact h e rfl

theorem skipTrivia (state : Trivia) (newline : Bool) (cs : List Char) :
    FailsFairly (skipTrivia state newline cs) := by
  fun_induction Syntax.skipTrivia state newline cs with
  | _ => first | assumption | exact ok _ | exact error _

theorem splitNumberToken (cs : List Char) : FailsFairly (splitNumberToken cs) := by
  unfold Syntax.splitNumberToken
  split
  · split
    · exact ok _
    · exact error _
  · dsimp only
    split
    · exact error _
    · split
      · exact ok _
      · exact error _

theorem splitString (quote : Char) (opened : List Char) (part : StringPart) (cs : List Char) :
    FailsFairly (splitString quote opened part cs) := by
  fun_induction Syntax.splitString quote opened part cs with
  | _ => first | assumption | exact ok _ | exact error _ | exact map (by assumption) _

theorem splitSymbol (c : Char) (cs : List Char) : FailsFairly (splitSymbol c cs) := by
  fun_cases Syntax.splitSymbol c cs with
  | _ => first | exact ok _ | exact error _

theorem splitLexeme (c : Char) (cs : List Char) : FailsFairly (splitLexeme c cs) := by
  unfold Syntax.splitLexeme
  split
  · exact ok _
  · split
    · exact splitNumberToken _
    · split
      · exact map (splitString c (c :: cs) .plain cs) _
      · exact (splitSymbol c cs).map _

theorem tokensFrom (fuel : Nat) (cs : List Char) : FailsFairly (tokensFrom fuel cs) := by
  induction fuel generalizing cs with
  | zero => exact ok _
  | succ fuel ih =>
    refine (skipTrivia .plain false cs).bind fun (newlineBefore, cs) => ?_
    cases cs with
    | nil => exact ok _
    | cons c rest =>
      exact (splitLexeme c rest).bind fun (kind, rest) => (ih rest).bind fun tokens => ok _

end FailsFairly

/-! ### The slots of constants -/

/-- The variables that a text of statements declares over some parameters, or its fault with what
can be seen there. -/
def registered (source : String) (params : List String) :
    Except (Located × List Local) Register :=
  match tokenize source with
  | .error e => .error (e, [])
  | .ok tokens => (Registrar.wholeText.run ⟨.start params tokens, []⟩).map Prod.snd

theorem sound_start (params : List String) (tokens : List Token) :
    (Register.mk (.start params tokens) []).Sound where
  slots := rfl
  next := rfl
  seen := List.Sublist.refl []

variable {r : Register} {l : Local}

/-- Where nothing is assigned to a constant, the slots of constants are spared: other variables have
other slots, and so have the parameters. -/
theorem spares_of_frees (hr : r.Sound) (hl : l ∈ r.declared) (hconstant : l.constant = true)
    {e : Expr} {n : Nat} (hfits : e.Fits r.state.params.length n)
    (hfrees : e.All (Expr.Frees r.declared)) : e.All (Expr.Spares l.slot) := by
  have htarget {target : Expr} (hfits : target.Fits r.state.params.length n)
      (hfree : ∀ slot name, target = .declared slot name →
        ∃ m ∈ r.declared, m.slot = slot ∧ m.constant = false) : target.slot? ≠ some l.slot := by
    intro hslot
    cases target with
    | param slot name =>
      cases hslot
      have hlt : l.slot < r.state.params.length := all_param.1 hfits
      exact absurd hlt (Nat.not_lt_of_le (hr.params_le hl))
    | declared slot name =>
      obtain ⟨m, hm, hsame, hvariable⟩ := hfree slot name rfl
      cases hslot
      have heq : m = l := List.inj_on_of_nodup_map hr.nodup hm hl hsame
      rw [heq, hconstant] at hvariable
      cases hvariable
    | _ => cases hslot
  intro x hx
  have hparts : x.Fits r.state.params.length n := all_all e hfits x hx
  have hfree := hfrees x hx
  cases x with
  | assign op target value => exact htarget (all_assign.1 hparts).2.1 hfree
  | update op result target => exact htarget (all_update.1 hparts).2 hfree
  | _ => trivial

/-- The variables that a program declares are those in the register, in this order, and none of its
statements assigns to a constant. -/
theorem registered_of_parse {source : String} {params : List String} {program : Program}
    (h : parse source params .statement = .ok program) :
    ∃ r statements, registered source params = .ok r ∧ r.Sound ∧ r.state.params = params ∧
      r.state.nextSlot = program.slotCount ∧ program.body = .statements statements ∧
      slotsOf statements = r.declared.map Local.slot ∧
      ∀ s ∈ statements, s.All (Stmt.Frees r.declared) := by
  obtain ⟨tokens, finish, htokens, hrun, hcount⟩ := parse_eq_ok h
  have hfollows := registers_wholeText (sound_start params tokens)
  unfold Registers at hfollows
  rw [hrun] at hfollows
  generalize hregistrar : Registrar.wholeText.run ⟨.start params tokens, []⟩ = b at hfollows
  cases hfollows with
  | @ok _ r hsound hext hbody =>
    obtain ⟨statements, hstatements, hslots, hfrees⟩ := hbody
    refine ⟨r, statements, ?_, hsound, hext.2, hcount.symm, hstatements, ?_, hfrees⟩
    · rw [registered, htokens]
      dsimp only
      rw [hregistrar]
      rfl
    · rw [hslots, hsound.slots, Register.between, hsound.next, hext.2]
      exact congrArg (List.range' params.length) (Nat.add_sub_cancel_left _ _)

/-- What is refused as a constant is one. -/
theorem constant_of_parse {source : String} {params : List String} {e : SyntaxError}
    (h : parse source params .statement = .error e) {name : String}
    (hname : e.fault = .constantTarget name) :
    ∃ place scope, registered source params = .error ((.constantTarget name, place), scope) ∧
      e.offset = offsetOf source.toList place ∧
      ∃ l, visible? scope name = some l ∧ l.constant = true := by
  rw [parse_eq] at h
  cases htokens : tokenize source with
  | error fault =>
    obtain ⟨fault, place⟩ := fault
    rw [htokens] at h
    cases h
    cases hname
    -- what keeps a text from being read is no assignment
    obtain ⟨l, hl, -⟩ := FailsFairly.tokensFrom _ _ _ htokens
    cases hl
  | ok tokens =>
    have hfollows := registers_wholeText (sound_start params tokens)
    unfold Registers at hfollows
    rw [htokens] at h
    generalize hrun : (wholeText .statement).run (.start params tokens) = a,
      hregistrar : Registrar.wholeText.run ⟨.start params tokens, []⟩ = b at hfollows
    simp only [Except.bind, hrun] at h
    cases hfollows with
    | ok hsound hext hbody => cases h
    | @error fault scope place hfair =>
      cases h
      cases hname
      refine ⟨place, scope, ?_, rfl, hfair⟩
      rw [registered, htokens]
      dsimp only
      rw [hregistrar]
      rfl

end Syntax

namespace Eval

/-- An expression that spares a slot leaves it as it is, in any frame. -/
theorem slot_evalExpr {i : Nat} {e : Expr} (he : e.All (Expr.Spares i)) (held : List Entity)
    (f : Frame) : ((evalExpr e held).run.run f).2.slot i = f.slot i := by
  have hthreads : Threads (e.writes held f) f ((evalExpr e held).run.run f).2 :=
    recorded_evalExpr (L := slotLedger f.params) e held f rfl
  exact (hthreads.slot_eq (misses_writes e he held f)).1

/-- The slot keeps the first value that is stored to it in a call: nothing is stored to it after
that, and it has the value at every later store and in the end. -/
def Code.Keeps (code : Code) (args : List Value) (store : Store) (i : Nat) : Prop :=
  ∀ before w later, code.stores args store = before ++ w :: later → w.fills i = true →
    (∀ x ∈ later, x.fills i = false ∧ x.frame.slot i = w.value) ∧
      (code.lastFrame args store).slot i = w.value

/-- No expression in the statement changes the slot, whatever the frame that it is evaluated in. -/
def Stmt.Leaves (i : Nat) (s : Stmt) : Prop :=
  ∀ e ∈ s.expressions, e.All fun x =>
    ∀ held f, ((evalExpr x held).run.run f).2.slot i = f.slot i

theorem leaves_of_spares {i : Nat} {s : Stmt} (h : s.Spares i) : Stmt.Leaves i s :=
  fun e he x hx => slot_evalExpr (all_all e (h e he) x hx)

/-- A slot that is declared once and that no expression assigns to keeps its value. -/
theorem keeps_of_declared_once {code : Code} {statements : List Stmt} {i : Nat}
    (hbody : code.body = .statements statements)
    (hspares : ∀ s ∈ statements, s.All (Stmt.Spares i)) (honce : (slotsOf statements).Nodup)
    (hparams : code.params.length ≤ i) (hi : i < code.slotCount) {args : List Value}
    {store : Store}
    (h : Threads (code.stores args store) (code.frame args store) (code.lastFrame args store)) :
    code.Keeps args store i := by
  intro before w later hsplit hw
  have hstores : code.stores args store =
      statementsStores statements (references args) (code.frame args store) := by
    rw [Code.stores, hbody]
    rfl
  rw [hstores] at h hsplit
  exact Threads.slot_of_declared_once hspares honce hparams (size_frame code args store ▸ hi) h
    hsplit hw

/-- **Constants never change, and only constants are refused as such.**  If a text of statements
compiles, the variables in its register are those that its tree declares, slot by slot.  No
expression in it changes the slot of a constant; in every call the stores lead from the first frame
to the last, and the slot of a constant keeps the value that is stored to it.  If the text does not
compile because a constant is assigned to, then a constant is what is seen under its name where the
text goes wrong. -/
theorem constants_never_change (source : String) (params : List String) :
    (∀ code, Code.compile source params .statement = .ok code →
      ∃ r statements, registered source params = .ok r ∧ code.body = .statements statements ∧
        slotsOf statements = r.declared.map Local.slot ∧
        ∀ l ∈ r.declared, l.constant = true →
          (∀ s ∈ statements, s.All (Stmt.Leaves l.slot)) ∧
          ∀ args store,
            Threads (code.stores args store) (code.frame args store) (code.lastFrame args store) ∧
              code.Keeps args store l.slot) ∧
    (∀ e name, Code.compile source params .statement = .error e → e.fault = .constantTarget name →
      ∃ place scope, registered source params = .error ((.constantTarget name, place), scope) ∧
        e.offset = offsetOf source.toList place ∧
        ∃ l, visible? scope name = some l ∧ l.constant = true) := by
  constructor
  · intro code hcompile
    obtain ⟨hfits, hle⟩ := fits_of_compile hcompile
    have hthreads := threads_call hcompile
    unfold Code.compile at hcompile
    cases hparse : parse source params .statement with
    | error e =>
      rw [hparse] at hcompile
      cases hcompile
    | ok program =>
      rw [hparse] at hcompile
      cases hcompile
      obtain ⟨r, statements, hregistered, hr, hparams, hcount, hbody, hslots, hfrees⟩ :=
        registered_of_parse hparse
      refine ⟨r, statements, hregistered, hbody, hslots, fun l hl hconstant => ?_⟩
      subst hparams
      dsimp only at hfits
      rw [hbody] at hfits
      have hspares : ∀ s ∈ statements, s.All (Stmt.Spares l.slot) := fun s hs x hx e he =>
        spares_of_frees hr hl hconstant ((hfits s hs x hx).1 e he) (hfrees s hs x hx e he)
      refine ⟨fun s hs x hx => leaves_of_spares (hspares s hs x hx), fun args store => ?_⟩
      refine ⟨hthreads args store, ?_⟩
      exact keeps_of_declared_once hbody hspares (hslots ▸ hr.nodup) (hr.params_le hl)
        (hcount ▸ hr.slot_lt hl) (hthreads args store)
  · intro e name hcompile
    unfold Code.compile at hcompile
    cases hparse : parse source params .statement with
    | error fault =>
      rw [hparse] at hcompile
      cases hcompile
      exact constant_of_parse hparse
    | ok program =>
      rw [hparse] at hcompile
      cases hcompile

/-- A constant, with a variable of its name in a block that is assigned to. -/
def shadowedSource : String := "const a = x; { let a; a = x }"

/-- The program of the text. -/
def shadowed : Code where
  mode := .statement
  params := ["x"]
  body := .statements [.declare [(1, some (.param 0 "x"))],
    .block [.declare [(2, none)],
      .expression (.assign .assign (.declared 2 "a") (.param 0 "x"))]]
  slotCount := 3

theorem compile_shadowed : Code.compile shadowedSource ["x"] .statement = .ok shadowed := by
  cbv

theorem registered_shadowed : (registered shadowedSource ["x"]).map Register.declared =
    .ok [⟨"a", 1, true⟩, ⟨"a", 2, false⟩] := by
  cbv

theorem compile_reassigned : Code.compile "const a = x; a = x" ["x"] .statement =
    .error ⟨.constantTarget "a", 15⟩ := by
  cbv

/-- The variable in the block is assigned to, and the constant of its name is not; without the
block the constant would be assigned to, and the text is refused. -/
theorem shadowed_constant_keeps_value :
    (shadowed.stores [.null] .initial).map (fun w => (w.place, w.value)) =
        [(.slot 1, .null), (.slot 2, .undefined), (.slot 2, .null)] ∧
      shadowed.Keeps [.null] .initial 1 ∧
      ∃ place scope, registered "const a = x; a = x" ["x"] =
          .error ((.constantTarget "a", place), scope) ∧
        ∃ l, visible? scope "a" = some l ∧ l.constant = true := by
  obtain ⟨r, statements, hregistered, -, -, hkeeps⟩ :=
    (constants_never_change shadowedSource ["x"]).1 shadowed compile_shadowed
  have hdeclared := registered_shadowed
  rw [hregistered] at hdeclared
  have hmem : ⟨"a", 1, true⟩ ∈ r.declared := by
    rw [show r.declared = _ from Except.ok.inj hdeclared]
    exact List.mem_cons_self
  obtain ⟨place, scope, hfault, -, hseen⟩ :=
    (constants_never_change "const a = x; a = x" ["x"]).2 _ "a" compile_reassigned rfl
  exact ⟨rfl, ((hkeeps _ hmem rfl).2 _ _).2, place, scope, hfault, hseen⟩

end Eval

end LiveMarkup
