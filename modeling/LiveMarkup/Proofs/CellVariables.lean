import LiveMarkup.Proofs.Mentions
import LiveMarkup.Proofs.Mirroring

/-!
# Cells as variables

A run in which the names of a plain program are bound to cells is followed, step by step, by a run
in which they are bound to what the cells hold.  So to the program each cell is a variable: it gives
the same result, and leaves in the cells what it leaves in the slots.

This is so for steady runs only.  A value that is kept while its cell is written is read after the
write, and a zero stays when the zero of the other sign is written.

## Main definitions

* `Code.lastFrame` — the frame in which a call ends.
* `Code.TreatsAlike` — the call with cells and the call with what they hold.

## Main results

* `ends_evalExpr`, `ends_execStmt` — steady runs of expressions and statements.
* `treatsAlike_of_steady` — steady runs of programs.
* `not_treatsAlike` — two programs whose runs are not steady.
-/

namespace LiveMarkup.Eval

open Syntax

variable {α : Type} {cells : List CellRef} {kept : List Value} {f g : Frame}

/-! ### Expressions -/

/-- The second operand of an operator: what the first one has given is kept meanwhile. -/
theorem ends_operand {op : BinaryOp} {v w : Value} {k k' : Evaluation Value}
    {held held' : List Entity} (hv : f.store.Shows v w)
    (h : Ends cells (v :: kept) f Store.Shows ((k (v.entity?.toList ++ held)).run.run f)
      ((k' (w.entity?.toList ++ held')).run.run g)) :
    Ends cells kept f Store.Shows
      ((holding v.entity?.toList (do
        let x ← k
        askOf x fun s x => binary s op v x) held).run.run f)
      ((holding w.entity?.toList (do
        let x ← k'
        askOf x fun s x => binary s op w x) held').run.run g) := by
  refine Ends.holding stable_shows (Ends.mono (h.bind fun x y f' g' _ hframes hx hkeeps => ?_)
    (List.subset_cons_self v kept))
  have hv' : f'.store.Shows v w :=
    ⟨(hkeeps v List.mem_cons_self).trans hv.unwrap, hv.scalar⟩
  refine ends_askOf stable_shows hframes ?_
  rw [hv'.binary g'.store op hx]
  exact .self _ (isScalar_binary _ _ _ _)

/-- What a steady evaluation gives is taken for the same truth value or number. -/
theorem ends_asked [Referring α] {e : Expr} {ask : Store → Value → α} {held held' : List Entity}
    (hask : ∀ {s t v w}, Store.Shows s v w → ask s v = ask t w)
    (h : Ends cells kept f Store.Shows ((evalExpr e held).run.run f)
      ((evalExpr e held').run.run g)) :
    Ends cells kept f (fun _ b c => b = c)
      (((do askOf (← evalExpr e) ask : Evaluation α) held).run.run f)
      (((do askOf (← evalExpr e) ask : Evaluation α) held').run.run g) :=
  h.bind fun _ _ _ _ _ hframes hv _ => ends_askOf stable_eq hframes (hask hv)

/-- A steady evaluation of a plain expression. -/
theorem ends_evalExpr (hcells : cells.Nodup) (e : Expr) (he : e.All Expr.IsPlain)
    (held held' : List Entity) (kept : List Value) (f g : Frame) (hframes : f.Mirrors cells g)
    (hsteady : e.Steady held kept f) :
    Ends cells kept f Store.Shows ((evalExpr e held).run.run f)
      ((evalExpr e held').run.run g) := by
  cases e with
  | literal l =>
    rw [evalExpr]
    exact ends_pure hframes (.self _ (isScalar_literal l))
  | param i name =>
    rw [evalExpr]
    exact .ok hframes (fun _ _ => rfl) (hframes.shows i)
  | declared i name =>
    rw [evalExpr]
    exact .ok hframes (fun _ _ => rfl) (hframes.shows i)
  | global c =>
    rw [evalExpr]
    exact ends_pure hframes (.self _ (isScalar_globalValue c))
  | unbound name =>
    rw [evalExpr]
    exact .failed hframes
  | unary op operand =>
    rw [evalExpr]
    split
    · exact ends_pure hframes (.self _ trivial)
    · refine (ends_evalExpr hcells operand (all_unary.1 he).2 held held' kept f g hframes
        hsteady).bind fun v w f' g' _ hframes' hv _ => ends_askOf stable_shows hframes' ?_
      rw [hv.unary g'.store op]
      exact .self _ (isScalar_unary _ _ _)
  | binary op left right =>
    obtain ⟨-, hleft, hright⟩ := all_binary.1 he
    rw [evalExpr]
    refine (ends_evalExpr hcells left hleft held held' kept f g hframes hsteady.1).bind
      fun v w f' g' hrun hframes' hv _ => ends_operand hv ?_
    exact ends_evalExpr hcells right hright _ _ _ f' g' hframes' (hsteady.2 v f' hrun)
  | logical op left right =>
    obtain ⟨-, hleft, hright⟩ := all_logical.1 he
    rw [evalExpr]
    refine (ends_evalExpr hcells left hleft held held' kept f g hframes hsteady.1).bind
      fun v w f' g' hrun hframes' hv _ => ?_
    have hstops : Ends cells kept f' (fun _ b c => b = c)
        (((ask fun s => stopsAt s op v : Evaluation Bool) held).run.run f')
        (((ask fun s => stopsAt s op w : Evaluation Bool) held').run.run g') :=
      .ok hframes' (fun _ _ => rfl) (hv.stopsAt g'.store op)
    refine hstops.bind fun b c f₁ g₁ hrun₁ hframes₁ hbc _ => ?_
    obtain ⟨hb, rfl⟩ : stopsAt f'.store op v = b ∧ f' = f₁ := by
      cases hrun₁
      exact ⟨rfl, rfl⟩
    subst hbc
    cases b with
    | true => exact ends_pure hframes₁ hv
    | false =>
      exact Ends.holding stable_shows (ends_evalExpr hcells right hright _ _ _ f' g₁ hframes₁
        (hsteady.2 v f' hrun hb))
  | conditional test consequent alternate =>
    obtain ⟨-, htest, hconsequent, halternate⟩ := all_conditional.1 he
    rw [evalExpr, ← bind_assoc]
    refine (ends_asked (fun h => h.isTruthy _) (ends_evalExpr hcells test htest held held' kept f g
      hframes hsteady.1)).bind fun b c f' g' hrun hframes' hbc _ => ?_
    subst hbc
    obtain ⟨hthen, helse⟩ := hsteady.2 b f' hrun
    cases b with
    | true => exact ends_evalExpr hcells consequent hconsequent _ _ _ f' g' hframes' (hthen rfl)
    | false => exact ends_evalExpr hcells alternate halternate _ _ _ f' g' hframes' (helse rfl)
  | assign op target operand =>
    obtain ⟨htarget, hname, hoperand⟩ := all_assign.1 he
    obtain ⟨hvalue, hwrite⟩ := hsteady
    rw [evalExpr_assign htarget]
    have hends : Ends cells kept f Store.Shows
        ((evalExpr (op.value target operand) held).run.run f)
        ((evalExpr (op.value target operand) held').run.run g) := by
      cases op with
      | assign => exact ends_evalExpr hcells operand hoperand held held' kept f g hframes hvalue
      | compound op =>
        rw [AssignOp.value, evalExpr]
        refine (ends_evalExpr hcells target hname held held' kept f g hframes
          (steady_of_isName htarget)).bind fun v w f' g' hrun hframes' hv _ => ends_operand hv ?_
        exact ends_evalExpr hcells operand hoperand _ _ _ f' g' hframes' (hvalue v f' hrun)
    refine hends.bind fun v w f' g' hrun hframes' hv _ => ?_
    refine Ends.bind (Ends.keeping (ends_writePlace htarget hcells hframes' hv (hwrite v f' hrun)))
      fun _ _ f₁ g₁ _ hframes₁ hv₁ _ => ends_pure hframes₁ hv₁
  | update op result target =>
    obtain ⟨htarget, hname⟩ := all_update.1 he
    rw [evalExpr_update htarget, ← bind_assoc]
    refine (ends_asked (fun h => h.toNumber _) (ends_evalExpr hcells target hname held held' kept f
      g hframes (steady_of_isName htarget))).bind fun x y f' g' hrun hframes' hxy _ => ?_
    subst hxy
    refine Ends.bind (ends_writePlace htarget hcells hframes' (.self _ trivial)
      (hsteady x f' hrun)) fun _ _ f₁ g₁ _ hframes₁ _ _ => ends_pure hframes₁ (.self _ trivial)
  | array => exact (all_array.1 he).1.elim
  | object => exact (all_object.1 he).1.elim
  | member => exact (all_member.1 he).1.elim
  | index => exact (all_index.1 he).1.elim
  | call => exact (all_call.1 he).1.elim
  | optionalChain => exact (all_optionalChain.1 he).1.elim

/-! ### Statements -/

/-- Two computations end the same way, and nothing is said of what they give. -/
abbrev EndsAlike (cells : List CellRef) (f : Frame) :
    Except Interrupt Unit × Frame → Except Interrupt Unit × Frame → Prop :=
  Ends cells [] f fun _ _ _ => True

theorem ends_evalOption (hcells : cells.Nodup) (e : Option Expr)
    (he : ∀ x ∈ e, x.All Expr.IsPlain) (held held' : List Entity) (hframes : f.Mirrors cells g)
    (hsteady : optionSteady e held f) :
    Ends cells [] f Store.Shows ((evalOption e held).run.run f)
      ((evalOption e held').run.run g) := by
  cases e with
  | none => exact ends_pure hframes (.self _ trivial)
  | some e => exact ends_evalExpr hcells e (he e rfl) held held' [] f g hframes hsteady

/-- A variable is declared in both frames alike. -/
theorem ends_fillSlot {i : Nat} (hi : cells.length ≤ i) {v w : Value} (held held' : List Entity)
    (hframes : f.Mirrors cells g) (hv : f.store.Shows v w) :
    EndsAlike cells f ((fillSlot i v held).run.run f) ((fillSlot i w held').run.run g) :=
  Ends.letGo (fun _ _ _ _ _ _ => trivial) (.ok (hframes.setSlot hv hi) keeps_nil trivial) _ _ _ _

theorem ends_declareAll (hcells : cells.Nodup) (declarators : List (Nat × Option Expr))
    (hplain : ∀ e ∈ declarators.filterMap Prod.snd, e.All Expr.IsPlain)
    (hslots : ∀ d ∈ declarators, cells.length ≤ d.1) (held held' : List Entity) (f g : Frame)
    (hframes : f.Mirrors cells g) (hsteady : declaratorsSteady declarators held f) :
    EndsAlike cells f ((declareAll declarators held).run.run f)
      ((declareAll declarators held').run.run g) := by
  induction declarators generalizing f g with
  | nil => exact ends_pure hframes trivial
  | cons declarator rest ih =>
    obtain ⟨slot, init⟩ := declarator
    obtain ⟨hslot, hrest⟩ := List.forall_mem_cons.1 hslots
    have hdeclare : declareAll ((slot, init) :: rest) = (do
        fillSlot slot (← evalOption init)
        declareAll rest) := by
      cases init <;> rfl
    have hinit : ∀ e ∈ init, e.All Expr.IsPlain := fun e he =>
      hplain e (List.mem_filterMap.2 ⟨(slot, init), List.mem_cons_self, he⟩)
    have hothers : ∀ e ∈ rest.filterMap Prod.snd, e.All Expr.IsPlain := fun e he => by
      obtain ⟨d, hd, hde⟩ := List.mem_filterMap.1 he
      exact hplain e (List.mem_filterMap.2 ⟨d, List.mem_cons_of_mem _ hd, hde⟩)
    rw [hdeclare, ← bind_assoc]
    refine Ends.bind ((ends_evalOption hcells init hinit held held' hframes hsteady.1).bind
      fun v w f' g' _ hframes' hv _ => ends_fillSlot hslot held held' hframes' hv)
      fun _ _ f' g' hrun hframes' _ _ => ?_
    exact ih hothers hrest f' g' hframes' (hsteady.2 _ f' hrun)

mutual

/-- A steady execution of a plain statement. -/
theorem ends_execStmt (hcells : cells.Nodup) (s : Stmt) (hplain : s.All Stmt.IsPlain)
    (hslots : s.All (Stmt.DeclaresFrom cells.length)) (held held' : List Entity) (f g : Frame)
    (hframes : f.Mirrors cells g) (hsteady : s.Steady held f) :
    EndsAlike cells f ((execStmt s held).run.run f) ((execStmt s held').run.run g) := by
  cases s with
  | empty => exact ends_pure hframes trivial
  | expression e =>
    have he := Stmt.all_expression.1 hplain e List.mem_cons_self
    exact (ends_evalExpr hcells e he held held' [] f g hframes hsteady).bind
      fun v w f' g' _ hframes' _ _ =>
        Ends.letGo (fun _ _ _ _ _ _ => trivial) (.ok hframes' keeps_nil trivial) _ _ _ _
  | block statements =>
    exact ends_execList hcells statements (Stmt.all_block.1 hplain).2 (Stmt.all_block.1 hslots).2
      held held' f g hframes hsteady
  | declare declarators =>
    exact ends_declareAll hcells declarators (Stmt.all_declare.1 hplain)
      (Stmt.all_declare.1 hslots) held held' f g hframes hsteady
  | conditional test consequent alternate =>
    obtain ⟨htest, hconsequent, halternate⟩ := Stmt.all_conditional.1 hplain
    obtain ⟨-, hconsequent', halternate'⟩ := Stmt.all_conditional.1 hslots
    rw [execStmt, ← bind_assoc]
    refine (ends_asked (fun h => h.isTruthy _) (ends_evalExpr hcells test
      (htest test List.mem_cons_self) held held' [] f g hframes hsteady.1)).bind
      fun b c f' g' hrun hframes' hbc _ => ?_
    subst hbc
    obtain ⟨hthen, helse⟩ := hsteady.2 b f' hrun
    cases b with
    | true =>
      exact ends_execStmt hcells consequent hconsequent hconsequent' held held' f' g' hframes'
        (hthen rfl)
    | false =>
      exact ends_execOption hcells alternate halternate halternate' held held' f' g' hframes'
        (helse rfl)
  | returns value =>
    have hreturn : execStmt (.returns value) =
        (do throw (.returned (← evalOption value))) := by
      cases value <;> rfl
    have hvalue : ∀ x ∈ value, x.All Expr.IsPlain := fun x hx =>
      Stmt.all_returns.1 hplain x (Option.mem_toList.2 hx)
    rw [hreturn]
    exact (ends_evalOption hcells value hvalue held held' hframes hsteady).bind
      fun v w f' g' _ hframes' hv _ => .returned hframes' hv

theorem ends_execList (hcells : cells.Nodup) (statements : List Stmt)
    (hplain : ∀ s ∈ statements, s.All Stmt.IsPlain)
    (hslots : ∀ s ∈ statements, s.All (Stmt.DeclaresFrom cells.length))
    (held held' : List Entity) (f g : Frame) (hframes : f.Mirrors cells g)
    (hsteady : statementsSteady statements held f) :
    EndsAlike cells f ((execList statements held).run.run f)
      ((execList statements held').run.run g) := by
  cases statements with
  | nil => exact ends_pure hframes trivial
  | cons s rest =>
    obtain ⟨hplain, hplains⟩ := List.forall_mem_cons.1 hplain
    obtain ⟨hslot, hslots⟩ := List.forall_mem_cons.1 hslots
    exact (ends_execStmt hcells s hplain hslot held held' f g hframes hsteady.1).bind
      fun _ _ f' g' hrun hframes' _ _ =>
        ends_execList hcells rest hplains hslots held held' f' g' hframes' (hsteady.2 _ f' hrun)

theorem ends_execOption (hcells : cells.Nodup) (s : Option Stmt)
    (hplain : ∀ x ∈ s, x.All Stmt.IsPlain)
    (hslots : ∀ x ∈ s, x.All (Stmt.DeclaresFrom cells.length))
    (held held' : List Entity) (f g : Frame) (hframes : f.Mirrors cells g)
    (hsteady : alternateSteady s held f) :
    EndsAlike cells f ((execOption s held).run.run f) ((execOption s held').run.run g) := by
  cases s with
  | none => exact ends_pure hframes trivial
  | some s =>
    exact ends_execStmt hcells s (hplain s rfl) (hslots s rfl) held held' f g hframes hsteady

end

/-! ### Programs -/

theorem ends_evalBody (hcells : cells.Nodup) (body : Body) (hplain : body.IsPlain)
    (hslots : body.All (Stmt.DeclaresFrom cells.length)) (held held' : List Entity)
    (hframes : f.Mirrors cells g) (hsteady : body.Steady held f) :
    Ends cells [] f Store.Shows ((evalBody body held).run.run f)
      ((evalBody body held').run.run g) := by
  cases body with
  | expression e => exact ends_evalExpr hcells e hplain held held' [] f g hframes hsteady
  | statements list =>
    exact (ends_execList hcells list hplain hslots held held' f g hframes hsteady).bind
      fun _ _ _ _ _ hframes' _ _ => ends_pure hframes' (.self _ trivial)

/-- A call with cells starts in a frame that mirrors that of a call with what they hold. -/
theorem mirrors_frame {code : Code} (hcount : code.params.length ≤ code.slotCount)
    (hlength : cells.length = code.params.length) {s : Store} (hhas : ∀ c ∈ cells, s.Has c)
    (hheld : ∀ c ∈ cells, (s.held c).IsScalar) (t : Store) :
    (code.frame (cells.map .cell) s).Mirrors cells (code.frame (cells.map s.held) t) where
  params := hlength.symm
  params' := hlength.symm
  size := by simp [Code.frame, resized]
  bound i c hi := by
    rw [slot_frame hcount (by rw [List.length_map, hlength]), List.getElem?_map, hi]
    exact ⟨rfl, hhas c (List.mem_of_getElem? hi)⟩
  shows i := by
    rw [slot_frame hcount (by rw [List.length_map, hlength]), List.getElem?_map,
      slot_frame hcount (by rw [List.length_map, hlength]), List.getElem?_map]
    cases hi : cells[i]? with
    | none => exact .self _ trivial
    | some c => exact ⟨rfl, hheld c (List.mem_of_getElem? hi)⟩

theorem slots_of_compile {source : String} {params : List String} {mode : Mode} {code : Code}
    (h : Code.compile source params mode = .ok code) :
    code.params = params ∧ code.body.All (Stmt.DeclaresFrom code.params.length) ∧
      code.params.length ≤ code.slotCount := by
  unfold Code.compile at h
  cases hparse : parse source params mode with
  | error e =>
    rw [hparse] at h
    cases h
  | ok program =>
    rw [hparse] at h
    cases h
    exact ⟨rfl, slots_of_parse hparse⟩

/-- The frame in which a call ends. -/
def Code.lastFrame (code : Code) (args : List Value) (store : Store) : Frame :=
  ((evalBody code.body (references args)).run.run (code.frame args store)).2

/-- With its names bound to cells a program gives the same result or error as with the names bound
to what the cells hold, in any other store; and the cells then hold what the names are bound to. -/
def Code.TreatsAlike (code : Code) (cells : List CellRef) (s t : Store) : Prop :=
  (code.call (cells.map .cell) s).2.map (code.call (cells.map .cell) s).1.unwrap =
      (code.call (cells.map s.held) t).2 ∧
    ∀ i c, cells[i]? = some c →
      (code.call (cells.map .cell) s).1.held c = (code.lastFrame (cells.map s.held) t).slot i

/-- **Cells act as variables** in a plain program whose names are bound to cells, one to each, if no
write shows in a value that is kept, and none puts a number over an equal one that is not the
same. -/
theorem treatsAlike_of_steady {source : String} {params : List String} {mode : Mode}
    {code : Code} (hcompile : Code.compile source params mode = .ok code)
    (hplain : code.body.IsPlain) {cells : List CellRef} (hcells : cells.Nodup)
    (hlength : cells.length = params.length) {s : Store} (hhas : ∀ c ∈ cells, s.Has c)
    (hheld : ∀ c ∈ cells, (s.held c).IsScalar)
    (hsteady : code.body.Steady (references (cells.map .cell))
      (code.frame (cells.map .cell) s)) (t : Store) : code.TreatsAlike cells s t := by
  obtain ⟨rfl, hslots, hcount⟩ := slots_of_compile hcompile
  have hends := ends_evalBody hcells code.body hplain (hlength ▸ hslots)
    (references (cells.map .cell)) (references (cells.map s.held))
    (mirrors_frame hcount hlength hhas hheld t) hsteady
  unfold Code.TreatsAlike Code.call Code.lastFrame
  dsimp only
  generalize ((evalBody code.body) (references (cells.map .cell))).run.run _ = r at hends ⊢
  generalize ((evalBody code.body) (references (cells.map s.held))).run.run _ = r' at hends ⊢
  have hafter (kept lost : List Entity) (v : Value) :
      (r.2.store.letGo kept lost).unwrap v = r.2.store.unwrap v :=
    (Store.sameContents_letGo _ kept lost).unwrap v
  have hcell (hframes : r.2.Mirrors cells r'.2) (i : Nat) (c : CellRef)
      (hi : cells[i]? = some c) (kept lost : List Entity) :
      (r.2.store.letGo kept lost).held c = r'.2.slot i := by
    have hshows := (hframes.shows i).unwrap
    rw [(hframes.bound i c hi).1] at hshows
    exact (hafter kept lost (.cell c)).trans hshows
  cases hends with
  | ok hframes _ h =>
    exact ⟨congrArg Except.ok ((hafter _ _ _).trans h.unwrap),
      fun i c hi => hcell hframes i c hi _ _⟩
  | failed hframes => exact ⟨rfl, fun i c hi => hcell hframes i c hi _ _⟩
  | returned hframes h =>
    exact ⟨congrArg Except.ok ((hafter _ _ _).trans h.unwrap),
      fun i c hi => hcell hframes i c hi _ _⟩

/-- A store with one cell after another that hold the values. -/
def cellsHolding (vs : List Value) : Store :=
  vs.foldl (fun s v => (s.newCell v (.queue defaultQueue)).1) .initial

theorem negated_copy_treatsAlike :
    ∃ code, Code.compile "let x = a; b = !x" ["a", "b"] .statement = .ok code ∧
      code.TreatsAlike [⟨0⟩, ⟨1⟩] (cellsHolding [.bool true, .bool true]) .initial := by
  have hcompile : Code.compile "let x = a; b = !x" ["a", "b"] .statement =
      .ok ⟨.statement, ["a", "b"], .statements [.declare [(2, some (.param 0 "a"))],
        .expression (.assign .assign (.param 1 "b") (.unary .not (.declared 2 "x")))], 3⟩ := by
    cbv
  refine ⟨_, hcompile, treatsAlike_of_steady hcompile (by decide) (by decide) rfl (by decide)
    (by decide) ⟨⟨trivial, fun _ _ _ => trivial⟩, ?_⟩ _⟩
  rintro _ g hdeclared
  cases hdeclared
  refine ⟨⟨trivial, ?_⟩, fun _ _ _ => trivial⟩
  rintro v h hnegated
  cases hnegated
  refine ⟨by simp, fun j hj => ?_, fun _ _ _ hx => by cases hx⟩
  obtain _ | _ | _ | j := j
  · exact absurd hj (by decide)
  · exact absurd hj (by decide)
  · rfl
  · rfl

theorem compile_zero : Code.compile "a = -false" ["a"] .expression =
    .ok ⟨.expression, ["a"], .expression (.assign .assign (.param 0 "a")
      (.unary .negate (.literal (.bool false)))), 1⟩ := by
  cbv

theorem compile_compared : Code.compile "a == (a = true)" ["a"] .expression =
    .ok ⟨.expression, ["a"], .expression (.binary .equal (.param 0 "a")
      (.assign .assign (.param 0 "a") (.literal (.bool true)))), 1⟩ := by
  cbv

/-- Cells do not act as variables in every plain program.  A zero that is written over the zero of
the other sign does not count as a change, and a cell that is compared is read after both sides have
been computed. -/
theorem not_treatsAlike :
    (∃ code, Code.compile "a = -false" ["a"] .expression = .ok code ∧ code.body.IsPlain ∧
      ¬code.TreatsAlike [⟨0⟩] (cellsHolding [.number 0]) .initial) ∧
    ∃ code, Code.compile "a == (a = true)" ["a"] .expression = .ok code ∧ code.body.IsPlain ∧
      ¬code.TreatsAlike [⟨0⟩] (cellsHolding [.bool false]) .initial := by
  refine ⟨⟨_, compile_zero, by decide, fun h => ?_⟩, ⟨_, compile_compared, by decide, fun h => ?_⟩⟩
  · have hheld : Value.number 0 = .number (-0) := h.2 0 ⟨0⟩ rfl
    exact absurd (Value.number.inj hheld) (by decide)
  · have hresult : (Except.ok (.bool true) : Except EvalError Value) = .ok (.bool false) := h.1
    cases hresult

end LiveMarkup.Eval
