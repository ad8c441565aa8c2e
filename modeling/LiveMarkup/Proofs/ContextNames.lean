import LiveMarkup.Proofs.CompiledCache
import LiveMarkup.Proofs.InRange
import LiveMarkup.Proofs.Mentions
import LiveMarkup.Proofs.Rebinding
import LiveMarkup.Proofs.ReboundRuns

/-!
# Only the names in a text matter

The names of a context become the parameters of a compiled text, and the variables of the text are
numbered after them; so with another context nearly every slot is another one.  It shows in nothing:
over two contexts in which each name of the text is bound to the same value or to nothing, in any
order and among any other names, a text does the same.

The two runs may differ in what is gone afterwards, and in the streams that have ended by that,
since the other values of a context are held while the text runs.

## Main definitions

* `Rebinding.Uses` — the slots of a placed tree.
* `Cause`, `InterpreterError.cause` — why a text gives no value, whatever the parameters are.
* `SameOutcome` — runs that end the same way.

## Main results

* `rebound_frame` — the frames of two contexts hold the same in the slots of the names of a text.
* `only_mentioned_names_matter` — running a text over two contexts.
-/

namespace LiveMarkup

open Syntax Eval

/-! ### Slots that are used -/

namespace Syntax

/-- The slot is that of a parameter that is the last of its name, one of the names, or that of a
variable. -/
def Rebinding.Uses (ρ : Rebinding) (n i : Nat) : Prop :=
  (∃ name ∈ ρ.names, lastPosition? ρ.params name = some i) ∨ (ρ.params.length ≤ i ∧ i < n)

variable {ρ : Rebinding} {n i j : Nat}

theorem Expr.Placed.uses {e : Expr} (h : e.Placed ρ n) : e.All (UsesSlots (ρ.Uses n)) := by
  intro x hx
  have hplace := h x hx
  cases x with
  | param slot name => exact .inl ⟨name, hplace⟩
  | declared slot name => exact .inr hplace
  | _ => trivial

theorem Body.Placed.uses {body : Body} (h : body.Placed ρ n) : BodyUses (ρ.Uses n) body := by
  cases body with
  | expression e => exact Expr.Placed.uses h
  | statements list =>
    exact fun s hs x hx => ⟨fun e he => ((h s hs x hx).1 e he).uses,
      fun slot hslot => .inr ((h s hs x hx).2 slot hslot)⟩

/-- Parameters come to stand among parameters. -/
theorem slot_lt_of_param {name : String} (hname : name ∈ ρ.names)
    (h : lastPosition? ρ.params name = some i) : ρ.slot i < ρ.others.length :=
  lt_of_lastPosition? (Rebinding.slot_of_param h hname)

/-- Variables come to stand after parameters. -/
theorem le_slot_of_le (h : ρ.params.length ≤ i) : ρ.others.length ≤ ρ.slot i := by
  rw [Rebinding.slot_of_le h]
  omega

/-- Different slots become different slots. -/
theorem Rebinding.Uses.inj (hi : ρ.Uses n i) (hj : ρ.Uses n j) (h : ρ.slot i = ρ.slot j) :
    i = j := by
  rcases hi with ⟨name, hname, hi⟩ | ⟨hi, -⟩ <;> rcases hj with ⟨name', hname', hj⟩ | ⟨hj, -⟩
  · -- at one place among the others stands one name
    have hother := getElem?_of_lastPosition? (Rebinding.slot_of_param hi hname)
    have hother' := getElem?_of_lastPosition? (Rebinding.slot_of_param hj hname')
    rw [h, hother'] at hother
    obtain rfl : name' = name := Option.some.inj hother
    exact Option.some.inj (hi.symm.trans hj)
  · have hlt := slot_lt_of_param hname hi
    have hle := le_slot_of_le hj
    omega
  · have hlt := slot_lt_of_param hname' hj
    have hle := le_slot_of_le hi
    omega
  · exact (Rebinding.slot_inj hi hj).1 h

theorem Rebinding.Uses.bound (h : ρ.Uses n i) (hn : ρ.params.length ≤ n) :
    i < n ∧ ρ.slot i < ρ.slot n := by
  have hle := le_slot_of_le hn
  rcases h with ⟨name, hname, h⟩ | ⟨hi, hlt⟩
  · have hlt := lt_of_lastPosition? h
    have hlt' := slot_lt_of_param hname h
    omega
  · rw [Rebinding.slot_of_le hi, Rebinding.slot_of_le hn]
    omega

theorem Rebinding.Uses.params (h : ρ.Uses n i) :
    i < ρ.params.length ↔ ρ.slot i < ρ.others.length := by
  rcases h with ⟨name, hname, h⟩ | ⟨hi, -⟩
  · exact iff_of_true (lt_of_lastPosition? h) (slot_lt_of_param hname h)
  · exact iff_of_false (Nat.not_lt_of_le hi) (Nat.not_lt_of_le (le_slot_of_le hi))

end Syntax

/-! ### Contexts -/

/-- The names of two contexts that bind some names to the same. -/
def Context.rebinding (a b : Context) (names : List String)
    (h : ∀ name ∈ names, a.find? name = b.find? name) : Rebinding where
  params := a.names
  others := b.names
  names := names
  same name hname := by
    rw [← not_iff_not, ← Bindings.find?_eq_none_iff, ← Bindings.find?_eq_none_iff, h name hname]

section

variable {a b : Context} {source : String} {mode : Mode} {s t : Store}
  (h : ∀ name ∈ sourceNames source, a.find? name = b.find? name)

/-- The code for the names of the other context. -/
def Context.recode (code : Code) : Code where
  mode := code.mode
  params := b.names
  body := code.body.renumber (a.rebinding b (sourceNames source) h).slot
  slotCount := (a.rebinding b (sourceNames source) h).slot code.slotCount

theorem compile_recode : Code.compile source b.names mode =
    (Code.compile source a.names mode).map (Context.recode h) := by
  let ρ := a.rebinding b (sourceNames source) h
  have hparse : parse source b.names mode =
      (parse source a.names mode).map (Program.renumber ρ.slot) :=
    parse_rebound (ρ := ρ) (List.Subset.refl _) mode
  unfold Code.compile
  rw [hparse]
  cases parse source a.names mode <;> rfl

theorem usesSlots_of_compile {code : Code} (hcode : Code.compile source a.names mode = .ok code) :
    code.params = a.names ∧ a.names.length ≤ code.slotCount ∧
      BodyUses ((a.rebinding b (sourceNames source) h).Uses code.slotCount) code.body := by
  let ρ := a.rebinding b (sourceNames source) h
  unfold Code.compile at hcode
  cases hparse : parse source a.names mode with
  | error e =>
    rw [hparse] at hcode
    cases hcode
  | ok program =>
    rw [hparse] at hcode
    cases hcode
    obtain ⟨hplaced, hle⟩ := placed_of_parse (ρ := ρ) (List.Subset.refl _) hparse
    exact ⟨rfl, hle, hplaced.uses⟩

/-- The frames of the two contexts hold the same in the slots that are used. -/
theorem rebound_frame {code : Code} (hcode : Code.compile source a.names mode = .ok code)
    (hstore : s.bare = t.bare) :
    (code.frame a.values s).Rebound ((a.rebinding b (sourceNames source) h).Uses code.slotCount)
      (a.rebinding b (sourceNames source) h).slot
      ((Context.recode h code).frame b.values t) := by
  let ρ := a.rebinding b (sourceNames source) h
  obtain ⟨hparams, hle, -⟩ := usesSlots_of_compile h hcode
  have hle' : ρ.others.length ≤ ρ.slot code.slotCount := le_slot_of_le hle
  have hslot : ∀ i, (code.frame a.values s).slot i = a.values[i]?.getD .undefined := fun i =>
    slot_frame (hparams ▸ hle) (hparams ▸ Bindings.length_values a) i s
  have hslot' : ∀ i, ((Context.recode h code).frame b.values t).slot i =
      b.values[i]?.getD .undefined := fun i =>
    slot_frame hle' (Bindings.length_values b) i t
  refine ⟨hstore, fun {i} hi => ?_, fun hi => ?_, fun {i} hi => ?_, fun hi hj => hi.inj hj⟩
  · rw [hslot, hslot']
    rcases hi with ⟨name, hname, hi⟩ | ⟨hi, -⟩
    · -- a parameter holds what the context binds its name to
      rw [← Bindings.find?_of_lastPosition? hi,
        ← Bindings.find?_of_lastPosition? (Rebinding.slot_of_param hi hname), h name hname]
    · have hnone : a.values[i]? = none :=
        List.getElem?_eq_none ((Bindings.length_values a).symm ▸ hi)
      have hnone' : b.values[ρ.slot i]? = none :=
        List.getElem?_eq_none ((Bindings.length_values b).symm ▸ le_slot_of_le hi)
      rw [hnone, hnone']
  · rw [size_frame, size_frame]
    exact hi.bound hle
  · show i < code.params.length ↔ _
    rw [hparams]
    exact hi.params

/-- A call over the other context gives the same and makes the same changes. -/
theorem same_call {code : Code} (hcode : Code.compile source a.names mode = .ok code)
    (hstore : s.bare = t.bare) :
    (code.call a.values s).1.bare = ((Context.recode h code).call b.values t).1.bare ∧
      (code.call a.values s).2 = ((Context.recode h code).call b.values t).2 := by
  obtain ⟨-, -, huses⟩ := usesSlots_of_compile h hcode
  obtain ⟨hend, hafter⟩ := alike_evalBody code.body huses (references a.values)
    (references b.values) _ _ (rebound_frame h hcode hstore)
  exact ⟨(Store.bare_letGo _ _ _).trans (hafter.store.trans (Store.bare_letGo _ _ _).symm),
    congrArg finished hend⟩

end

/-! ### Runs -/

/-- Why a text gives no value, whatever the parameters are: the key of a compilation shows them. -/
inductive Cause
  | denied (call : DeniedCall)
  | malformed (error : SyntaxError)
  | failed (error : EvalError)
  deriving Inhabited

/-- The error without the key of its compilation. -/
def InterpreterError.cause : InterpreterError → Cause
  | .denied call => .denied call
  | .malformed _ error => .malformed error
  | .failed _ error => .failed error

/-- Runs that end the same way: with the same value or for the same cause, with the same contents
of arrays, objects and cells, the same cells waiting for passes in the same order, and the same
taken down by host functions. -/
structure SameOutcome (r r' : Store × Except InterpreterError Value) : Prop where
  contents : r.1.SameContents r'.1
  recorded : r.1.notices.filter Notice.isRecorded = r'.1.notices.filter Notice.isRecorded
  result : r.2.mapError InterpreterError.cause = r'.2.mapError InterpreterError.cause

theorem SameOutcome.of_bare {r r' : Store × Except InterpreterError Value}
    (hstore : r.1.bare = r'.1.bare)
    (hresult : r.2.mapError InterpreterError.cause = r'.2.mapError InterpreterError.cause) :
    SameOutcome r r' := by
  have hfield : ∀ {α : Type} (field : Store → α), field r.1.bare = field r'.1.bare :=
    fun field => congrArg field hstore
  exact ⟨⟨hfield Store.arrays, hfield Store.objects, hfield Store.cells, hfield Store.queues,
    hfield Store.spawned⟩, hfield Store.notices, hresult⟩

namespace Interpreter

variable {i : Interpreter} {a b : Context} {source : String}

theorem contextOf_of_empty (hbase : i.base = .empty) (context : Context) :
    i.contextOf context = context := by
  rw [contextOf, hbase]
  rfl

/-- Without a base context, and without anything kept, a text runs the same over both contexts. -/
theorem same_runAfresh (hbase : i.base = .empty)
    (h : ∀ name ∈ sourceNames source, a.find? name = b.find? name) (s : Store) (mode : Mode) :
    (i.runAfresh s source a mode).1.bare = (i.runAfresh s source b mode).1.bare ∧
      (i.runAfresh s source a mode).2.mapError InterpreterError.cause =
        (i.runAfresh s source b mode).2.mapError InterpreterError.cause := by
  simp only [runAfresh, compileAfresh, contextOf_of_empty hbase, compile_recode h]
  cases i.validator.check source with
  | error call => exact ⟨rfl, rfl⟩
  | ok =>
    cases hcode : Code.compile source a.names mode with
    | error e => exact ⟨rfl, rfl⟩
    | ok code =>
      obtain ⟨hstore, hresult⟩ := same_call h hcode (s := s) rfl
      refine ⟨hstore, ?_⟩
      show Except.mapError _ (Except.mapError _ (code.call a.values s).2) =
        Except.mapError _ (Except.mapError _ ((Context.recode h code).call b.values s).2)
      rw [← hresult]
      cases (code.call a.values s).2 <;> rfl

theorem bare_letGoRead (s : Store) (context : Context)
    (result : Except InterpreterError Value) : (letGoRead s context result).bare = s.bare := by
  unfold letGoRead
  split
  · exact s.bare_letGo _ _
  · rfl

/-- Absorbed, results are the same that were so before. -/
theorem absorbed_same {r r' : Except InterpreterError Value}
    (h : r.mapError InterpreterError.cause = r'.mapError InterpreterError.cause) :
    (absorbed r).mapError InterpreterError.cause =
      (absorbed r').mapError InterpreterError.cause := by
  have hcause : ∀ r : Except InterpreterError Value,
      (absorbed r).mapError InterpreterError.cause =
        match r.mapError InterpreterError.cause with
        | .ok v => .ok v
        | .error (.denied call) => .error (.denied call)
        | .error _ => .ok .null := by
    rintro (e | v)
    · cases e <;> rfl
    · rfl
  rw [hcause, hcause, h]

theorem sameOutcome_runIn (hbase : i.base = .empty)
    (ha : i.FaithfulFor a.names) (hb : i.FaithfulFor b.names)
    (h : ∀ name ∈ sourceNames source, a.find? name = b.find? name) (s : Store) (mode : Mode)
    (manner : Manner) :
    SameOutcome (i.runIn s source a mode manner).2 (i.runIn s source b mode manner).2 := by
  have hcontext := contextOf_of_empty hbase
  obtain ⟨hstore, hresult⟩ := same_runAfresh hbase h s mode
  rw [← run_snd ((hcontext a).symm ▸ ha), ← run_snd ((hcontext b).symm ▸ hb)] at hstore hresult
  have hunwrap : (i.run s source a mode).2.1.unwrap = (i.run s source b mode).2.1.unwrap := by
    funext v
    rw [← Store.unwrap_bare, hstore, Store.unwrap_bare]
  have hread : SameOutcome (i.runRead s source a mode).2 (i.runRead s source b mode).2 := by
    refine .of_bare ?_ ?_
    · exact (bare_letGoRead _ _ _).trans (hstore.trans (bare_letGoRead _ _ _).symm)
    · have hmap : ∀ (r : Except InterpreterError Value) (f : Value → Value),
          (r.map f).mapError InterpreterError.cause =
            (r.mapError InterpreterError.cause).map f := by
        intro r f
        cases r <;> rfl
      exact (hmap _ _).trans ((congrArg₂ Except.map hunwrap hresult).trans (hmap _ _).symm)
  cases manner with
  | raw => exact .of_bare hstore hresult
  | read => exact hread
  | absorbing => exact ⟨hread.contents, hread.recorded, absorbed_same hread.result⟩

end Interpreter

/-- Only the names in a text matter: run by an interpreter that has kept nothing and has no base
context, over two contexts in which each name of the text is bound to the same value or unbound in
both, a text has the same outcome.  The contexts may have any other names, and their names in any
order. -/
theorem only_mentioned_names_matter (validator : Validator) (capacity serial : Nat) (s : Store)
    {source : String} {a b : Context}
    (h : ∀ name ∈ sourceNames source, a.find? name = b.find? name) (mode : Mode)
    (manner : Manner) :
    let i := Interpreter.fresh validator .empty capacity serial
    SameOutcome (i.runIn s source a mode manner).2 (i.runIn s source b mode manner).2 :=
  Interpreter.sameOutcome_runIn rfl (fun _ _ _ hmem => absurd hmem List.not_mem_nil)
    (fun _ _ _ hmem => absurd hmem List.not_mem_nil) h s mode manner

/-- A variable that is a copy of `a`, over a context that has `b` before `a`: all slots are others.
-/
theorem copied_over_more_names :
    let a : Context := .ofList [("a", .null)]
    let b : Context := .ofList [("b", .undefined), ("a", .null)]
    let i := Interpreter.fresh .standard .empty 2 0
    (∀ name ∈ sourceNames "let c = a; c", a.find? name = b.find? name) ∧
      SameOutcome (i.runIn .initial "let c = a; c" a .statement .read).2
        (i.runIn .initial "let c = a; c" b .statement .read).2 := by
  intro a b i
  have hnames : ∀ name ∈ sourceNames "let c = a; c", name = "c" ∨ name = "a" := by
    decide +kernel
  have h : ∀ name ∈ sourceNames "let c = a; c", a.find? name = b.find? name := by
    intro name hname
    rcases hnames name hname with rfl | rfl <;> rfl
  exact ⟨h, only_mentioned_names_matter .standard 2 0 .initial h .statement .read⟩

end LiveMarkup
