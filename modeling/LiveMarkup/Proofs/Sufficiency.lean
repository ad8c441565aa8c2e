import LiveMarkup.Proofs.Mentions
import LiveMarkup.Proofs.Reruns

/-!
# Dependencies are sufficient

A text evaluated over the context of a scope can read only what it names: the cells that are found
as its dependencies, the `Math` object, the values of the base context, and what can be reached from
these.  So two stores that agree on all this give it the same outcome, however they differ
elsewhere.  What the text makes goes by other references in the one than in the other, and
everything else is equal.

The state bag is the exception: it leads to every cell of the scope, so a text that names it depends
on all of them.

## Main definitions

* `Store.Reaches` — what can be reached from where.
* `Store.AgreesOn` — two stores have something with the same contents.
* `Interpreter.roots` — what a text can name.
* `Interpreter.evaluateIn` — evaluation over the context of a scope.

## Main results

* `between_sharing` — stores that agree on all that can be reached are the same there.
* `dependencies_suffice` — they give a text the same outcome.
-/

namespace LiveMarkup

open Syntax Eval
open Named (Same)

/-! ### What can be reached -/

/-- What can be reached from the roots through contents. -/
inductive Store.Reaches (s : Store) (roots : List Entity) : Entity → Prop
  | root {e : Entity} (h : e ∈ roots) : s.Reaches roots e
  | step {e f : Entity} (h : s.Reaches roots e) (hf : f ∈ s.referents e) : s.Reaches roots f

/-- What has the roots and is closed has all that can be reached. -/
theorem Store.Reaches.mem_of_closed {s : Store} {roots es : List Entity} {e : Entity}
    (h : s.Reaches roots e) (hroots : ∀ e ∈ roots, e ∈ es)
    (hclosed : ∀ e ∈ es, ∀ f ∈ s.referents e, f ∈ es) : e ∈ es := by
  induction h with
  | root he => exact hroots _ he
  | step _ hf ih => exact hclosed _ ih _ hf

/-- Both stores have something, with the same contents. -/
structure Store.AgreesOn (s t : Store) (e : Entity) : Prop where
  made : s.hasMade e = true ∧ t.hasMade e = true
  contents : s.contents e = t.contents e

/-- The naming under which what can be reached keeps its names. -/
def Store.sharing (s : Store) (roots : List Entity) : Naming := fun e f => e = f ∧ s.Reaches roots e

section Self

variable {ρ : Naming}

theorem same_self {v : Value} (h : ∀ e, v.entity? = some e → ρ e e) : Same ρ v v := by
  cases v with
  | array r => exact .array (h _ rfl)
  | object r => exact .object (h _ rfl)
  | cell r => exact .cell (h _ rfl)
  | _ => exact .plain rfl

theorem same_self_of_references {vs : List Value} (h : ∀ e ∈ references vs, ρ e e) {v : Value}
    (hv : v ∈ vs) : Same ρ v v :=
  same_self fun e he => h e (List.mem_filterMap.2 ⟨v, hv, he⟩)

/-- Contents whose references keep their names are the same. -/
theorem same_self_contents (s : Store) (e : Entity) (h : ∀ f ∈ s.referents e, ρ f f) :
    Same ρ (s.contents e) (s.contents e) := by
  cases e with
  | array r =>
    have hitems : Same ρ (s.items r) (s.items r) :=
      List.forall₂_same.2 fun v hv => same_self_of_references h hv
    exact hitems
  | object r =>
    have hproperties : Same ρ (s.properties r) (s.properties r) :=
      List.forall₂_same.2 fun p hp =>
        ⟨rfl, same_self_of_references h (List.mem_map_of_mem (f := Prod.snd) hp)⟩
    exact hproperties
  | cell r =>
    have hprevious : Same ρ (s.cellState r).previous (s.cellState r).previous := by
      cases hv : (s.cellState r).previous with
      | none => exact .none
      | some v => exact .some (same_self_of_references h (by simp [hv]))
    exact ⟨same_self_of_references h (by simp), hprevious⟩

end Self

/-- A naming fits stores that agree on all that can be reached. -/
theorem between_sharing {s t : Store} {roots : List Entity}
    (h : ∀ e, s.Reaches roots e → s.AgreesOn t e) : (s.sharing roots).Between s t where
  one_to_one := by
    rintro e _ e' _ ⟨rfl, -⟩ ⟨rfl, -⟩
    exact Iff.rfl
  made := by
    rintro e _ ⟨rfl, he⟩
    exact (h e he).made
  contents := by
    rintro e _ ⟨rfl, he⟩
    rw [← (h e he).contents]
    exact same_self_contents s e fun f hf => ⟨rfl, he.step hf⟩

/-! ### Contexts -/

namespace Interpreter

variable {i : Interpreter} {s t : Store} {scope : Scope} {source : String}

/-- What a text over the context of a scope can name, but for the state bag: its dependencies, the
`Math` object and what the base context has. -/
def roots (i : Interpreter) (s : Store) (source : String) (scope : Scope) : List Entity :=
  (i.dependencies s source scope).2.2.cells.map Entity.cell ++
    .object mathObject :: references i.base.values

/-- Evaluates a text over the context of a scope. -/
def evaluateIn (i : Interpreter) (s : Store) (source : String) (scope : Scope) :
    Store × Except InterpreterError Value :=
  let (s, context) := scope.context s
  (i.evaluate s source context).2

/-- The names of a context are the same whatever it binds them to. -/
theorem names_contextOf {context context' : Context} (h : context.names = context'.names) :
    (i.contextOf context).names = (i.contextOf context').names := by
  unfold contextOf
  split
  · exact h
  · exact Bindings.names_insertAll_eq rfl h

theorem names_context (scope : Scope) (s t : Store) :
    (scope.context s).2.names = (scope.context t).2.names := by
  show (Bindings.insert _ _ _).names = (Bindings.insert _ _ _).names
  rw [Bindings.names_insert, Bindings.names_insert]

/-- What is called with the values of a context has a slot for each of its names. -/
theorem slot_contextOf {context : Context} {code : Code} {name : String} {slot : Nat}
    (hparams : code.params = (i.contextOf context).names)
    (hcount : code.slotCount = code.params.length)
    (hslot : lastPosition? (i.contextOf context).names name = some slot) (s : Store) :
    (code.frame (i.contextOf context).values s).slot slot =
      ((context.find? name).or (i.base.find? name)).getD .undefined := by
  rw [slot_frame (Nat.le_of_eq hcount.symm) (hparams ▸ Bindings.length_values _),
    ← Bindings.find?_of_lastPosition? hslot, find?_contextOf]

/-- A word of the text that is bound to something refers to a root. -/
theorem mem_roots {name : String} {v : Value} {e : Entity}
    (hi : i.FaithfulFor (i.contextOf (scope.context s).2).names)
    (hignored : ∀ word ∈ ignoredWords, scope.contains word = false)
    (hword : name ∈ Scan.words .between source.toList) (hreserved : isReserved name = false)
    (hv : ((scope.find? name).map Value.cell).or (i.base.find? name) = some v)
    (he : v.entity? = some e) : e ∈ i.roots s source scope := by
  cases hscope : scope.find? name with
  | some c =>
    rw [hscope] at hv
    cases hv
    cases he
    -- the search leaves ignored words out, so the scope must not have them
    have hnot : name ∉ ignoredWords := by
      intro hmem
      have hcontains := Bindings.contains_of_find? hscope
      rw [hignored name hmem] at hcontains
      cases hcontains
    have hmentioned : name ∈ mentionedNames source :=
      mem_mentionedNames.2 ⟨hword, by simp [isIgnored, hreserved, hnot]⟩
    exact List.mem_append_left _
      (List.mem_map_of_mem (mem_dependencies hi hmentioned hscope))
  | none =>
    rw [hscope] at hv
    have hreferences : e ∈ references i.base.values :=
      List.mem_filterMap.2 ⟨v, Bindings.mem_values_of_find? hv, he⟩
    exact List.mem_append_right _ (List.mem_cons_of_mem _ hreferences)

end Interpreter

/-! ### Two runs -/

/-- A slot of a name that is among `found` and no reserved word. -/
def SlotOf (params found : List String) (slot : Nat) : Prop :=
  ∃ name ∈ found, isReserved name = false ∧ lastPosition? params name = some slot

/-- What a text compiles to over parameters uses the slots of its words only. -/
theorem uses_of_compile {source : String} {params : List String} {code : Code}
    (hquiet : QuietComments source) (h : Code.compile source params .expression = .ok code) :
    ∃ e, code.body = .expression e ∧ code.params = params ∧ code.slotCount = code.params.length ∧
      e.All (UsesSlots (SlotOf params (Scan.words .between source.toList))) := by
  unfold Code.compile at h
  cases hparse : parse source params .expression with
  | error e =>
    rw [hparse] at h
    cases h
  | ok program =>
    rw [hparse] at h
    cases h
    obtain ⟨tokens, e, htokens, hbody, hslots, hall⟩ := resolved_of_parse hparse
    refine ⟨e, hbody, rfl, hslots, fun x hx => ?_⟩
    have hresolved := hall x hx
    cases x with
    | param slot name =>
      obtain ⟨hopen, hreserved, hslot⟩ := hresolved
      exact ⟨name, openNames_subset_words htokens hquiet hopen, hreserved, hslot⟩
    | declared => exact hresolved.elim
    | _ => trivial

instance : Named InterpreterError := Named.ofEq InterpreterError

namespace Interpreter

variable {i : Interpreter} {s t : Store} {scope : Scope} {source : String}

variable (hi : i.FaithfulFor (i.contextOf (scope.context s).2).names)
  (hignored : ∀ word ∈ ignoredWords, scope.contains word = false)
  (hbag : stateBagName ∉ Scan.words .between source.toList)
  (hagree : ∀ e, s.Reaches (i.roots s source scope) e → s.AgreesOn t e)

include hagree in
/-- The state bag is new in both stores. -/
theorem between_context :
    (s.sharing (i.roots s source scope)).Between (scope.context s).1 (scope.context t).1 :=
  (between_sharing hagree).kept (s.keeps_newObject _) (t.keeps_newObject _)

include hi hignored hbag hagree

/-- The slots of the words of a text hold the same in both stores. -/
theorem agrees_frame {code : Code} (hparams : code.params = (i.contextOf (scope.context s).2).names)
    (hcount : code.slotCount = code.params.length) :
    (code.frame (i.contextOf (scope.context s).2).values (scope.context s).1).Agrees
      (SlotOf (i.contextOf (scope.context s).2).names (Scan.words .between source.toList))
      (s.sharing (i.roots s source scope))
      (code.frame (i.contextOf (scope.context t).2).values (scope.context t).1) where
  store := between_context hagree
  params := rfl
  size := by simp only [Code.frame, List.size_toArray, length_resized]
  slot := by
    rintro slot ⟨name, hword, hreserved, hslot⟩
    have hne : name ≠ stateBagName := fun heq => hbag (heq ▸ hword)
    have hnames := names_contextOf (i := i) (names_context scope s t)
    -- only the state bag is bound to different values, and the text does not name it
    rw [slot_contextOf hparams hcount hslot,
      slot_contextOf (hparams.trans hnames) hcount (hnames ▸ hslot), find?_context hne,
      find?_context hne]
    cases hv : ((scope.find? name).map Value.cell).or (i.base.find? name) with
    | none => exact .plain rfl
    | some v =>
      exact same_self fun e he => ⟨rfl, .root (mem_roots hi hignored hword hreserved hv he)⟩

/-- If nothing is kept, the text runs the same in both stores. -/
theorem yields_runAfresh (hquiet : QuietComments source) :
    (s.sharing (i.roots s source scope)).Yields
      (i.runAfresh (scope.context s).1 source (scope.context s).2 .expression)
      (i.runAfresh (scope.context t).1 source (scope.context t).2 .expression) := by
  have hmath : s.sharing (i.roots s source scope) (.object mathObject) (.object mathObject) :=
    ⟨rfl, .root (by simp [roots])⟩
  -- compilation sees the names only, which are the same in both stores
  unfold runAfresh compileAfresh
  simp only [← names_contextOf (i := i) (names_context scope s t)]
  cases i.validator.check source with
  | error call => exact .of_between (between_context hagree) (.error rfl)
  | ok =>
    dsimp only
    cases hcompile : Code.compile source (i.contextOf (scope.context s).2).names .expression with
    | error e => exact .of_between (between_context hagree) (.error rfl)
    | ok code =>
      obtain ⟨e, hbody, hparams, hcount, huses⟩ := uses_of_compile hquiet hcompile
      have hframes := agrees_frame hi hignored hbag hagree hparams hcount
      exact (yields_call hmath hbody huses hframes).map fun _ _ h =>
        h.mapError fun _ _ herror => congrArg _ herror

end Interpreter

/-- A result of which a cell has been read lets go of nothing that shows. -/
theorem keeps_letGoRead (s : Store) (context : Context) (result : Except InterpreterError Value) :
    s.Keeps [] (Interpreter.letGoRead s context result) := by
  unfold Interpreter.letGoRead
  split
  · exact s.keeps_letGo _ _
  · exact .refl s

/-- The dependencies of a text are sufficient.  Let two stores have the same in every cell that is
found as a dependency, in `Math`, and in everything that can be reached from these.  Then evaluation
over the context of the scope has the same outcome in both: the same error, or values that are the
same up to a naming that leaves what can be reached as it is named, and the stores afterwards are
the same up to this naming, too.

No name of the scope is an ignored word, the text does not have the name of the state bag as a word,
and no comment of it has a quote.  The interpreter may keep anything, as long as what it keeps for
the names of the context is what it would compile; the values of its base context, if there are any,
count as dependencies. -/
theorem dependencies_suffice {i : Interpreter} {s t : Store} {scope : Scope} {source : String}
    (hi : i.FaithfulFor (i.contextOf (scope.context s).2).names)
    (hignored : ∀ word ∈ ignoredWords, scope.contains word = false)
    (hbag : stateBagName ∉ Scan.words .between source.toList) (hquiet : QuietComments source)
    (hagree : ∀ e, s.Reaches (i.roots s source scope) e → s.AgreesOn t e) :
    (s.sharing (i.roots s source scope)).Yields (i.evaluateIn s source scope)
      (i.evaluateIn t source scope) := by
  have hnames := Interpreter.names_contextOf (i := i) (Interpreter.names_context scope s t)
  have hrun := Interpreter.yields_runAfresh hi hignored hbag hagree hquiet
  rw [← Interpreter.run_snd hi, ← Interpreter.run_snd (hnames ▸ hi)] at hrun
  obtain ⟨ρ, hle, hstores, hsame⟩ := hrun
  refine ⟨ρ, hle, hstores.kept (keeps_letGoRead ..) (keeps_letGoRead ..), ?_⟩
  exact hsame.mapOk fun _ _ hv => hstores.unwrap hv

/-- The text reads the cell `a` and adds to the array in it.  The stores differ in the cell `b`, and
one of them has an array more, so that what the text makes goes by other references. -/
theorem push_is_unaffected :
    let scope : Scope := Bindings.ofList [("a", ⟨0⟩), ("b", ⟨1⟩)]
    let s : Store :=
      { Store.initial with
        arrays := #[[.bool true]]
        cells := #[{ held := .array ⟨0⟩ }, { held := .null }] }
    let t : Store :=
      { Store.initial with
        arrays := #[[.bool true], [.null]]
        cells := #[{ held := .array ⟨0⟩ }, { held := .array ⟨1⟩ }] }
    (s.sharing (Interpreter.roots {} s "[a, a.push(null)]" scope)).Yields
      (Interpreter.evaluateIn {} s "[a, a.push(null)]" scope)
      (Interpreter.evaluateIn {} t "[a, a.push(null)]" scope) := by
  intro scope s t
  let reached : List Entity := [.cell ⟨0⟩, .object mathObject, .array ⟨0⟩]
  have hroots : ∀ e ∈ Interpreter.roots {} s "[a, a.push(null)]" scope, e ∈ reached := by
    decide +kernel
  have hclosed : ∀ e ∈ reached, ∀ f ∈ s.referents e, f ∈ reached := by decide +kernel
  have hagree : ∀ e ∈ reached, s.AgreesOn t e := by
    rintro e he
    simp only [reached, List.mem_cons, List.not_mem_nil, or_false] at he
    rcases he with rfl | rfl | rfl <;> exact ⟨⟨rfl, rfl⟩, rfl⟩
  exact dependencies_suffice (fun _ _ _ hmem => absurd hmem List.not_mem_nil) (by decide)
    (by decide +kernel) (by decide +kernel) fun e he => hagree e (he.mem_of_closed hroots hclosed)

end LiveMarkup
