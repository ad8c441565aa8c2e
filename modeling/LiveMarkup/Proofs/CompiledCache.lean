import LiveMarkup.Interpreter.Dependencies
import LiveMarkup.Markup
import LiveMarkup.Proofs.BindingLaws
import Mathlib.Data.List.Basic

/-!
# Kept functions are invisible

An interpreter keeps what it has compiled under a key that shows the text, the mode and the names of
the parameters with commas between them.  Names have no commas, so the key of a compilation over
names stands for one list of names only; and a function is put under a key only when it has just
been compiled for it.  So whatever was done with an interpreter before, a kept function is the one
that a new compilation would give, and no answer of an interpreter shows what it keeps.

## Main definitions

* `commaPieces`, `Unmistakable` — what a key shows of names, and names that it shows exactly.
* `Interpreter.FaithfulFor`, `Interpreter.Faithful` — what is kept is what would be compiled.
* `Interpreter.compileAfresh`, `Interpreter.runAfresh` — compilation and running without a cache.
* `Call`, `Answer`, `Interpreter.answer` — what can be asked of an interpreter, and what it gives.

## Main results

* `CompileKey.of_eq_iff` — the lists of names that share a key.
* `CompileKey.of_inj` — a key over names stands for one text, list of names and mode.
* `Interpreter.run_snd` — a faithful interpreter runs a text as if it kept nothing.
* `cache_is_invisible` — after any calls, an interpreter answers like one that keeps nothing.
-/

namespace LiveMarkup

open Syntax Eval

/-! ### Keys -/

/-- Texts that are all names. -/
def AllNames (texts : List String) : Prop := ∀ text ∈ texts, isName text = true

instance (texts : List String) : Decidable (AllNames texts) :=
  inferInstanceAs (Decidable (∀ text ∈ texts, _))

theorem comma_notMem_of_isName {name : String} (h : isName name = true) : ',' ∉ name.toList := by
  unfold isName at h
  split at h
  · simp at h
  · next c cs heq =>
    rw [heq]
    simp only [Bool.and_eq_true, List.all_eq_true] at h
    rintro hmem
    rcases List.mem_cons.1 hmem with rfl | hmem
    · exact absurd h.1 (by decide)
    · exact absurd (h.2 _ hmem) (by decide)

/-- The pieces between the commas when names are written with commas between them.  No names are
written like one empty name. -/
def commaPieces : List String → List (List Char)
  | [] => [[]]
  | names => names.flatMap fun name => name.toList.splitOn ','

/-- Names that show where one ends and the next begins: no comma is in any of them, and they are not
one empty name, which looks like none. -/
def Unmistakable (names : List String) : Prop :=
  names ≠ [""] ∧ ∀ name ∈ names, ',' ∉ name.toList

instance (names : List String) : Decidable (Unmistakable names) :=
  inferInstanceAs (Decidable (_ ∧ ∀ name ∈ names, _))

/-- Cutting at the commas gives the pieces. -/
theorem splitOn_intercalate (names : List String) :
    (String.intercalate "," names).toList.splitOn ',' = commaPieces names := by
  rw [String.toList_intercalate]
  induction names with
  | nil => rfl
  | cons name rest ih =>
    cases rest with
    | nil => simp [commaPieces]
    | cons next rest =>
      -- the comma after the first name is the first cut that is not in a name
      have hfirst : [','].intercalate ((name :: next :: rest).map String.toList) =
          name.toList ++ ',' :: [','].intercalate ((next :: rest).map String.toList) := by
        rw [List.map_cons, List.map_cons, List.intercalate_cons_cons]
        simp
      show ([','].intercalate ((name :: next :: rest).map String.toList)).splitOn ',' = _
      rw [hfirst, List.splitOn_append_cons_self]
      exact congrArg (name.toList.splitOn ',' ++ ·) ih

/-- Names write the same text exactly if they have the same pieces. -/
theorem intercalate_eq_iff (names others : List String) :
    String.intercalate "," names = String.intercalate "," others ↔
      commaPieces names = commaPieces others := by
  rw [← splitOn_intercalate, ← splitOn_intercalate]
  refine ⟨fun h => by rw [h], fun h => String.toList_injective ?_⟩
  calc (String.intercalate "," names).toList
      = [','].intercalate ((String.intercalate "," names).toList.splitOn ',') :=
        (List.intercalate_splitOn ',').symm
    _ = [','].intercalate ((String.intercalate "," others).toList.splitOn ',') := by rw [h]
    _ = (String.intercalate "," others).toList := List.intercalate_splitOn ','

/-- The lists of names that share a key. -/
theorem CompileKey.of_eq_iff (source source' : String) (params params' : List String)
    (mode mode' : Mode) :
    CompileKey.of source params mode = CompileKey.of source' params' mode' ↔
      source = source' ∧ mode = mode' ∧ commaPieces params = commaPieces params' := by
  simp only [CompileKey.of, CompileKey.mk.injEq, intercalate_eq_iff]
  tauto

/-- Names without commas are their own pieces. -/
theorem commaPieces_of_no_comma {names : List String} (hne : names ≠ [])
    (h : ∀ name ∈ names, ',' ∉ name.toList) : commaPieces names = names.map String.toList := by
  rw [← splitOn_intercalate, String.toList_intercalate]
  refine List.splitOn_intercalate ',' ?_ (by simpa using hne)
  simpa using h

theorem Unmistakable.pieces_eq_nil {names : List String} (h : Unmistakable names)
    (hpieces : commaPieces names = [[]]) : names = [] := by
  by_contra hne
  rw [commaPieces_of_no_comma hne h.2, List.map_eq_singleton_iff] at hpieces
  obtain ⟨name, rfl, hname⟩ := hpieces
  exact h.1 (congrArg (fun name => [name]) (String.toList_injective hname))

/-- Names that cannot be mistaken are known from their pieces. -/
theorem Unmistakable.inj {names others : List String} (h : Unmistakable names)
    (h' : Unmistakable others) (heq : commaPieces names = commaPieces others) : names = others := by
  rcases eq_or_ne names [] with rfl | hne
  · exact (h'.pieces_eq_nil heq.symm).symm
  rcases eq_or_ne others [] with rfl | hne'
  · exact h.pieces_eq_nil heq
  rw [commaPieces_of_no_comma hne h.2, commaPieces_of_no_comma hne' h'.2] at heq
  exact List.map_injective_iff.2 (fun _ _ => String.toList_injective) heq

theorem AllNames.unmistakable {names : List String} (h : AllNames names) :
    Unmistakable names := by
  refine ⟨?_, fun name hname => comma_notMem_of_isName (h name hname)⟩
  rintro rfl
  -- the empty text is no name
  exact absurd (h "" (List.mem_singleton_self "")) (by decide)

theorem intercalate_inj {names others : List String} (h : AllNames names) (h' : AllNames others)
    (heq : String.intercalate "," names = String.intercalate "," others) : names = others :=
  h.unmistakable.inj h'.unmistakable ((intercalate_eq_iff names others).1 heq)

/-- A key over names stands for one text, list of names and mode. -/
theorem CompileKey.of_inj {source source' : String} {params params' : List String}
    {mode mode' : Mode} (h : AllNames params) (h' : AllNames params')
    (heq : CompileKey.of source params mode = CompileKey.of source' params' mode') :
    source = source' ∧ params = params' ∧ mode = mode' := by
  simp only [CompileKey.of, CompileKey.mk.injEq] at heq
  exact ⟨heq.2.1, intercalate_inj h h' heq.2.2, heq.1⟩

/-! ### Entries -/

namespace Recency

variable {κ α : Type} [DecidableEq κ] {m : Recency κ α} {key : κ} {x : α} {e : κ × α}

theorem mem_of_find? (h : m.find? key = some x) : (key, x) ∈ m.entries := by
  obtain ⟨_, _, heq, -⟩ := List.lookup_eq_some_iff.1 h
  rw [heq]
  simp

theorem mem_refresh (h : e ∈ (m.refresh key x).entries) : e ∈ m.entries ∨ e = (key, x) := by
  rcases List.mem_append.1 h with hold | hnew
  · exact .inl ((List.mem_filter.1 hold).1)
  · exact .inr (List.mem_singleton.1 hnew)

/-- A lookup finds an entry, and leaves none that was not there. -/
theorem mem_get (h : e ∈ (m.get key).1.entries) : e ∈ m.entries := by
  unfold get at h
  split at h
  · next y hfind =>
    rcases mem_refresh h with hold | rfl
    · exact hold
    · exact mem_of_find? hfind
  · exact h

theorem mem_of_get (h : (m.get key).2 = some x) : (key, x) ∈ m.entries := by
  unfold get at h
  split at h
  · next y hfind =>
    cases h
    exact mem_of_find? hfind
  · cases h

/-- An insertion brings one entry in, if any. -/
theorem mem_insert (h : e ∈ (m.insert key x).1.entries) : e ∈ m.entries ∨ e = (key, x) := by
  unfold insert at h
  split at h
  · exact .inl h
  · split at h
    · exact mem_refresh h
    · split at h
      · rcases List.mem_append.1 h with hold | hnew
        · exact .inl (List.mem_of_mem_tail hold)
        · exact .inr (List.mem_singleton.1 hnew)
      · rcases List.mem_append.1 h with hold | hnew
        · exact .inl hold
        · exact .inr (List.mem_singleton.1 hnew)

end Recency

/-! ### Compilation -/

namespace Interpreter

variable {i j : Interpreter}

/-- What is kept for a list of parameters is what would be compiled. -/
def FaithfulFor (i : Interpreter) (params : List String) : Prop :=
  ∀ source mode f, (CompileKey.of source params mode, f) ∈ i.cache.entries →
    Code.compile source params mode = .ok f.code

/-- What is kept for names is what would be compiled. -/
def Faithful (i : Interpreter) : Prop := ∀ params, AllNames params → i.FaithfulFor params

/-- Interpreters that deny the same calls and have the same base context. -/
structure Alike (i j : Interpreter) : Prop where
  validator : i.validator = j.validator
  base : i.base = j.base

theorem Alike.refl (i : Interpreter) : Alike i i := ⟨rfl, rfl⟩

theorem Alike.symm (h : Alike i j) : Alike j i := ⟨h.validator.symm, h.base.symm⟩

theorem Alike.trans {k : Interpreter} (h : Alike i j) (h' : Alike j k) : Alike i k :=
  ⟨h.validator.trans h'.validator, h.base.trans h'.base⟩

theorem Alike.contextOf (h : Alike i j) (context : Context) :
    i.contextOf context = j.contextOf context := by
  rw [Interpreter.contextOf, Interpreter.contextOf, h.base]

/-- What a text compiles to when nothing is kept. -/
def compileAfresh (i : Interpreter) (source : String) (params : List String) (mode : Mode) :
    Except InterpreterError Code :=
  match i.validator.check source with
  | .error call => .error (.denied call)
  | .ok () => (Code.compile source params mode).mapError (.malformed (.of source params mode))

/-- How a text runs when nothing is kept. -/
def runAfresh (i : Interpreter) (s : Store) (source : String) (context : Context) (mode : Mode) :
    Store × Except InterpreterError Value :=
  let context := i.contextOf context
  match i.compileAfresh source context.names mode with
  | .error e => (s, .error e)
  | .ok code =>
    let (s, result) := code.call context.values s
    (s, result.mapError (.failed (.of source context.names mode)))

theorem Alike.compileAfresh (h : Alike i j) (source : String) (params : List String) (mode : Mode) :
    i.compileAfresh source params mode = j.compileAfresh source params mode := by
  simp only [Interpreter.compileAfresh, h.validator]

theorem Alike.runAfresh (h : Alike i j) (s : Store) (source : String) (context : Context)
    (mode : Mode) : i.runAfresh s source context mode = j.runAfresh s source context mode := by
  simp only [Interpreter.runAfresh, h.contextOf, h.compileAfresh]

theorem alike_compile (i : Interpreter) (source : String) (params : List String) (mode : Mode) :
    Alike (i.compile source params mode).1 i := by
  unfold compile
  split
  · exact .refl i
  · unfold lookup
    split
    · exact ⟨rfl, rfl⟩
    · unfold make
      split <;> exact ⟨rfl, rfl⟩

/-- Every entry after a compilation was there before or has just been compiled for its key. -/
theorem mem_compile {source : String} {params : List String} {mode : Mode}
    {e : CompileKey × CompiledFunction} (h : e ∈ (i.compile source params mode).1.cache.entries) :
    e ∈ i.cache.entries ∨
      e.1 = .of source params mode ∧ Code.compile source params mode = .ok e.2.code := by
  unfold compile at h
  split at h
  · exact .inl h
  · unfold lookup at h
    split at h
    · next cache f heq =>
      have hcache : (i.cache.get (.of source params mode)).1 = cache := by rw [heq]
      exact .inl (Recency.mem_get (hcache ▸ h))
    · unfold make at h
      split at h
      · next code hcode =>
        rcases Recency.mem_insert h with hold | rfl
        · exact .inl hold
        · exact .inr ⟨rfl, hcode⟩
      · exact .inl h

theorem FaithfulFor.compile {params params' : List String} (h : i.FaithfulFor params)
    (hkey : String.intercalate "," params = String.intercalate "," params' → params = params')
    (source : String) (mode : Mode) : (i.compile source params' mode).1.FaithfulFor params := by
  intro source' mode' f hmem
  rcases mem_compile hmem with hold | ⟨heq, hcode⟩
  · exact h source' mode' f hold
  · simp only [CompileKey.of, CompileKey.mk.injEq] at heq
    obtain ⟨rfl, rfl, hparams⟩ := heq
    rw [hkey hparams]
    exact hcode

theorem Faithful.compile {params : List String} (h : i.Faithful) (hnames : AllNames params)
    (source : String) (mode : Mode) : (i.compile source params mode).1.Faithful :=
  fun params' hnames' =>
    (h params' hnames').compile (intercalate_inj hnames' hnames) source mode

/-- A faithful interpreter gives the function that a new compilation would give, and fails where
that would. -/
theorem compile_snd {params : List String} (h : i.FaithfulFor params) (source : String)
    (mode : Mode) :
    (i.compile source params mode).2.map CompiledFunction.code =
      i.compileAfresh source params mode := by
  unfold compile compileAfresh
  cases i.validator.check source with
  | error call => rfl
  | ok =>
    show (i.lookup (.of source params mode) params).2.map CompiledFunction.code =
      (Code.compile source params mode).mapError _
    unfold lookup
    split
    · next cache f heq =>
      have hfind : (i.cache.get (.of source params mode)).2 = some f := by rw [heq]
      rw [h source mode f (Recency.mem_of_get hfind)]
      rfl
    · unfold make CompileKey.of
      cases Code.compile source params mode <;> rfl

/-! ### Running -/

theorem run_fst (i : Interpreter) (s : Store) (source : String) (context : Context) (mode : Mode) :
    (i.run s source context mode).1 = (i.compile source (i.contextOf context).names mode).1 := by
  simp only [run]
  split
  · next j e heq => rw [heq]
  · next j f heq => rw [heq]

/-- A faithful interpreter runs a text as if it kept nothing. -/
theorem run_snd {context : Context} (h : i.FaithfulFor (i.contextOf context).names) (s : Store)
    (source : String) (mode : Mode) :
    (i.run s source context mode).2 = i.runAfresh s source context mode := by
  have hcode := compile_snd h source mode
  simp only [run, runAfresh]
  split
  · next j e heq =>
    rw [heq] at hcode
    rw [← hcode]
    rfl
  · next j f heq =>
    rw [heq] at hcode
    rw [← hcode]
    rfl

theorem alike_run (i : Interpreter) (s : Store) (source : String) (context : Context)
    (mode : Mode) : Alike (i.run s source context mode).1 i := by
  rw [run_fst]
  exact alike_compile i source _ mode

theorem FaithfulFor.run {context : Context} (h : i.FaithfulFor (i.contextOf context).names)
    (s : Store) (source : String) (mode : Mode) :
    (i.run s source context mode).1.FaithfulFor (i.contextOf context).names := by
  rw [run_fst]
  exact h.compile (fun _ => rfl) source mode

theorem runRead_fst (i : Interpreter) (s : Store) (source : String) (context : Context)
    (mode : Mode) : (i.runRead s source context mode).1 = (i.run s source context mode).1 := rfl

theorem runIn_fst (i : Interpreter) (s : Store) (source : String) (context : Context) (mode : Mode)
    (manner : Manner) :
    (i.runIn s source context mode manner).1 = (i.run s source context mode).1 := by
  cases manner <;> rfl

end Interpreter

/-! ### Two interpreters -/

namespace Interpreter

variable {i j : Interpreter}

/-- Faithful interpreters that deny the same calls and have the same base context of names. -/
structure Matched (i j : Interpreter) : Prop where
  alike : Alike i j
  left : i.Faithful
  right : j.Faithful
  base : AllNames i.base.names

/-- The names that a call of a function over a context gives values to. -/
theorem allNames_contextOf {context : Context} (hbase : AllNames i.base.names)
    (h : AllNames context.names) : AllNames (i.contextOf context).names := by
  unfold contextOf
  split
  · exact h
  · intro name hname
    rcases Bindings.mem_names_merge.1 hname with hold | hnew
    · exact hbase name hold
    · exact h name hnew

namespace Matched

variable {context : Context}

theorem compile (h : Matched i j) {params : List String} (hnames : AllNames params)
    (source : String) (mode : Mode) :
    Matched (i.compile source params mode).1 (j.compile source params mode).1 where
  alike := (alike_compile i ..).trans (h.alike.trans (alike_compile j ..).symm)
  left := h.left.compile hnames source mode
  right := h.right.compile hnames source mode
  base := (alike_compile i ..).base.symm ▸ h.base

theorem run (h : Matched i j) (hnames : AllNames context.names) (s : Store) (source : String)
    (mode : Mode) :
    Matched (i.run s source context mode).1 (j.run s source context mode).1 := by
  rw [run_fst, run_fst, ← h.alike.contextOf]
  exact h.compile (allNames_contextOf h.base hnames) source mode

theorem compile_eq (h : Matched i j) {params : List String} (hnames : AllNames params)
    (source : String) (mode : Mode) :
    (i.compile source params mode).2.map CompiledFunction.code =
      (j.compile source params mode).2.map CompiledFunction.code := by
  rw [compile_snd (h.left params hnames), compile_snd (h.right params hnames),
    h.alike.compileAfresh]

theorem run_eq (h : Matched i j) (hnames : AllNames context.names) (s : Store) (source : String)
    (mode : Mode) : (i.run s source context mode).2 = (j.run s source context mode).2 := by
  have hall := allNames_contextOf h.base hnames
  rw [run_snd (h.left _ hall), run_snd (h.right _ (h.alike.contextOf context ▸ hall)),
    h.alike.runAfresh]

theorem runIn_eq (h : Matched i j) (hnames : AllNames context.names) (s : Store) (source : String)
    (mode : Mode) (manner : Manner) :
    (i.runIn s source context mode manner).2 = (j.runIn s source context mode manner).2 := by
  have heq := h.run_eq hnames s source mode
  have hcontext := (h.run hnames s source mode).alike.contextOf context
  rcases hi : i.run s source context mode with ⟨i', t, result⟩
  rcases hj : j.run s source context mode with ⟨j', t', result'⟩
  rw [hi, hj] at heq hcontext
  obtain ⟨rfl, rfl⟩ := Prod.mk.inj heq
  cases manner <;> simp only [Interpreter.runIn, runRead, hi, hj, hcontext]

theorem runIn (h : Matched i j) (hnames : AllNames context.names) (s : Store) (source : String)
    (mode : Mode) (manner : Manner) :
    Matched (i.runIn s source context mode manner).1 (j.runIn s source context mode manner).1 := by
  rw [runIn_fst, runIn_fst]
  exact h.run hnames s source mode

/-- Names are looked up one after another, and each lookup is a run. -/
theorem cellsBehind (hnames : AllNames context.names) (names : List String) :
    ∀ {i j : Interpreter} (_ : Matched i j) (s : Store) (found : CellSet),
      (i.cellsBehind s context found names).2 = (j.cellsBehind s context found names).2 ∧
        Matched (i.cellsBehind s context found names).1
          (j.cellsBehind s context found names).1 := by
  induction names with
  | nil => exact fun h _ _ => ⟨rfl, h⟩
  | cons name rest ih =>
    intro i j h s found
    have heq := h.run_eq hnames s name .expression
    have hnext := h.run hnames s name .expression
    simp only [Interpreter.cellsBehind, evaluateRaw]
    rcases hi : i.run s name context .expression with ⟨i', s', result⟩
    rcases hj : j.run s name context .expression with ⟨j', s'', result'⟩
    rw [hi, hj] at heq hnext
    obtain ⟨rfl, rfl⟩ := Prod.mk.inj heq
    cases result with
    | ok v => exact ih hnext s' _
    | error e => exact ih hnext s' _

end Matched

end Interpreter

/-! ### Calls -/

/-- What can be asked of an interpreter. -/
inductive Call
  | compile (source : String) (params : List String) (mode : Mode)
  | run (source : String) (context : Context) (mode : Mode) (manner : Manner)
  | dependencies (source : String) (scope : Scope)
  | parseState (text : String)
  | clearCache

/-- The names that a call gives an interpreter as parameters. -/
def Call.names : Call → List String
  | .compile _ params _ => params
  | .run _ context _ _ => context.names
  | .dependencies _ scope => scope.names
  | .parseState _ | .clearCache => []

/-- What an interpreter gives for a call.  A compiled function is shown by its code. -/
inductive Answer
  | compiled (result : Except InterpreterError Code)
  | value (result : Except InterpreterError Value)
  | cells (found : CellSet)
  | scope (result : Except StateLiteralError Scope)
  | done

namespace Interpreter

variable {i j : Interpreter}

/-- Answers a call.  The store comes out beside the answer, with all that the call has done to it:
new values and cells, writes, and the passes that have been asked for. -/
def answer (i : Interpreter) (s : Store) : Call → Interpreter × Store × Answer
  | .compile source params mode =>
    let (i, result) := i.compile source params mode
    (i, s, .compiled (result.map CompiledFunction.code))
  | .run source context mode manner =>
    let (i, s, result) := i.runIn s source context mode manner
    (i, s, .value result)
  | .dependencies source scope =>
    let (i, s, found) := i.dependencies s source scope
    (i, s, .cells found)
  | .parseState text =>
    let (i, s, result) := i.parseState s text
    (i, s, .scope result)
  | .clearCache => (i.clearCache, s, .done)

/-- The interpreter after calls, each on the store that is there at the time. -/
def after (i : Interpreter) (calls : List (Store × Call)) : Interpreter :=
  calls.foldl (fun i call => (i.answer call.1 call.2).1) i

/-- An interpreter as it is made. -/
def fresh (validator : Validator) (base : Context) (capacity serial : Nat) : Interpreter :=
  { validator, base, cache := { capacity }, serial }

theorem faithful_fresh (validator : Validator) (base : Context) (capacity serial : Nat) :
    (fresh validator base capacity serial).Faithful :=
  fun _ _ _ _ _ hmem => absurd hmem List.not_mem_nil

/-- The name of the state bag is a name, too. -/
theorem allNames_context {scope : Scope} (hnames : AllNames scope.names) (s : Store) :
    AllNames (scope.context s).2.names := by
  intro name hname
  rcases Bindings.mem_names_insert.1 hname with hold | rfl
  · exact hnames name (by rwa [Bindings.names_map] at hold)
  · decide +kernel

namespace Matched

theorem dependencies (h : Matched i j) {scope : Scope} (hnames : AllNames scope.names) (s : Store)
    (source : String) :
    (i.dependencies s source scope).2 = (j.dependencies s source scope).2 ∧
      Matched (i.dependencies s source scope).1 (j.dependencies s source scope).1 := by
  unfold Interpreter.dependencies
  split
  · exact ⟨rfl, h⟩
  · exact cellsBehind (allNames_context hnames s) _ h _ _

theorem parseState (h : Matched i j) (s : Store) (text : String) :
    (i.parseState s text).2 = (j.parseState s text).2 ∧
      Matched (i.parseState s text).1 (j.parseState s text).1 := by
  unfold Interpreter.parseState
  split
  · exact ⟨rfl, h⟩
  · have hnone : AllNames (Bindings.empty : Context).names := fun _ hname => nomatch hname
    have heq := h.runIn_eq hnone s (Text.trimmed text) .expression .read
    have hnext := h.runIn hnone s (Text.trimmed text) .expression .read
    simp only [Interpreter.runIn] at heq hnext
    simp only [evaluate]
    rcases hi : i.runRead s (Text.trimmed text) .empty .expression with ⟨i', s', result⟩
    rcases hj : j.runRead s (Text.trimmed text) .empty .expression with ⟨j', s'', result'⟩
    rw [hi, hj] at heq hnext
    obtain ⟨rfl, rfl⟩ := Prod.mk.inj heq
    cases result with
    | ok v => exact ⟨rfl, hnext⟩
    | error e => exact ⟨rfl, hnext⟩

/-- One call: the same answer, and interpreters that are matched again. -/
theorem answer (h : Matched i j) (s : Store) {call : Call} (hnames : AllNames call.names) :
    (i.answer s call).2 = (j.answer s call).2 ∧
      Matched (i.answer s call).1 (j.answer s call).1 := by
  cases call with
  | compile source params mode =>
    have hparams : AllNames params := hnames
    have heq := h.compile_eq hparams source mode
    simp only [Interpreter.answer, heq, true_and]
    exact h.compile hnames source mode
  | run source context mode manner =>
    have heq := h.runIn_eq hnames s source mode manner
    simp only [Interpreter.answer, heq, true_and]
    exact h.runIn hnames s source mode manner
  | dependencies source scope =>
    obtain ⟨heq, hnext⟩ := h.dependencies hnames s source
    simp only [Interpreter.answer, heq, true_and]
    exact hnext
  | parseState text =>
    obtain ⟨heq, hnext⟩ := h.parseState s text
    simp only [Interpreter.answer, heq, true_and]
    exact hnext
  | clearCache =>
    have hbare : ∀ i : Interpreter, i.clearCache.Faithful :=
      fun _ _ _ _ _ _ hmem => absurd hmem List.not_mem_nil
    exact ⟨rfl, ⟨h.alike.validator, h.alike.base⟩, hbare i, hbare j, h.base⟩

/-- Many calls: the interpreters are matched after them. -/
theorem after (calls : List (Store × Call)) :
    ∀ {i j : Interpreter} (_ : Matched i j) (_ : ∀ call ∈ calls, AllNames call.2.names),
      Matched (i.after calls) (j.after calls) := by
  induction calls with
  | nil => exact fun h _ => h
  | cons call rest ih =>
    intro i j h hnames
    exact ih (h.answer call.1 (hnames call (by simp))).2 fun call' hmem =>
      hnames call' (List.mem_cons_of_mem _ hmem)

end Matched

/-! No call changes what an interpreter denies or has at its base. -/

theorem alike_cellsBehind (context : Context) (names : List String) :
    ∀ (i : Interpreter) (s : Store) (found : CellSet),
      Alike (i.cellsBehind s context found names).1 i := by
  induction names with
  | nil => exact fun i _ _ => .refl i
  | cons name rest ih =>
    intro i s found
    have hrun := alike_run i s name context .expression
    simp only [cellsBehind, evaluateRaw]
    split
    · next j t v heq => exact (ih j t _).trans (by rwa [heq] at hrun)
    · next j t e heq => exact (ih j t _).trans (by rwa [heq] at hrun)

theorem alike_answer (i : Interpreter) (s : Store) (call : Call) :
    Alike (i.answer s call).1 i := by
  cases call with
  | compile source params mode =>
    simp only [answer]
    exact alike_compile i source params mode
  | run source context mode manner =>
    simp only [answer, runIn_fst]
    exact alike_run i s source context mode
  | dependencies source scope =>
    simp only [answer, dependencies]
    split
    · exact .refl i
    · exact alike_cellsBehind _ _ i _ _
  | parseState text =>
    have hrun := alike_run i s (Text.trimmed text) .empty .expression
    rw [← runRead_fst] at hrun
    simp only [answer, parseState, evaluate]
    split
    · exact .refl i
    · split
      · next heq => rwa [heq] at hrun
      · next heq => rwa [heq] at hrun
  | clearCache => exact ⟨rfl, rfl⟩

theorem alike_after (calls : List (Store × Call)) :
    ∀ i : Interpreter, Alike (i.after calls) i := by
  induction calls with
  | nil => exact .refl
  | cons call rest ih => exact fun i => (ih _).trans (alike_answer i call.1 call.2)

end Interpreter

open Interpreter in
/-- No answer shows what is kept.  Whatever has been asked of an interpreter before, on whatever
stores, a call gives the same answer and leaves the same store as if it were the first one made to
an interpreter that keeps nothing. -/
theorem cache_is_invisible (validator : Validator) (base : Context) (capacity serial serial' : Nat)
    (hbase : AllNames base.names) (earlier : List (Store × Call))
    (hearlier : ∀ call ∈ earlier, AllNames call.2.names) (s : Store) (call : Call)
    (hcall : AllNames call.names) :
    (((fresh validator base capacity serial).after earlier).answer s call).2 =
      ((fresh validator base 0 serial').answer s call).2 := by
  have hstart : Matched (fresh validator base capacity serial) (fresh validator base 0 serial') :=
    ⟨⟨rfl, rfl⟩, faithful_fresh validator base _ _, faithful_fresh validator base _ _, hbase⟩
  have halike := alike_after earlier (fresh validator base capacity serial)
  have hafter : Matched ((fresh validator base capacity serial).after earlier)
      (fresh validator base 0 serial') :=
    ⟨halike.trans hstart.alike, (hstart.after earlier hearlier).left, hstart.right,
      halike.base.symm ▸ hbase⟩
  exact (hafter.answer s hcall).1

open Interpreter in
/-- A run over a context, the same shape compiled in the other mode, and a text that takes the first
function out of a cache with room for two. -/
theorem sum_is_answered_afresh :
    let context : Context := Bindings.ofList [("count", .bool true), ("step", .null)]
    let earlier : List (Store × Call) := [
      (.initial, .run "count + step" context .expression .read),
      (.initial, .compile "count + step" ["count", "step"] .statement),
      (.initial, .compile "step" ["step"] .expression)]
    (((fresh .standard .empty 2 0).after earlier).answer .initial
        (.run "count + step" context .expression .raw)).2 =
      ((fresh .standard .empty 0 1).answer .initial
        (.run "count + step" context .expression .raw)).2 :=
  cache_is_invisible .standard .empty 2 0 1 (by decide) _ (by decide) _ _ (by decide)

end LiveMarkup
