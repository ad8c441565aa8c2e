import LiveMarkup.Proofs.CompiledCache
import Mathlib.Data.List.Dedup
import Mathlib.Data.List.DropRight

/-!
# The functions used last are kept

An interpreter with room for `c` functions keeps exactly those that were used last.  A use is a
lookup of a text that has no denied call and is in the language: it finds its function or makes it,
and either way the key of the function goes to the end.  All other lookups leave what is kept as it
is.  So the keys that are kept are the last `c` of the distinct keys used, in the order of their
last uses, and how a key got there does not matter.

A call may look several texts up.  What it looks up depends on the call and on the names of the base
context, but neither on the store nor on what is kept, so two interpreters that differ in their
capacity only have the same uses.

## Main definitions

* `lastUsed` — the distinct keys of a list in the order of their last places, up to so many.
* `Lookup`, `Interpreter.lookups` — what a call looks up.
* `Interpreter.usedKeys` — the keys of the functions that calls find or make.
* `Interpreter.compilations` — how many lookups make a function.
* `sinceClear`, `upToClear` — the calls after and up to the last one that takes everything out.

## Main results

* `Interpreter.keys_lookUp` — what one lookup makes of the keys that are kept.
* `Interpreter.kept_after` — what the keys and the counter are after any calls.
* `keeps_the_last_used` — the keys that are kept are those used last, at every capacity.
-/

namespace LiveMarkup

open Syntax Eval

/-! ### The last distinct elements of a list -/

section Last

variable {α : Type}

theorem rtake_append_of_le {xs ys : List α} {n : Nat} (h : n ≤ ys.length) :
    (xs ++ ys).rtake n = ys.rtake n := by
  rw [List.rtake, List.rtake, List.length_append, List.drop_append,
    List.drop_eq_nil_of_le (by omega), List.nil_append]
  congr 1
  omega

theorem rtake_of_length_le {xs : List α} {n : Nat} (h : xs.length ≤ n) : xs.rtake n = xs := by
  rw [List.rtake, Nat.sub_eq_zero_of_le h, List.drop_zero]

theorem length_rtake_le (n : Nat) (xs : List α) : (xs.rtake n).length ≤ n := by
  rw [List.rtake, List.length_drop]
  omega

/-- What is among the last so many is among the last of one more. -/
theorem rtake_suffix_rtake_succ (n : Nat) (xs : List α) : xs.rtake n <:+ xs.rtake (n + 1) :=
  List.drop_suffix_drop_left xs (by omega)

variable [DecidableEq α]

/-- The distinct elements of a list, each at its last place, and of these the last so many. -/
def lastUsed (count : Nat) (keys : List α) : List α := keys.dedup.rtake count

/-- One more use puts an element at the end and takes it from where it was. -/
theorem dedup_concat (keys : List α) (key : α) :
    (keys ++ [key]).dedup = keys.dedup.filter (· != key) ++ [key] := by
  induction keys with
  | nil => simp
  | cons k rest ih =>
    by_cases hk : k ∈ rest
    · rw [List.cons_append, List.dedup_cons_of_mem (List.mem_append_left _ hk), ih,
        List.dedup_cons_of_mem hk]
    · rw [List.dedup_cons_of_notMem hk, List.cons_append]
      by_cases heq : k = key
      · subst heq
        rw [List.dedup_cons_of_mem (by simp), ih]
        simp
      · rw [List.dedup_cons_of_notMem (by simp [hk, heq]), ih]
        simp [heq]

theorem length_filter_ne_of_mem {keys : List α} {key : α} (hnodup : keys.Nodup)
    (h : key ∈ keys) : (keys.filter (· != key)).length + 1 = keys.length := by
  rw [← hnodup.erase_eq_filter, List.length_erase_of_mem h,
    Nat.sub_add_cancel (List.length_pos_of_mem h)]

theorem filter_ne_of_notMem {keys : List α} {key : α} (h : key ∉ keys) :
    keys.filter (· != key) = keys := by
  rw [List.filter_eq_self]
  rintro k hk
  exact bne_iff_ne.2 fun heq => h (heq ▸ hk)

theorem lastUsed_nil (count : Nat) : lastUsed count ([] : List α) = [] := by
  rw [lastUsed, List.dedup_nil, rtake_of_length_le (Nat.zero_le count)]

theorem nodup_lastUsed (count : Nat) (keys : List α) : (lastUsed count keys).Nodup :=
  (List.nodup_dedup keys).sublist (List.drop_sublist _ _)

/-- Whether the elements that are not among the last so many are known makes no difference for the
next use. -/
theorem lastUsed_concat (count : Nat) (keys : List α) (key : α) :
    lastUsed count (keys ++ [key]) =
      ((lastUsed count keys).filter (· != key) ++ [key]).rtake count := by
  rw [lastUsed, dedup_concat, lastUsed]
  set distinct := keys.dedup
  have hnodup : distinct.Nodup := List.nodup_dedup keys
  obtain ⟨older, hsplit⟩ : ∃ older, distinct = older ++ distinct.rtake count :=
    ⟨_, (List.take_append_drop _ _).symm⟩
  by_cases hfull : distinct.length ≤ count
  · rw [rtake_of_length_le hfull]
  -- the list is longer than what is kept, so what is kept has the full length
  have hlength : (distinct.rtake count).length = count := by
    rw [List.rtake, List.length_drop]
    omega
  generalize distinct.rtake count = kept at hsplit hlength
  have hkept : kept.Nodup := (hsplit ▸ hnodup).of_append_right
  have henough : count ≤ (kept.filter (· != key) ++ [key]).length := by
    rw [List.length_append, List.length_singleton]
    by_cases hmem : key ∈ kept
    · exact (hlength ▸ length_filter_ne_of_mem hkept hmem).ge
    · rw [filter_ne_of_notMem hmem, hlength]
      exact Nat.le_succ count
  rw [hsplit, List.filter_append, List.append_assoc, rtake_append_of_le henough]

end Last

/-! ### Keys of a cache -/

namespace Recency

variable {κ α : Type} [DecidableEq κ] {m : Recency κ α} {key : κ} {x : α}

theorem keys_refresh : (m.refresh key x).keys = m.keys.filter (· != key) ++ [key] := by
  simp only [refresh, keys, without, List.map_append, List.filter_map, List.map_cons,
    List.map_nil]
  rfl

/-- A lookup that finds something is a use. -/
theorem keys_get (hsize : m.size ≤ m.capacity) (h : (m.get key).2 = some x) :
    (m.get key).1.keys = (m.keys.filter (· != key) ++ [key]).rtake m.capacity := by
  unfold get at h ⊢
  split at h
  · next y hfind =>
    rw [keys_refresh, rtake_of_length_le]
    -- the key has been there, so there are no more keys than before
    have hmem : key ∈ m.keys := List.mem_map_of_mem (mem_of_find? hfind)
    have hless : (m.keys.filter (· != key)).length < m.keys.length :=
      List.length_filter_lt_length_iff_exists.2 ⟨key, hmem, by simp⟩
    rw [List.length_append, List.length_singleton]
    exact hless.trans_le (by simpa [keys, size] using hsize)
  · cases h

/-- An insertion is a use. -/
theorem keys_insert (hsize : m.size ≤ m.capacity) (h : key ∉ m.keys) :
    (m.insert key x).1.keys = (m.keys.filter (· != key) ++ [key]).rtake m.capacity := by
  have hlength : m.keys.length = m.size := by simp [keys, size]
  rw [filter_ne_of_notMem h]
  unfold insert
  split
  · next hzero =>
    have hnil : m.keys = [] := List.length_eq_zero_iff.1 (by omega)
    rw [hzero, hnil]
    rfl
  · rw [if_neg (by simpa [contains] using h)]
    split
    · next hfull =>
      rw [List.rtake, List.length_append, List.length_singleton,
        show m.keys.length + 1 - m.capacity = 1 by omega, List.drop_one]
      cases hentries : m.entries with
      | nil => simp [size, hentries] at hfull; omega
      | cons e rest => simp [keys, hentries]
    · rw [rtake_of_length_le (by simp only [List.length_append, List.length_singleton]; omega)]
      simp [keys]

/-- An insertion takes something out exactly if there is room for something, but not for more. -/
theorem size_insert (hpos : 1 ≤ m.capacity) (h : key ∉ m.keys) :
    (m.insert key x).1.size + (if (m.insert key x).2.isSome then 1 else 0) = m.size + 1 := by
  unfold insert
  rw [if_neg (by omega), if_neg (by simpa [contains] using h)]
  split
  · next hfull =>
    cases hentries : m.entries with
    | nil => simp [size, hentries] at hfull; omega
    | cons e rest => simp [size, keys, hentries]
  · simp [size]

theorem mem_keys_of_get (h : (m.get key).2 = some x) : key ∈ m.keys :=
  List.mem_map_of_mem (mem_of_get h)

theorem notMem_keys_of_get (h : (m.get key).2 = none) : key ∉ m.keys := by
  unfold get at h
  split at h
  · cases h
  · next hfind =>
    rintro hmem
    obtain ⟨e, he, rfl⟩ := List.mem_map.1 hmem
    have hne := List.lookup_eq_none_iff.1 hfind e he
    simp at hne

/-- A lookup that finds something leaves as many entries as there are. -/
theorem size_get (hnodup : m.keys.Nodup) (h : (m.get key).2 = some x) :
    (m.get key).1.size = m.size := by
  have hlength := length_filter_ne_of_mem hnodup (mem_keys_of_get h)
  unfold get at h ⊢
  split at h
  · next y hfind =>
    have hkeys : (m.refresh key y).keys.length = _ := congrArg List.length keys_refresh
    rw [List.length_append, List.length_singleton, hlength] at hkeys
    simpa [keys, size] using hkeys
  · cases h

theorem capacity_get : (m.get key).1.capacity = m.capacity := by
  unfold get
  split <;> rfl

theorem capacity_insert : (m.insert key x).1.capacity = m.capacity := by
  unfold insert
  split
  · rfl
  · split
    · rfl
    · split <;> rfl

end Recency

/-! ### Lookups -/

/-- A text that is looked up, with the names of its parameters and the mode. -/
structure Lookup where
  source : String
  params : List String
  mode : Mode

/-- The key under which the function for a text is kept. -/
def Lookup.key (l : Lookup) : CompileKey := .of l.source l.params l.mode

/-- Whether there is a function for a text: it has no denied call and is in the language. -/
def Validator.admits (v : Validator) (l : Lookup) : Bool :=
  (v.check l.source).isOk && (Code.compile l.source l.params l.mode).isOk

namespace Interpreter

variable {i j : Interpreter} {l : Lookup}

/-- The interpreter after a text has been looked up. -/
def lookUp (i : Interpreter) (l : Lookup) : Interpreter := (i.compile l.source l.params l.mode).1

/-- What a call looks up, in order. -/
def lookups (i : Interpreter) (s : Store) : Call → List Lookup
  | .compile source params mode => [⟨source, params, mode⟩]
  | .run source context mode _ => [⟨source, (i.contextOf context).names, mode⟩]
  | .dependencies source scope =>
    ((mentionedNames source).filter scope.contains).map fun name =>
      ⟨name, (i.contextOf (scope.context s).2).names, .expression⟩
  | .parseState text =>
    if Text.trimmed text = "" then []
    else [⟨Text.trimmed text, (i.contextOf .empty).names, .expression⟩]
  | .clearCache => []

/-- The keys of the functions that calls find or make, in the order of use. -/
def usedKeys (i : Interpreter) (calls : List (Store × Call)) : List CompileKey :=
  ((calls.flatMap fun call => i.lookups call.1 call.2).filter i.validator.admits).map Lookup.key

/-- How many functions are made when texts are looked up one after another: one for each text for
which there is a function and none is kept. -/
def compilations (i : Interpreter) : List Lookup → Nat
  | [] => 0
  | l :: rest =>
    (if i.validator.admits l && !i.cache.contains l.key then 1 else 0) +
      (i.lookUp l).compilations rest

theorem compilations_append (ls rest : List Lookup) (i : Interpreter) :
    i.compilations (ls ++ rest) = i.compilations ls + (ls.foldl lookUp i).compilations rest := by
  induction ls generalizing i with
  | nil => simp [compilations]
  | cons l ls ih => rw [List.cons_append, compilations, compilations, ih, List.foldl_cons,
      Nat.add_assoc]

/-! ### One lookup -/

/-- A text for which there is a function is found or made. -/
theorem lookUp_of_admits (h : i.validator.admits l = true) :
    (∃ f, (i.cache.get l.key).2 = some f ∧ i.lookUp l = i.countHit (i.cache.get l.key).1) ∨
      ∃ f, (i.cache.get l.key).2 = none ∧ i.lookUp l = i.countMiss.keep l.key f := by
  obtain ⟨hcheck, hcompile⟩ := Bool.and_eq_true_iff.1 h
  cases hresult : i.validator.check l.source with
  | error call => rw [hresult] at hcheck; cases hcheck
  | ok =>
    cases hcode : Code.compile l.source l.params l.mode with
    | error e => rw [hcode] at hcompile; cases hcompile
    | ok code =>
      have hlookUp : i.lookUp l = (i.lookup l.key l.params).1 := by
        unfold lookUp compile
        rw [hresult]
        rfl
      rw [hlookUp]
      unfold lookup
      split
      · next cache f hget => exact .inl ⟨f, by rw [hget], by rw [hget]⟩
      · next hget =>
        refine .inr ⟨{ code, origin := (i.serial, i.compiled) }, by rw [hget], ?_⟩
        unfold make Lookup.key CompileKey.of
        simp only [hcode]
        rfl

/-- What is not admitted leaves what is kept and the count as they are. -/
theorem lookUp_of_not_admits (hi : i.FaithfulFor l.params)
    (h : i.validator.admits l = false) :
    (i.lookUp l).cache = i.cache ∧ (i.lookUp l).counts.evictions = i.counts.evictions := by
  unfold lookUp compile
  cases hcheck : i.validator.check l.source with
  | error call => exact ⟨rfl, rfl⟩
  | ok =>
    have hcompile : (Code.compile l.source l.params l.mode).isOk = false := by
      simpa [Validator.admits, hcheck, Except.isOk, Except.toBool] using h
    show ((i.lookup (.of l.source l.params l.mode) l.params).1.cache = _) ∧ _
    unfold lookup
    split
    · next cache f heq =>
      -- a function that is kept would compile
      have hfind : (i.cache.get (.of l.source l.params l.mode)).2 = some f := by rw [heq]
      rw [hi l.source l.mode f (Recency.mem_of_get hfind)] at hcompile
      cases hcompile
    · unfold make CompileKey.of
      cases hcode : Code.compile l.source l.params l.mode with
      | ok code => rw [hcode] at hcompile; cases hcompile
      | error e => exact ⟨rfl, rfl⟩

theorem validator_lookUp (i : Interpreter) (l : Lookup) : (i.lookUp l).validator = i.validator :=
  (alike_compile i ..).validator

theorem capacity_lookUp (hi : i.FaithfulFor l.params) :
    (i.lookUp l).cache.capacity = i.cache.capacity := by
  cases h : i.validator.admits l with
  | false => rw [(lookUp_of_not_admits hi h).1]
  | true =>
    obtain ⟨f, -, heq⟩ | ⟨f, -, heq⟩ := lookUp_of_admits h
    · rw [heq]
      exact Recency.capacity_get
    · rw [heq]
      exact Recency.capacity_insert

/-- A lookup of a text for which there is a function is a use of its key; any other leaves the keys
as they are. -/
theorem keys_lookUp (hi : i.FaithfulFor l.params) (hsize : i.cache.size ≤ i.cache.capacity) :
    (i.lookUp l).cache.keys =
      if i.validator.admits l then
        (i.cache.keys.filter (· != l.key) ++ [l.key]).rtake i.cache.capacity
      else i.cache.keys := by
  cases h : i.validator.admits l with
  | false => rw [(lookUp_of_not_admits hi h).1, if_neg Bool.false_ne_true]
  | true =>
    rw [if_pos rfl]
    obtain ⟨f, hget, heq⟩ | ⟨f, hget, heq⟩ := lookUp_of_admits h
    · rw [heq]
      exact Recency.keys_get hsize hget
    · rw [heq]
      exact Recency.keys_insert hsize (Recency.notMem_keys_of_get hget)

/-- What has been taken out and what is kept is as many as before, and one more if a function has
been made. -/
theorem evictions_lookUp (hi : i.FaithfulFor l.params) (hpos : 1 ≤ i.cache.capacity)
    (hnodup : i.cache.keys.Nodup) :
    (i.lookUp l).counts.evictions + (i.lookUp l).cache.size =
      i.counts.evictions + i.cache.size + i.compilations [l] := by
  cases h : i.validator.admits l with
  | false =>
    obtain ⟨hcache, hcount⟩ := lookUp_of_not_admits hi h
    rw [hcache, hcount]
    simp [compilations, h]
  | true =>
    obtain ⟨f, hget, heq⟩ | ⟨f, hget, heq⟩ := lookUp_of_admits h
    · have hmem : l.key ∈ i.cache.keys := Recency.mem_keys_of_get hget
      have hsize : (i.lookUp l).cache.size = i.cache.size := by
        rw [heq]
        exact Recency.size_get hnodup hget
      have hcount : (i.lookUp l).counts.evictions = i.counts.evictions := by
        rw [heq]
        rfl
      rw [hsize, hcount]
      simp [compilations, Recency.contains, hmem]
    · have hmem : l.key ∉ i.cache.keys := Recency.notMem_keys_of_get hget
      have hcount : (i.lookUp l).counts.evictions + (i.lookUp l).cache.size =
          i.counts.evictions + (i.cache.size + 1) := by
        rw [heq, ← Recency.size_insert (x := f) hpos hmem, Nat.add_comm (Recency.size _),
          ← Nat.add_assoc]
        rfl
      rw [hcount]
      simp [compilations, h, Recency.contains, hmem, Nat.add_assoc]

/-! ### Runs of lookups -/

/-- After keys have been used and functions have been made, the keys that are kept are those used
last, and the count is right. -/
structure Recalls (room : Nat) (used : List CompileKey) (made : Nat) (i : Interpreter) : Prop where
  capacity : i.cache.capacity = room
  keys : i.cache.keys = lastUsed room used
  counted : 1 ≤ room → i.counts.evictions + i.cache.size = made

namespace Recalls

variable {room made : Nat} {used : List CompileKey}

theorem size_le (h : i.Recalls room used made) : i.cache.size ≤ room := by
  have hlength : i.cache.size = i.cache.keys.length := by simp [Recency.size, Recency.keys]
  rw [hlength, h.keys]
  exact length_rtake_le room _

theorem lookUp (h : i.Recalls room used made) (hi : i.FaithfulFor l.params) :
    (i.lookUp l).Recalls room (used ++ ([l].filter i.validator.admits).map Lookup.key)
      (made + i.compilations [l]) where
  capacity := (capacity_lookUp hi).trans h.capacity
  keys := by
    rw [keys_lookUp hi (h.capacity ▸ h.size_le), h.capacity, h.keys]
    cases hadmits : i.validator.admits l with
    | false => simp [hadmits]
    | true => simp [hadmits, lastUsed_concat]
  counted hpos := by
    rw [evictions_lookUp hi (h.capacity ▸ hpos) (h.keys ▸ nodup_lastUsed _ _), h.counted hpos]

/-- Lookups one after another. -/
theorem lookUps (ls : List Lookup) : ∀ {i : Interpreter} {used : List CompileKey} {made : Nat},
    i.Recalls room used made → i.Faithful → (∀ l ∈ ls, AllNames l.params) →
      (ls.foldl Interpreter.lookUp i).Recalls room
        (used ++ (ls.filter i.validator.admits).map Lookup.key) (made + i.compilations ls) := by
  induction ls with
  | nil =>
    intro i used made h _ _
    simpa [compilations] using h
  | cons l ls ih =>
    intro i used made h hi hnames
    obtain ⟨hl, hls⟩ := List.forall_mem_cons.1 hnames
    have hrest := ih (h.lookUp (hi _ hl)) (hi.compile hl l.source l.mode) hls
    rw [validator_lookUp] at hrest
    rw [List.foldl_cons, ← List.singleton_append, compilations_append, List.filter_append,
      List.map_append, ← List.append_assoc, ← Nat.add_assoc]
    exact hrest

end Recalls

/-! ### Calls -/

theorem lookups_eq (h : i.base = j.base) (s : Store) (call : Call) :
    i.lookups s call = j.lookups s call := by
  have hcontext : ∀ context, i.contextOf context = j.contextOf context := by
    simp only [contextOf, h, implies_true]
  cases call <;> simp only [lookups, hcontext]

theorem Alike.usedKeys (h : Alike i j) (calls : List (Store × Call)) :
    i.usedKeys calls = j.usedKeys calls := by
  simp only [Interpreter.usedKeys, h.validator, lookups_eq h.base]

theorem usedKeys_concat (i : Interpreter) (calls : List (Store × Call)) (call : Store × Call) :
    i.usedKeys (calls ++ [call]) =
      i.usedKeys calls ++ ((i.lookups call.1 call.2).filter i.validator.admits).map Lookup.key := by
  simp [usedKeys, List.filter_flatMap]

/-- Names are looked up one after another. -/
theorem cellsBehind_fst (context : Context) (names : List String) :
    ∀ (i : Interpreter) (s : Store) (found : CellSet),
      (i.cellsBehind s context found names).1 =
        (names.map fun name => (⟨name, (i.contextOf context).names, .expression⟩ : Lookup)).foldl
          lookUp i := by
  induction names with
  | nil => exact fun _ _ _ => rfl
  | cons name rest ih =>
    intro i s found
    have hrun : (i.run s name context .expression).1 =
        i.lookUp ⟨name, (i.contextOf context).names, .expression⟩ := run_fst i s name context _
    have hcontext := (alike_run i s name context .expression).contextOf context
    rw [List.map_cons, List.foldl_cons, ← hrun, ← hcontext]
    simp only [cellsBehind, evaluateRaw]
    split
    · next heq =>
      rw [heq]
      exact ih ..
    · next heq =>
      rw [heq]
      exact ih ..

/-- What a call does to an interpreter is what its lookups do. -/
theorem answer_fst (i : Interpreter) (s : Store) {call : Call} (h : call ≠ .clearCache) :
    (i.answer s call).1 = (i.lookups s call).foldl lookUp i := by
  cases call with
  | compile source params mode => rfl
  | run source context mode manner =>
    simp only [answer, runIn_fst]
    exact run_fst i s source context mode
  | dependencies source scope =>
    simp only [answer, dependencies, lookups]
    split
    · next hnone => rw [hnone]; rfl
    · exact cellsBehind_fst _ _ i _ _
  | parseState text =>
    simp only [answer, parseState, lookups]
    split
    · next hblank => rw [if_pos hblank]; rfl
    · next hblank =>
      rw [if_neg hblank]
      have hrun := (runRead_fst i s (Text.trimmed text) .empty .expression).trans (run_fst i ..)
      simp only [evaluate]
      split
      · next heq => rwa [heq] at hrun
      · next heq => rwa [heq] at hrun
  | clearCache => exact absurd rfl h

/-- A call looks texts up over names, if it is made with names. -/
theorem allNames_lookups (hbase : AllNames i.base.names) (s : Store) {call : Call}
    (hnames : AllNames call.names) : ∀ l ∈ i.lookups s call, AllNames l.params := by
  intro l hl
  cases call with
  | compile source params mode =>
    obtain rfl := List.mem_singleton.1 hl
    exact hnames
  | run source context mode manner =>
    obtain rfl := List.mem_singleton.1 hl
    exact allNames_contextOf hbase hnames
  | dependencies source scope =>
    obtain ⟨name, -, rfl⟩ := List.mem_map.1 hl
    exact allNames_contextOf hbase (allNames_context hnames s)
  | parseState text =>
    simp only [lookups] at hl
    split at hl
    · cases hl
    · obtain rfl := List.mem_singleton.1 hl
      exact allNames_contextOf hbase fun _ hname => nomatch hname
  | clearCache => cases hl

end Interpreter

/-- Whether a call takes everything out. -/
def Call.clears : Call → Bool
  | .clearCache => true
  | _ => false

theorem Call.clears_eq_false_iff {call : Call} : call.clears = false ↔ call ≠ .clearCache := by
  cases call <;> simp [clears]

/-- The calls after the last one that takes everything out; all calls if there is none. -/
def sinceClear (calls : List (Store × Call)) : List (Store × Call) :=
  calls.rtakeWhile fun call => !call.2.clears

/-- The calls up to the last one that takes everything out; no calls if there is none. -/
def upToClear (calls : List (Store × Call)) : List (Store × Call) :=
  calls.rdropWhile fun call => !call.2.clears

theorem upToClear_append_sinceClear (calls : List (Store × Call)) :
    upToClear calls ++ sinceClear calls = calls := by
  rw [upToClear, sinceClear, List.rdropWhile, List.rtakeWhile, ← List.reverse_append,
    List.takeWhile_append_dropWhile, List.reverse_reverse]

section

variable {call : Store × Call} (calls : List (Store × Call))

theorem sinceClear_concat_of_clears (h : call.2.clears = true) :
    sinceClear (calls ++ [call]) = [] :=
  List.rtakeWhile_concat_neg _ _ _ (by simp [h])

theorem sinceClear_concat (h : call.2.clears = false) :
    sinceClear (calls ++ [call]) = sinceClear calls ++ [call] :=
  List.rtakeWhile_concat_pos _ _ _ (by simp [h])

theorem upToClear_concat (h : call.2.clears = false) :
    upToClear (calls ++ [call]) = upToClear calls :=
  List.rdropWhile_concat_pos _ _ _ (by simp [h])

theorem clears_of_mem_sinceClear (h : call ∈ sinceClear calls) : call.2.clears = false := by
  simpa using List.mem_rtakeWhile_imp h

end

namespace Interpreter

theorem after_append (i : Interpreter) (calls rest : List (Store × Call)) :
    i.after (calls ++ rest) = (i.after calls).after rest :=
  List.foldl_append

/-- How many functions have been made since everything was taken out. -/
def madeSinceClear (i : Interpreter) (calls : List (Store × Call)) : Nat :=
  (i.after (upToClear calls)).compilations
    ((sinceClear calls).flatMap fun call => i.lookups call.1 call.2)

/-- Calls none of which takes everything out do what their lookups do. -/
theorem after_eq_lookUps (calls : List (Store × Call))
    (hclear : ∀ call ∈ calls, call.2.clears = false) : ∀ i j : Interpreter, i.base = j.base →
      i.after calls = (calls.flatMap fun call => j.lookups call.1 call.2).foldl lookUp i := by
  induction calls with
  | nil => exact fun _ _ _ => rfl
  | cons call rest ih =>
    intro i j hbase
    obtain ⟨hcall, hrest⟩ := List.forall_mem_cons.1 hclear
    have hanswer := answer_fst i call.1 (Call.clears_eq_false_iff.1 hcall)
    rw [List.flatMap_cons, List.foldl_append, ← lookups_eq hbase, ← hanswer]
    exact ih hrest _ j ((alike_answer i call.1 call.2).base.trans hbase)

/-- One more call makes the functions that its lookups make where it begins. -/
theorem madeSinceClear_concat (i : Interpreter) (calls : List (Store × Call)) {call : Store × Call}
    (h : call.2.clears = false) :
    i.madeSinceClear (calls ++ [call]) = i.madeSinceClear calls +
      (i.after calls).compilations (i.lookups call.1 call.2) := by
  -- the calls since everything was taken out have led to where this call begins
  have hthere := after_eq_lookUps (sinceClear calls) (fun _ => clears_of_mem_sinceClear calls)
    (i.after (upToClear calls)) i (alike_after _ i).base
  rw [← after_append, upToClear_append_sinceClear] at hthere
  rw [madeSinceClear, upToClear_concat calls h, sinceClear_concat calls h, List.flatMap_append,
    compilations_append, ← hthere, List.flatMap_singleton]
  rfl

theorem faithful_after {validator : Validator} {base : Context} (hbase : AllNames base.names)
    (capacity serial : Nat) {calls : List (Store × Call)}
    (hcalls : ∀ call ∈ calls, AllNames call.2.names) :
    ((fresh validator base capacity serial).after calls).Faithful := by
  have hfresh := faithful_fresh validator base capacity serial
  have hmatched : Matched (fresh validator base capacity serial) _ :=
    ⟨.refl _, hfresh, hfresh, hbase⟩
  exact (hmatched.after calls hcalls).left

/-- After any calls the keys that are kept are those used last, and the count is right. -/
theorem kept_after (validator : Validator) {base : Context} (hbase : AllNames base.names)
    (capacity serial : Nat) (calls : List (Store × Call))
    (hcalls : ∀ call ∈ calls, AllNames call.2.names) :
    ((fresh validator base capacity serial).after calls).Recalls capacity
      ((fresh validator base capacity serial).usedKeys (sinceClear calls))
      ((fresh validator base capacity serial).madeSinceClear calls) := by
  set start := fresh validator base capacity serial
  induction calls using List.reverseRecOn with
  | nil => exact ⟨rfl, (lastUsed_nil capacity).symm, fun _ => rfl⟩
  | append_singleton calls call ih =>
    obtain ⟨hearlier, hcall⟩ := List.forall_mem_append.1 hcalls
    have hrecalls := ih hearlier
    have halike := alike_after calls start
    have hafter : start.after (calls ++ [call]) = ((start.after calls).answer call.1 call.2).1 :=
      start.after_append calls [call]
    rw [hafter]
    cases hclears : call.2.clears with
    | true =>
      -- nothing is kept, and the count begins anew
      have hnone := sinceClear_concat_of_clears calls hclears
      obtain ⟨s, call⟩ := call
      obtain rfl : call = .clearCache := by cases call <;> first | rfl | cases hclears
      rw [madeSinceClear, hnone]
      exact ⟨hrecalls.capacity, (lastUsed_nil capacity).symm, fun _ => rfl⟩
    | false =>
      rw [sinceClear_concat calls hclears, usedKeys_concat, madeSinceClear_concat _ _ hclears,
        answer_fst _ _ (Call.clears_eq_false_iff.1 hclears), lookups_eq halike.base,
        ← halike.validator]
      exact hrecalls.lookUps _ (faithful_after hbase capacity serial hearlier)
        (allNames_lookups hbase call.1 (hcall call (List.mem_singleton_self call)))

/-- Lookups of texts for which there is no function leave what is kept as it is. -/
theorem cache_lookUps (ls : List Lookup) : ∀ {i : Interpreter}, i.Faithful →
    (∀ l ∈ ls, AllNames l.params) → (∀ l ∈ ls, i.validator.admits l = false) →
      (ls.foldl lookUp i).cache = i.cache := by
  induction ls with
  | nil => exact fun _ _ _ => rfl
  | cons l ls ih =>
    intro i hi hnames hnone
    obtain ⟨hl, hls⟩ := List.forall_mem_cons.1 hnames
    obtain ⟨hnone, hrest⟩ := List.forall_mem_cons.1 hnone
    rw [← validator_lookUp i l] at hrest
    exact (ih (hi.compile hl l.source l.mode) hls hrest).trans
      (lookUp_of_not_admits (hi _ hl) hnone).1

/-- A call that finds no function and makes none leaves what is kept as it is. -/
theorem cache_answer {i : Interpreter} (hi : i.Faithful) (hbase : AllNames i.base.names) (s : Store)
    {call : Call} (hnames : AllNames call.names) (hclear : call ≠ .clearCache)
    (hnone : i.usedKeys [(s, call)] = []) : (i.answer s call).1.cache = i.cache := by
  have hadmits : ∀ l ∈ i.lookups s call, i.validator.admits l = false := by
    simpa [usedKeys] using hnone
  rw [answer_fst i s hclear, cache_lookUps _ hi (allNames_lookups hbase s hnames) hadmits]

end Interpreter

end LiveMarkup
