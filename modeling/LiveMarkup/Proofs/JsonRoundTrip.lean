import LiveMarkup.Json
import LiveMarkup.Proofs.NearestDoubles
import LiveMarkup.Proofs.Naming
import LiveMarkup.Proofs.WrittenOut
import Mathlib.Data.List.Sort
import Mathlib.Data.String.Basic

/-!
# Documents and back

A document is read into a value that nowhere contains itself, and its tree is the document with
every number made a double.  Reading makes new arrays and objects only, so what has been read shows
the same tree while more is being read.

A value that is not inside itself is written as its tree without cells, functions and the like; read
again it has that tree.  Reading sorts entries by their names.  In a store no two entries of an
object have one name, so that is sorting in the usual sense.

## Main definitions

* `Json.IsDocument` — what readers of documents give.
* `Json.inDoubles` — a document with every number made a double.
* `Json.tree` — the tree of a document.
* `Snapshot.plain` — a tree with what documents have in place of what they do not have.

## Main results

* `Json.sortEntries_eq_mergeSort` — entries are sorted by their names.
* `Json.IsDocument.reads` — a document is read into a value with its tree.
* `Store.HasTree.hasDocument` — a tree is written as a document, which has the plain tree.
* `json_round_trip` — from documents to values and back, and from values to documents and back.
-/

namespace LiveMarkup

open Number

/-! ### Integers as doubles -/

theorem Number.isFinite_of_exact {x : Float} {negative : Bool} {m : Nat} {e : Int}
    (h : Exact.ofFloat x = .finite negative m e) : x.isFinite = true := by
  rw [exact_eq] at h
  show x.toModel.unpack.isFinite = true
  generalize x.toModel.unpack = u at h
  cases u with
  | notANumber | infinity => cases h
  | zero | finite => rfl

/-- An integer becomes the nearest double. -/
theorem Number.isNearest_ofInteger (n : Int) :
    Exact.IsNearest (n < 0) n.natAbs (Exact.ofFloat (ofInteger n)) := by
  have hnearest := isNearest_nearest (n < 0) ⟨n.natAbs, 0⟩
  rw [zpow_zero, mul_one] at hnearest
  exact hnearest

theorem Number.isFinite_ofInteger {n : Int} (h : n.natAbs ≤ 2 ^ 64) :
    (ofInteger n).isFinite = true := by
  have hsmall : (n.natAbs : ℚ) < overflowBound :=
    calc
      (n.natAbs : ℚ) ≤ 2 ^ 64 := by exact_mod_cast h
      _ < 2 ^ 1024 - 2 ^ 1023 := by
        rw [pow_succ (2 : ℚ) 1023, mul_two, add_sub_cancel_right]
        exact pow_lt_pow_right₀ one_lt_two (by norm_num)
      _ ≤ overflowBound := sub_le_sub_left (pow_le_pow_right₀ one_le_two (by norm_num)) _
  have hnearest := isNearest_ofInteger n
  generalize hexact : Exact.ofFloat (ofInteger n) = x at hnearest
  cases hnearest with
  | infinite hlarge => exact absurd hsmall (not_lt_of_ge hlarge)
  | finite => exact isFinite_of_exact hexact

/-! ### Entries -/

/-- The names of the entries go up. -/
def Increasing {α : Type} (entries : List (String × α)) : Prop :=
  entries.Pairwise fun e f => e.1 < f.1

namespace Increasing

variable {α : Type} {entries entries' : List (String × α)}

theorem nodup (h : Increasing entries) : (entries.map Prod.fst).Nodup :=
  List.pairwise_map.2 (h.imp fun hlt => ne_of_lt hlt)

theorem eq_of_perm (h : Increasing entries) (h' : Increasing entries')
    (hperm : entries.Perm entries') : entries = entries' :=
  hperm.eq_of_pairwise (fun _ _ _ _ hlt hgt => absurd hgt (lt_asymm hlt)) h h'

/-- Entries sorted by names that are all different. -/
theorem mergeSort (hnodup : (entries.map Prod.fst).Nodup) :
    Increasing (entries.mergeSort fun e f => e.1 ≤ f.1) := by
  have hsorted : (entries.mergeSort fun e f => e.1 ≤ f.1).Pairwise
      fun e f => decide (e.1 ≤ f.1) = true :=
    List.pairwise_mergeSort (fun _ _ _ h h' => decide_eq_true
      ((of_decide_eq_true h).trans (of_decide_eq_true h')))
      (fun e f => by simpa using le_total e.1 f.1) entries
  have hnames : (entries.mergeSort fun e f => e.1 ≤ f.1).Pairwise fun e f => e.1 ≠ f.1 :=
    List.pairwise_map.1
      (((List.mergeSort_perm entries _).map Prod.fst).nodup_iff.2 hnodup)
  exact hsorted.imp₂ (fun _ _ hle hne => lt_of_le_of_ne (of_decide_eq_true hle) hne) hnames

end Increasing

namespace Json

variable {α : Type}

theorem insertSorted_perm {name : String} {entries : List (String × α)}
    (h : name ∉ entries.map Prod.fst) (x : α) :
    (insertSorted name x entries).Perm ((name, x) :: entries) := by
  induction entries with
  | nil => exact .refl _
  | cons e rest ih =>
    rw [List.map_cons, List.mem_cons, not_or] at h
    rw [insertSorted, if_neg h.1]
    split
    · exact .refl _
    · exact ((ih h.2).cons e).trans (.swap _ _ rest)

theorem increasing_insertSorted {entries : List (String × α)} (h : Increasing entries)
    {name : String} (hname : name ∉ entries.map Prod.fst) (x : α) :
    Increasing (insertSorted name x entries) := by
  induction entries with
  | nil => exact List.pairwise_singleton _ _
  | cons e rest ih =>
    have hperm := insertSorted_perm (List.not_mem_of_not_mem_cons hname) x
    obtain ⟨hfirst, hrest⟩ := List.pairwise_cons.1 h
    rw [List.map_cons, List.mem_cons, not_or] at hname
    rw [insertSorted, if_neg hname.1]
    split
    · next hlt =>
      exact List.pairwise_cons.2 ⟨fun f hf => (List.mem_cons.1 hf).elim (fun heq => heq ▸ hlt)
        fun hf => hlt.trans (hfirst f hf), h⟩
    · next hnot =>
      have hlt : e.1 < name := lt_of_le_of_ne (not_lt.1 hnot) (Ne.symm hname.1)
      refine List.pairwise_cons.2 ⟨fun f hf => ?_, ih hrest hname.2⟩
      rcases List.mem_cons.1 (hperm.mem_iff.1 hf) with rfl | hf
      · exact hlt
      · exact hfirst f hf

/-- Entries with different names are sorted by their names. -/
theorem sortEntries_eq_mergeSort {entries : List (String × α)}
    (hnodup : (entries.map Prod.fst).Nodup) :
    sortEntries entries = entries.mergeSort fun e f => e.1 ≤ f.1 := by
  -- what has been sorted so far has other names than what is left
  have hfold (rest sorted : List (String × α)) (hsorted : Increasing sorted)
      (hnames : ((sorted ++ rest).map Prod.fst).Nodup) :
      Increasing (rest.foldl (fun sorted e => insertSorted e.1 e.2 sorted) sorted) ∧
        (rest.foldl (fun sorted e => insertSorted e.1 e.2 sorted) sorted).Perm
          (sorted ++ rest) := by
    induction rest generalizing sorted with
    | nil => exact ⟨hsorted, by rw [List.append_nil]; rfl⟩
    | cons e rest ih =>
      have hmiddle : (sorted ++ e :: rest).Perm ((e :: sorted) ++ rest) := List.perm_middle
      have hnames' := (hmiddle.map Prod.fst).nodup_iff.1 hnames
      have hnew : e.1 ∉ sorted.map Prod.fst := fun hin =>
        (List.nodup_cons.1 hnames').1 (List.map_subset _ (List.subset_append_left _ _) hin)
      have hperm := (insertSorted_perm hnew e.2).append_right rest
      obtain ⟨hincreasing, hall⟩ := ih _ (increasing_insertSorted hsorted hnew e.2)
        ((hperm.map Prod.fst).nodup_iff.2 hnames')
      exact ⟨hincreasing, hall.trans (hperm.trans hmiddle.symm)⟩
  obtain ⟨hincreasing, hperm⟩ := hfold entries [] .nil hnodup
  exact hincreasing.eq_of_perm (.mergeSort hnodup)
    (hperm.trans (List.mergeSort_perm entries _).symm)

theorem sortEntries_of_increasing {entries : List (String × α)} (h : Increasing entries) :
    sortEntries entries = entries := by
  rw [sortEntries_eq_mergeSort h.nodup]
  exact (Increasing.mergeSort h.nodup).eq_of_perm h (List.mergeSort_perm entries _)

end Json

theorem Bindings.entries_insertAll {α : Type} (b : Bindings α) {pairs : List (String × α)}
    (h : (b.names ++ pairs.map Prod.fst).Nodup) :
    (b.insertAll pairs).entries = b.entries ++ pairs := by
  have hinsert (name : String) (x : α) (l : List (String × α)) (hname : name ∉ l.map Prod.fst) :
      insertEntry name x l = l ++ [(name, x)] := by
    induction l with
    | nil => rfl
    | cons e rest ih =>
      rw [List.map_cons, List.mem_cons, not_or] at hname
      rw [insertEntry, if_neg (Ne.symm hname.1), ih hname.2, List.cons_append]
  induction pairs generalizing b with
  | nil => exact (List.append_nil _).symm
  | cons e rest ih =>
    have hnew : e.1 ∉ b.names := fun hin =>
      List.disjoint_of_nodup_append h hin (List.mem_cons_self)
    have hentries : (b.insert e.1 e.2).entries = b.entries ++ [e] := hinsert _ _ _ hnew
    have hnames : (b.insert e.1 e.2).names = b.names ++ [e.1] := by
      rw [names, hentries, List.map_append]
      rfl
    rw [insertAll, List.foldl_cons, ← insertAll, ih, hentries, List.append_assoc,
      List.singleton_append]
    rw [hnames, List.append_assoc, List.singleton_append]
    exact h

/-- Bindings made of entries with different names have just these entries. -/
theorem Bindings.entries_ofList {α : Type} {pairs : List (String × α)}
    (h : (pairs.map Prod.fst).Nodup) : (Bindings.ofList pairs).entries = pairs :=
  Bindings.empty.entries_insertAll h

/-! ### Documents and trees -/

/-- What readers of documents give: integers have at most 64 bits, other numbers are finite, and the
entries of objects are in the order of their names. -/
inductive Json.IsDocument : Json → Prop
  | null : IsDocument .null
  | bool (b : Bool) : IsDocument (.bool b)
  | integer {n : Int} (hleast : -2 ^ 63 ≤ n) (hmost : n < 2 ^ 64) : IsDocument (.integer n)
  | number {x : Float} (h : x.isFinite = true) : IsDocument (.number x)
  | string (s : String) : IsDocument (.string s)
  | array {items : List Json} (h : ∀ item ∈ items, IsDocument item) : IsDocument (.array items)
  | object {entries : List (String × Json)} (hnames : Increasing entries)
    (h : ∀ e ∈ entries, IsDocument e.2) : IsDocument (.object entries)

theorem sizeOf_entry_lt {α : Type} [SizeOf α] {entries : List (String × α)} {e : String × α}
    (h : e ∈ entries) : sizeOf e.2 < 1 + sizeOf entries := by
  have hlt := List.sizeOf_lt_of_mem h
  have hpair : sizeOf e = 1 + sizeOf e.1 + sizeOf e.2 := rfl
  omega

/-- The document with every number made a double. -/
def Json.inDoubles : Json → Json
  | .null => .null
  | .bool b => .bool b
  | .integer n => .number (ofInteger n)
  | .number x => .number x
  | .string s => .string s
  | .array items => .array (items.map inDoubles)
  | .object entries => .object (entries.map fun e => (e.1, e.2.inDoubles))
decreasing_by
  · decreasing_tactic
  · simpa using sizeOf_entry_lt ‹_›

/-- The tree of a document. -/
def Json.tree : Json → Snapshot
  | .null => .null
  | .bool b => .bool b
  | .integer n => .number (ofInteger n)
  | .number x => .number x
  | .string s => .string s
  | .array items => .array (items.map tree)
  | .object entries => .object (entries.map fun e => (e.1, e.2.tree))
decreasing_by
  · decreasing_tactic
  · simpa using sizeOf_entry_lt ‹_›

/-- The tree with what cells hold in their place, with `null` for what documents do not have, and
with entries in the order of their names. -/
def Snapshot.plain : Snapshot → Snapshot
  | .undefined | .null | .function _ | .cycle _ => .null
  | .bool b => .bool b
  | .number x => if x.isFinite then .number x else .null
  | .string s => .string s
  | .array items => .array (items.map plain)
  | .object entries =>
    .object ((entries.map fun e => (e.1, e.2.plain)).mergeSort fun e f => e.1 ≤ f.1)
  | .cell held => held.plain
decreasing_by
  · decreasing_tactic
  · simpa using sizeOf_entry_lt ‹_›
  · decreasing_tactic

theorem Json.sorted_array (items : List Json) :
    (Json.array items).sorted = .array (items.map sorted) := by
  have hitems : sortedItems items = items.map sorted := by
    induction items with
    | nil => rfl
    | cons item rest ih => rw [sortedItems, ih, List.map_cons]
  rw [sorted, hitems]

theorem Json.sorted_object (entries : List (String × Json)) :
    (Json.object entries).sorted =
      .object (sortEntries (entries.map fun e => (e.1, e.2.sorted))) := by
  have hentries : sortedEntries entries = entries.map fun e => (e.1, e.2.sorted) := by
    induction entries with
    | nil => rfl
    | cons e rest ih => rw [sortedEntries, ih, List.map_cons]
  rw [sorted, hentries]

theorem Snapshot.toJson_array (items : List Snapshot) :
    (Snapshot.array items).toJson = .array (items.map toJson) := by
  have hitems : itemsToJson items = items.map toJson := by
    induction items with
    | nil => rfl
    | cons item rest ih => rw [itemsToJson, ih, List.map_cons]
  rw [toJson, hitems]

theorem Snapshot.toJson_object (entries : List (String × Snapshot)) :
    (Snapshot.object entries).toJson = .object (entries.map fun e => (e.1, e.2.toJson)) := by
  have hentries : entriesToJson entries = entries.map fun e => (e.1, e.2.toJson) := by
    induction entries with
    | nil => rfl
    | cons e rest ih => rw [entriesToJson, ih, List.map_cons]
  rw [toJson, hentries]

/-! ### Reading -/

namespace Json.IsDocument

variable {j : Json}

/-- A document is sorted already. -/
theorem sorted_eq (h : j.IsDocument) : j.sorted = j := by
  induction h with
  | array _ ih => rw [sorted_array, List.map_congr_left ih, List.map_id']
  | @object entries hnames _ ih =>
    have hsame : (entries.map fun e => (e.1, e.2.sorted)) = entries.map id :=
      List.map_congr_left fun e he => Prod.ext rfl (ih e he)
    rw [sorted_object, hsame, List.map_id, sortEntries_of_increasing hnames]
  | _ => rfl

/-- The tree of a document is written as the document, in doubles. -/
theorem toJson_tree (h : j.IsDocument) : j.tree.toJson = j.inDoubles := by
  induction h with
  | integer hleast hmost =>
    rw [tree, inDoubles, Snapshot.toJson, if_pos (isFinite_ofInteger (by omega))]
  | number h => rw [tree, inDoubles, Snapshot.toJson, if_pos h]
  | array _ ih =>
    rw [tree, Snapshot.toJson_array, List.map_map, inDoubles]
    exact congrArg _ (List.map_congr_left ih)
  | object _ _ ih =>
    rw [tree, Snapshot.toJson_object, List.map_map, inDoubles]
    exact congrArg _ (List.map_congr_left fun e he => Prod.ext rfl (ih e he))
  | _ => simp only [tree, inDoubles, Snapshot.toJson]

end Json.IsDocument

namespace Store

/-- Reading a document keeps what there is, and from then on the value has the tree of the
document. -/
structure Reads (s : Store) (j : Json) : Prop where
  keeps : s.Keeps [] (s.build j).1
  hasTree {later : Store} (h : (s.build j).1.Keeps [] later) : later.HasTree (s.build j).2 j.tree

/-- Where there is a new array with the values, it has their trees. -/
theorem Keeps.hasTree_newArray {s later : Store} {vs : List Value} {ts : List Snapshot}
    (h : (s.newArray vs).1.Keeps [] later) (hvs : later.HasTrees vs ts) :
    later.HasTree (.array (s.newArray vs).2) (.array ts) := by
  have hmade : (s.newArray vs).1.hasMade (.array (s.newArray vs).2) = true := by
    simp [hasMade, newArray]
  have hcontents := h.contents hmade List.not_mem_nil
  have hitems : later.items (s.newArray vs).2 = vs := by
    rw [Contents.array.inj hcontents, items_newArray]
    exact if_pos rfl
  exact .array _ (hitems ▸ hvs)

/-- Where there is a new object with the entries, it has their trees. -/
theorem Keeps.hasTree_newObject {s later : Store} {b : Bindings Value}
    {ts : List (String × Snapshot)} (h : (s.newObject b).1.Keeps [] later)
    (hvs : later.HasNamedTrees b.entries ts) :
    later.HasTree (.object (s.newObject b).2) (.object ts) := by
  have hmade : (s.newObject b).1.hasMade (.object (s.newObject b).2) = true := by
    simp [hasMade, newObject]
  have hcontents := h.contents hmade List.not_mem_nil
  have hproperties : later.properties (s.newObject b).2 = b := by
    rw [Contents.object.inj hcontents, properties_newObject]
    exact if_pos rfl
  exact .object _ (hproperties ▸ hvs)

theorem reads_items {items : List Json} (h : ∀ item ∈ items, ∀ s : Store, s.Reads item)
    (s : Store) : s.Keeps [] (s.buildItems items).1 ∧
      ∀ later, (s.buildItems items).1.Keeps [] later →
        later.HasTrees (s.buildItems items).2 (items.map Json.tree) := by
  induction items generalizing s with
  | nil => exact ⟨.refl s, fun _ _ => .nil⟩
  | cons item rest ih =>
    have hfirst := h item List.mem_cons_self s
    obtain ⟨hkeeps, hrest⟩ := ih (fun item hitem => h item (.tail _ hitem)) (s.build item).1
    exact ⟨hfirst.keeps.trans hkeeps, fun later hlater =>
      .cons (hfirst.hasTree (hkeeps.trans hlater)) (hrest later hlater)⟩

theorem names_buildEntries (entries : List (String × Json)) (s : Store) :
    (s.buildEntries entries).2.map Prod.fst = entries.map Prod.fst := by
  induction entries generalizing s with
  | nil => rfl
  | cons e rest ih =>
    rw [List.map_cons, ← ih (s.build e.2).1]
    rfl

theorem reads_entries {entries : List (String × Json)}
    (h : ∀ e ∈ entries, ∀ s : Store, s.Reads e.2) (s : Store) :
    s.Keeps [] (s.buildEntries entries).1 ∧
      ∀ later, (s.buildEntries entries).1.Keeps [] later →
        later.HasNamedTrees (s.buildEntries entries).2 (entries.map fun e => (e.1, e.2.tree)) := by
  induction entries generalizing s with
  | nil => exact ⟨.refl s, fun _ _ => .nil⟩
  | cons e rest ih =>
    have hfirst := h e List.mem_cons_self s
    obtain ⟨hkeeps, hrest⟩ := ih (fun e he => h e (.tail _ he)) (s.build e.2).1
    exact ⟨hfirst.keeps.trans hkeeps, fun later hlater =>
      .cons e.1 (hfirst.hasTree (hkeeps.trans hlater)) (hrest later hlater)⟩

end Store

open Store in
/-- A document is read into a value with its tree. -/
theorem Json.IsDocument.reads {j : Json} (h : j.IsDocument) (s : Store) : s.Reads j := by
  induction h generalizing s with
  | null => exact ⟨.refl s, fun _ => tree.eq_1 ▸ .null⟩
  | bool b => exact ⟨.refl s, fun _ => tree.eq_2 b ▸ .bool b⟩
  | @integer n => exact ⟨.refl s, fun _ => tree.eq_3 n ▸ .number _⟩
  | @number x => exact ⟨.refl s, fun _ => tree.eq_4 x ▸ .number x⟩
  | string t => exact ⟨.refl s, fun _ => tree.eq_5 t ▸ .string t⟩
  | @array items _ ih =>
    obtain ⟨hkeeps, htrees⟩ := reads_items ih s
    have hnew := keeps_newArray (s.buildItems items).1 (s.buildItems items).2
    refine ⟨hkeeps.trans hnew, fun hlater => ?_⟩
    rw [tree]
    exact hlater.hasTree_newArray (htrees _ (hnew.trans hlater))
  | @object entries hnames _ ih =>
    obtain ⟨hkeeps, htrees⟩ := reads_entries ih s
    have hnew := keeps_newObject (s.buildEntries entries).1
      (Bindings.ofList (s.buildEntries entries).2)
    have hnodup : ((s.buildEntries entries).2.map Prod.fst).Nodup := by
      rw [names_buildEntries]
      exact hnames.nodup
    refine ⟨hkeeps.trans hnew, fun hlater => ?_⟩
    rw [tree]
    refine hlater.hasTree_newObject ?_
    rw [Bindings.entries_ofList hnodup]
    exact htrees _ (hnew.trans hlater)

/-- A document is read into a value that is not inside itself, and is written as its tree. -/
theorem Json.IsDocument.snapshot_ofJson {j : Json} (h : j.IsDocument) (s : Store) :
    (s.ofJson j).1.AcyclicBelow (s.ofJson j).2 ∧
      (s.ofJson j).1.snapshot (s.ofJson j).2 = j.tree := by
  unfold Store.ofJson
  rw [h.sorted_eq]
  exact Store.hasTree_iff.1 ((h.reads s).hasTree (.refl _))

/-! ### Writing -/

/-- What is written for a tree, once its entries are sorted, is a document with the plain tree. -/
structure Snapshot.HasDocument (t : Snapshot) : Prop where
  isDocument : t.toJson.sorted.IsDocument
  tree_eq : t.toJson.sorted.tree = t.plain

namespace Snapshot.HasDocument

theorem number (x : Float) : HasDocument (.number x) := by
  have hplain : (Snapshot.number x).plain = if x.isFinite then .number x else .null := by
    rw [plain]
  by_cases hfinite : x.isFinite = true
  · have hjson : (Snapshot.number x).toJson.sorted = .number x := by
      rw [toJson, if_pos hfinite]
      rfl
    exact ⟨hjson ▸ .number hfinite, by rw [hjson, hplain, if_pos hfinite, Json.tree]⟩
  · have hjson : (Snapshot.number x).toJson.sorted = .null := by
      rw [toJson, if_neg hfinite]
      rfl
    exact ⟨hjson ▸ .null, by rw [hjson, hplain, if_neg hfinite, Json.tree]⟩

theorem array {items : List Snapshot} (h : ∀ t ∈ items, t.HasDocument) :
    HasDocument (.array items) := by
  have hjson : (Snapshot.array items).toJson.sorted =
      .array (items.map fun t => t.toJson.sorted) := by
    rw [toJson_array, Json.sorted_array, List.map_map]
    rfl
  constructor
  · rw [hjson]
    refine .array fun item hitem => ?_
    obtain ⟨t, ht, rfl⟩ := List.mem_map.1 hitem
    exact (h t ht).isDocument
  · rw [hjson, Json.tree, List.map_map, plain]
    exact congrArg _ (List.map_congr_left fun t ht => (h t ht).tree_eq)

theorem object {entries : List (String × Snapshot)} (hnodup : (entries.map Prod.fst).Nodup)
    (h : ∀ e ∈ entries, e.2.HasDocument) : HasDocument (.object entries) := by
  have hnames : ((entries.map fun e => (e.1, e.2.toJson.sorted)).map Prod.fst).Nodup := by
    rw [List.map_map]
    exact hnodup
  have hjson : (Snapshot.object entries).toJson.sorted =
      .object ((entries.map fun e => (e.1, e.2.toJson.sorted)).mergeSort fun e f => e.1 ≤ f.1) := by
    rw [toJson_object, Json.sorted_object, List.map_map, ← Json.sortEntries_eq_mergeSort hnames]
    rfl
  constructor
  · rw [hjson]
    refine .object (.mergeSort hnames) fun e he => ?_
    obtain ⟨t, ht, rfl⟩ := List.mem_map.1 (List.mem_mergeSort.1 he)
    exact (h t ht).isDocument
  · have htrees : ((entries.map fun e => (e.1, e.2.toJson.sorted)).map fun e => (e.1, e.2.tree)) =
        entries.map fun e => (e.1, e.2.plain) := by
      rw [List.map_map]
      exact List.map_congr_left fun e he => Prod.ext rfl (h e he).tree_eq
    rw [hjson, Json.tree, plain, ← htrees]
    exact congrArg _ (List.map_mergeSort fun _ _ _ _ => rfl)

end Snapshot.HasDocument

namespace Store

variable {s : Store}

theorem HasNamedTrees.names {vs : List (String × Value)} {ts : List (String × Snapshot)}
    (h : s.HasNamedTrees vs ts) : ts.map Prod.fst = vs.map Prod.fst := by
  induction ts generalizing vs with
  | nil => cases h; rfl
  | cons t ts ih =>
    cases h with
    | cons name _ hrest => rw [List.map_cons, List.map_cons, ih hrest]

mutual

/-- In a store the entries of an object have different names, all the way down. -/
theorem HasTree.hasDocument {v : Value} {t : Snapshot} : s.HasTree v t → t.HasDocument
  | .undefined => ⟨.null, by rw [Snapshot.plain]; exact Json.tree.eq_1⟩
  | .null => ⟨.null, by rw [Snapshot.plain]; exact Json.tree.eq_1⟩
  | .function _ => ⟨.null, by rw [Snapshot.plain]; exact Json.tree.eq_1⟩
  | .bool b => ⟨.bool b, by rw [Snapshot.plain]; exact Json.tree.eq_2 b⟩
  | .string t => ⟨.string t, by rw [Snapshot.plain]; exact Json.tree.eq_5 t⟩
  | .number x => .number x
  | .cell _ h => ⟨h.hasDocument.isDocument, by rw [Snapshot.plain]; exact h.hasDocument.tree_eq⟩
  | .array _ h => .array h.hasDocument
  | .object r h => .object (h.names ▸ (s.properties r).nodup) h.hasDocument

theorem HasTrees.hasDocument {vs : List Value} {ts : List Snapshot} :
    s.HasTrees vs ts → ∀ t ∈ ts, t.HasDocument
  | .nil => fun _ ht => absurd ht List.not_mem_nil
  | .cons h hrest => List.forall_mem_cons.2 ⟨h.hasDocument, hrest.hasDocument⟩

theorem HasNamedTrees.hasDocument {vs : List (String × Value)} {ts : List (String × Snapshot)} :
    s.HasNamedTrees vs ts → ∀ e ∈ ts, e.2.HasDocument
  | .nil => fun _ he => absurd he List.not_mem_nil
  | .cons _ h hrest => List.forall_mem_cons.2 ⟨h.hasDocument, hrest.hasDocument⟩

end

end Store

/-- **Documents survive the trip.**  A document that is read and written again is the same document
with every number made a double, and an integer is made the nearest double; arrays keep their order
and objects the order of their entries.  A value that is nowhere inside itself, written as a
document and read again, here or anywhere, is a value that is nowhere inside itself, and written out
it has what cells hold in their place, `null` for `undefined`, functions and numbers that are not
finite, and the entries of objects in the order of their names. -/
theorem json_round_trip :
    (∀ (s : Store) (j : Json), j.IsDocument →
      (s.ofJson j).1.toJson (s.ofJson j).2 = j.inDoubles) ∧
    (∀ n : Int, Exact.IsNearest (n < 0) n.natAbs (Exact.ofFloat (ofInteger n))) ∧
    ∀ (s s' : Store) (v : Value), s.AcyclicBelow v →
      (s'.ofJson (s.toJson v)).1.AcyclicBelow (s'.ofJson (s.toJson v)).2 ∧
      (s'.ofJson (s.toJson v)).1.snapshot (s'.ofJson (s.toJson v)).2 = (s.snapshot v).plain := by
  refine ⟨fun s j h => ?_, isNearest_ofInteger, fun s s' v h => ?_⟩
  · unfold Store.toJson
    rw [(h.snapshot_ofJson s).2, h.toJson_tree]
  · have hdocument := h.hasTree_snapshot.hasDocument
    have hsorted := hdocument.isDocument.snapshot_ofJson s'
    have hread : s'.ofJson (s.toJson v) = s'.ofJson (s.toJson v).sorted := by
      unfold Store.ofJson Store.toJson
      rw [hdocument.isDocument.sorted_eq]
    rw [hread]
    exact ⟨hsorted.1, hsorted.2.trans hdocument.tree_eq⟩

/-- An array with a cell that holds a truth value, and with the absent value. -/
def arrayWithCell : Store where
  arrays := #[[.cell ⟨0⟩, .undefined]]
  cells := #[{ held := .bool true }]

theorem nested_values_come_back :
    let ada : Json :=
      .object [("name", .string "Ada"), ("tags", .array [.string "a", .integer 1, .null])]
    ada.IsDocument ∧
      (Store.ofJson {} ada).1.toJson (Store.ofJson {} ada).2 =
        .object [("name", .string "Ada"),
          ("tags", .array [.string "a", .number (ofInteger 1), .null])] ∧
      arrayWithCell.AcyclicBelow (.array ⟨0⟩) ∧
      (Store.ofJson {} (arrayWithCell.toJson (.array ⟨0⟩))).1.snapshot
          (Store.ofJson {} (arrayWithCell.toJson (.array ⟨0⟩))).2 =
        .array [.bool true, .null] := by
  intro ada
  have hada : ada.IsDocument := by
    refine .object (List.pairwise_pair.2 (by decide)) (List.forall_mem_cons.2 ⟨.string _, ?_⟩)
    refine List.forall_mem_singleton.2 (.array ?_)
    exact List.forall_mem_cons.2 ⟨.string _, List.forall_mem_cons.2
      ⟨.integer (by decide) (by decide), List.forall_mem_singleton.2 .null⟩⟩
  have htree : arrayWithCell.HasTree (.array ⟨0⟩) (.array [.cell (.bool true), .undefined]) :=
    .array _ (.cons (.cell _ (.bool true)) (.cons .undefined .nil))
  obtain ⟨hacyclic, hsnapshot⟩ := Store.hasTree_iff.1 htree
  refine ⟨hada, (json_round_trip.1 {} ada hada).trans ?_, hacyclic,
    (json_round_trip.2.2 arrayWithCell {} _ hacyclic).2.trans ?_⟩
  · simp [ada, Json.inDoubles]
  · rw [hsnapshot]
    simp [Snapshot.plain]

end LiveMarkup
