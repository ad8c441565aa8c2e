import LiveMarkup.Proofs.JoinedTexts

/-!
# Cells as elements of arrays

An array is written element by element, and an element that is a cell is written as what it holds.
So putting elements of arrays into cells, at any depth and also in arrays that contain themselves,
changes no text, and no number, operator or key that goes by texts.  There is one exception: a
nullish element writes nothing, but a cell that holds one writes the word for it.

## Main definitions

* `Store.Veils` — in a second store a value is as in the first, but for elements that are in cells.

## Main results

* `Store.veils_setItems` — so it is when elements of one array are put into cells.
* `Store.Veils.textWithin` — the value has the same text.
* `Store.Veils.coercions`, `Store.Veils.unary`, `Store.Veils.binary` — what it is taken for, and
  what operators make of it.
* `coercions_see_through_cells` — all of this, also for a value that is in a cell itself.
-/

namespace LiveMarkup

open Eval Syntax

namespace Store

variable {s t : Store} {v w : Value}

/-- All that writing `v` in the store `s` comes to is as it is there in the store `t`, except that
elements of arrays may be in cells that hold them; a cell that holds a nullish value stands in place
of the word for it. -/
structure Veils (s t : Store) (v : Value) : Prop where
  held {c : CellRef} (hc : s.ComesTo (.cell c) v) : t.held c = s.held c
  items {r : ArrayRef} (hr : s.ComesTo (.array r) v) :
    List.Forall₂ t.Spells (s.items r) (t.items r)

theorem veils_of_isLeaf (hv : v.IsLeaf) : s.Veils t v := by
  refine ⟨fun h => ?_, fun h => ?_⟩ <;>
  · cases h with
    | here h => cases v <;> first | exact hv.elim | cases h
    | cell | element => exact hv.elim

/-- Elements of an array may be put into cells that hold them, also where the value comes to the
array again. -/
theorem veils_setItems {r : ArrayRef} {vs : List Value}
    (h : List.Forall₂ s.Spells (s.items r) vs) (v : Value) : s.Veils (s.setItems r vs) v := by
  have hspells (v w : Value) (hvw : s.Spells v w) : (s.setItems r vs).Spells v w := by
    cases hvw with
    | self => exact .self v
    | cell c => exact .cell c
  refine ⟨fun _ => rfl, fun {a} _ => ?_⟩
  rw [items_setItems]
  by_cases ha : a = r ∧ s.hasMade (.array a)
  · rw [if_pos ha, ha.1]
    exact h.imp hspells
  · rw [if_neg ha]
    exact List.forall₂_same.2 fun v _ => .self v

namespace Veils

theorem ofHeld {c : CellRef} (h : s.Veils t (.cell c)) : s.Veils t (s.held c) :=
  ⟨fun hd => h.held (.cell hd), fun hr => h.items (.cell hr)⟩

theorem ofElement {r : ArrayRef} (h : s.Veils t (.array r)) (hv : v ∈ s.items r) : s.Veils t v :=
  ⟨fun hc => h.held (.element hv hc), fun hq => h.items (.element hv hq)⟩

/-! ### Chains of cells -/

theorem iterate_unwrap (h : s.Veils t v) (k : Nat) : t.unwrap^[k] v = s.unwrap^[k] v := by
  induction k generalizing v with
  | zero => rfl
  | succ k ih =>
    cases v with
    | cell c => exact (congrArg t.unwrap^[k] (h.held (.here rfl))).trans (ih h.ofHeld)
    | _ => exact ih h

theorem followCells (h : s.Veils t v) (n : Nat) :
    t.followCells n v = s.followCells n v ∧ s.Veils t (s.followCells n v) := by
  induction n generalizing v with
  | zero => exact ⟨rfl, veils_of_isLeaf trivial⟩
  | succ n ih =>
    cases v with
    | cell c =>
      have hheld := ih h.ofHeld
      exact ⟨(congrArg (t.followCells n) (h.held (.here rfl))).trans hheld.1, hheld.2⟩
    | _ => exact ⟨rfl, h⟩

theorem resolve (h : s.Veils t v) : t.resolve v = s.resolve v ∧ s.Veils t (s.resolve v) := by
  have hs : s.cells.size < s.cells.size + t.cells.size + 1 := by omega
  have ht : t.cells.size < s.cells.size + t.cells.size + 1 := by omega
  rw [← followCells_eq_resolve hs, ← followCells_eq_resolve ht]
  exact h.followCells _

/-! ### Texts -/

/-- An element writes in a cell what it wrote outside, if it is written the same there. -/
theorem elementText {joining : List ArrayRef} (hvw : t.Spells v w)
    (hv : t.textWithin joining v = s.textWithin joining v) :
    t.elementText joining w = s.elementText joining v := by
  unfold Store.elementText
  rw [hvw.isNullish]
  cases hvw with
  | self => rw [hv]
  | cell c => rw [textWithin_cell, ← textWithin_worded, hv]

theorem map_elementText {joining : List ArrayRef} {r : ArrayRef} (h : s.Veils t (.array r))
    (hitems : ∀ v ∈ s.items r, t.textWithin joining v = s.textWithin joining v) :
    (t.items r).map (t.elementText joining) = (s.items r).map (s.elementText joining) := by
  rw [eq_comm, ← List.forall₂_eq_eq_eq, List.forall₂_map_left_iff, List.forall₂_map_right_iff]
  exact ((List.forall₂_and_left _ _).2 ⟨hitems, h.items (.here rfl)⟩).imp fun v w hvw =>
    (elementText hvw.2 hvw.1).symm

/-- The value has the same text inside arrays that are being written. -/
theorem textWithin (h : s.Veils t v) (joining : List ArrayRef) :
    t.textWithin joining v = s.textWithin joining v := by
  induction joining, v using text_induction (s := s) with
  | endless joining v hcells =>
    rw [textWithin_of_endless hcells, textWithin_of_endless fun k => h.iterate_unwrap k ▸ hcells k]
  | leaf joining v hv => rw [textWithin_of_isLeaf hv, textWithin_of_isLeaf hv]
  | again joining r hr => rw [textWithin_of_mem hr, textWithin_of_mem hr]
  | cell joining c ih => rw [textWithin_cell, textWithin_cell, h.held (.here rfl), ih h.ofHeld]
  | array joining r hr ih =>
    rw [textWithin_array hr, textWithin_array hr,
      h.map_elementText fun v hv => ih v hv (h.ofElement hv)]

theorem display (h : s.Veils t v) : t.display v = s.display v := by
  rw [← textWithin_nil, ← textWithin_nil]
  exact h.textWithin []

/-! ### Other coercions -/

/-- All that a value is taken for in the first store a cell that holds it is taken for in the
second. -/
theorem coercions (h : s.Veils t v) (hw : t.Wraps v w) :
    t.display w = s.display v ∧ t.toNumber w = s.toNumber v ∧ t.isTruthy w = s.isTruthy v ∧
      t.typeName w = s.typeName v ∧ t.toPrimitive w = s.toPrimitive v ∧
        t.propertyKey w = s.propertyKey v := by
  obtain ⟨hresolve, hend⟩ := h.resolve
  obtain ⟨hdisplay, hnumber, htruthy, htype, hprimitive, hkey⟩ := hw.coercions
  refine ⟨hdisplay.trans h.display, hnumber.trans ?_, htruthy.trans ?_, htype.trans ?_,
    hprimitive.trans ?_, hkey.trans ?_⟩
  · unfold toNumber
    rw [hresolve]
    generalize s.resolve v = a at hend
    cases a with
    | array r => exact congrArg Number.ofText hend.display
    | _ => rfl
  · rw [isTruthy, hresolve, isTruthy]
  · rw [typeName, hresolve, typeName]
  · unfold toPrimitive
    rw [hresolve]
    generalize s.resolve v = a at hend
    cases a with
    | array r | object r => exact congrArg Value.string hend.display
    | _ => rfl
  · rw [propertyKey, hresolve, hend.display, propertyKey]

end Veils

theorem isLeaf_toPrimitive (s : Store) (v : Value) : (s.toPrimitive v).IsLeaf := by
  have hend := s.not_isCell_resolve v
  unfold toPrimitive
  generalize s.resolve v = a at hend
  cases a with
  | cell c => exact absurd ⟨c, rfl⟩ hend
  | _ => trivial

/-- The method `join` of an array is called through a cell as on the array itself. -/
theorem callMember_wrapped_join {r : ArrayRef} (hw : s.Wraps (.array r) w) (args : List Value)
    (optional : Bool) :
    callMember s w "join" args optional =
      (s, .ok (some (.string (String.intercalate ((given? args.head?).elim "," s.display)
        ((s.items r).map (s.elementText [])))))) := by
  have hheld : s.unwrap w = .array r := by
    generalize hv : Value.array r = v at hw
    cases hw with
    | self => rw [← hv]; rfl
    | cell c => rfl
  have hquiet : afterMethod s w (.array r) "join" = s := by cases w <;> rfl
  simp only [callMember, callBuiltinMember, hheld, Value.nullishName?, ownMember?,
    s.callBuiltin_join r args, hquiet]

namespace Veils

variable {v' w' : Value}

theorem unary (op : UnaryOp) (h : s.Veils t v) (hw : t.Wraps v w) :
    Eval.unary t op w = Eval.unary s op v := by
  obtain ⟨-, hnumber, htruthy, htype, -⟩ := h.coercions hw
  unfold Eval.unary
  rw [hnumber, htruthy, htype]

/-- Operators that do not ask whether values are equal compute the same. -/
theorem binary {op : BinaryOp} (hop : op ∉ [.equal, .notEqual, .strictEqual, .strictNotEqual])
    (h : s.Veils t v) (hw : t.Wraps v w) (h' : s.Veils t v') (hw' : t.Wraps v' w') :
    Eval.binary t op w w' = Eval.binary s op v v' := by
  obtain ⟨-, hnumber, -, -, hprimitive, -⟩ := h.coercions hw
  obtain ⟨-, hnumber', -, -, hprimitive', -⟩ := h'.coercions hw'
  -- what operators start from is no array, and so is taken the same anywhere
  have hleaf (v : Value) :=
    (veils_of_isLeaf (s := s) (t := t) (s.isLeaf_toPrimitive v)).coercions (.self _)
  have htext := (hleaf v).1
  have hvalue := (hleaf v).2.1
  have htext' := (hleaf v').1
  have hvalue' := (hleaf v').2.1
  have hcompare : compareValues t w w' = compareValues s v v' := by
    unfold compareValues
    rw [hprimitive, hprimitive']
    generalize s.toPrimitive v = a, s.toPrimitive v' = b at hvalue hvalue'
    split
    · rfl
    · rw [hvalue, hvalue']
  have hadd : Eval.add t w w' = Eval.add s v v' := by
    unfold Eval.add
    rw [hprimitive, hprimitive']
    generalize s.toPrimitive v = a, s.toPrimitive v' = b at htext hvalue htext' hvalue'
    split
    · rw [htext']
    · rw [htext]
    · rw [hvalue, hvalue']
  cases op with
  | equal | notEqual | strictEqual | strictNotEqual => exact absurd hop (by decide)
  | add => exact hadd
  | sub | mul | div | rem | pow => simp only [Eval.binary, hnumber, hnumber']
  | less | lessEqual | greater | greaterEqual => simp only [Eval.binary, hcompare]

/-- The elements of an array, or of one that a cell holds, are joined to the same text. -/
theorem callMember_join {r : ArrayRef} (h : s.Veils t (.array r)) (hw : t.Wraps (.array r) w)
    {args : List Value} (hargs : ∀ v ∈ args, v.IsLeaf) (optional : Bool) :
    ∃ text, callMember s (.array r) "join" args optional = (s, .ok (some (.string text))) ∧
      callMember t w "join" args optional = (t, .ok (some (.string text))) := by
  have hseparator : (given? args.head?).elim "," t.display =
      (given? args.head?).elim "," s.display := by
    cases args with
    | nil => rfl
    | cons a rest =>
      have ha : t.display a = s.display a :=
        (veils_of_isLeaf (hargs a List.mem_cons_self)).display
      cases a with
      | undefined => rfl
      | _ => exact ha
  refine ⟨_, callMember_wrapped_join (.self _) args optional, ?_⟩
  rw [callMember_wrapped_join hw, hseparator,
    h.map_elementText fun v hv => (h.ofElement hv).textWithin []]

end Veils

end Store

/-- Coercions see through cells at every depth.  Let all that writing a value comes to be in a
second store as in the first, but for elements of arrays that are in cells which hold them, and let
the value be in a cell itself or not.  Then its text, its number, its truth value and the name of
its type are what they were, and so is the property that it names, what operators make of it that do
not ask for equality, and what it is joined to if it is an array.  Arrays may contain themselves.
Only a cell that holds a nullish value is not an element that writes nothing: it stands in place of
the word for that value. -/
theorem coercions_see_through_cells {s t : Store} {v w : Value} (h : s.Veils t v)
    (hw : t.Wraps v w) :
    (t.display w = s.display v ∧ t.toNumber w = s.toNumber v ∧ t.isTruthy w = s.isTruthy v ∧
        t.typeName w = s.typeName v ∧ t.propertyKey w = s.propertyKey v) ∧
      (∀ op, unary t op w = unary s op v) ∧
      (∀ op ∉ [BinaryOp.equal, .notEqual, .strictEqual, .strictNotEqual],
        ∀ v' w', s.Veils t v' → t.Wraps v' w' →
          binary t op w w' = binary s op v v' ∧ binary t op w' w = binary s op v' v) ∧
      ∀ r args optional, v = .array r → (∀ a ∈ args, a.IsLeaf) →
        ∃ text, callMember s v "join" args optional = (s, .ok (some (.string text))) ∧
          callMember t w "join" args optional = (t, .ok (some (.string text))) := by
  obtain ⟨hdisplay, hnumber, htruthy, htype, -, hkey⟩ := h.coercions hw
  refine ⟨⟨hdisplay, hnumber, htruthy, htype, hkey⟩, fun op => h.unary op hw,
    fun op hop v' w' h' hw' => ⟨h.binary hop hw h' hw', h'.binary hop hw' h hw⟩, ?_⟩
  rintro r args optional rfl hargs
  exact h.callMember_join hw hargs optional

/-- Two lists, one in the other, and cells that hold nothing and the inner list. -/
def nestedLists : Store where
  arrays := #[[.string "undefined", .array ⟨1⟩], [.bool true, .null]]
  cells := #[{}, { held := .array ⟨1⟩ }]

/-- With both elements of the outer list in cells, the inner list, in its cell, and the outer list
have the texts they had. -/
theorem veiled_lists_have_text :
    let s := nestedLists
    let t := s.setItems ⟨0⟩ [.cell ⟨0⟩, .cell ⟨1⟩]
    s.Veils t (.array ⟨0⟩) ∧ s.Veils t (.array ⟨1⟩) ∧ t.Wraps (.array ⟨1⟩) (.cell ⟨1⟩) ∧
      t.display (.cell ⟨1⟩) = "true," ∧
      binary t .add (.cell ⟨1⟩) (.array ⟨0⟩) = .string "true,undefined,true," := by
  intro s t
  have helements : List.Forall₂ s.Spells (s.items ⟨0⟩) [.cell ⟨0⟩, .cell ⟨1⟩] :=
    .cons (.cell ⟨0⟩) (.cons ((Store.Wraps.cell ⟨1⟩).spells rfl) .nil)
  have hveiled (v : Value) : s.Veils t v := Store.veils_setItems helements v
  have hcell : t.Wraps (.array ⟨1⟩) (.cell ⟨1⟩) := .cell ⟨1⟩
  obtain ⟨⟨hdisplay, -⟩, -, hbinary, -⟩ := coercions_see_through_cells (hveiled _) hcell
  refine ⟨hveiled _, hveiled _, hcell, hdisplay.trans rfl, ?_⟩
  exact (hbinary .add (by decide) _ _ (hveiled _) (.self (.array ⟨0⟩))).1.trans rfl

/-- An element that is `undefined` writes nothing, and so the list is zero as a number.  In a cell
it writes its word, and the list is not a number. -/
theorem absent_element_is_written :
    let s : Store := { arrays := #[[.undefined]], cells := #[{}] }
    let t := s.setItems ⟨0⟩ [.cell ⟨0⟩]
    s.Wraps .undefined (.cell ⟨0⟩) ∧
      s.display (.array ⟨0⟩) = "" ∧ t.display (.array ⟨0⟩) = "undefined" ∧
      s.toNumber (.array ⟨0⟩) = 0.0 ∧ t.toNumber (.array ⟨0⟩) = Number.nan :=
  ⟨.cell ⟨0⟩, rfl, rfl, rfl, rfl⟩

end LiveMarkup
