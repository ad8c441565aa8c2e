import LiveMarkup.Proofs.Methods
import LiveMarkup.Proofs.Wrappings

/-!
# Cells as arguments of methods

Methods take their arguments as texts and numbers, and both are those of what a cell holds.  What
they do not see through is a cell that holds a nullish value: where a nullish argument asks for a
default, such a cell asks for the word.  As a number the word `null` is not a number and `null` is
zero, but no position, count, number of places or radix tells these two apart.  And `includes` and
`indexOf` of an array compare elements with the cell itself.

## Main definitions

* `Number.AlikeAsCount` — numbers that are the same, or zero in place of what is not a number.

## Main results

* `Store.stringMethod_spelled`, `Store.arrayMethod_spelled`, `Store.numberMethod_spelled` — methods
  over arguments of which some are cells.
* `arguments_are_seen_through` — any builtin method.
-/

namespace LiveMarkup

open Number Eval

/-! ### Zero and what is not a number -/

/-- The same number, or zero in place of what is not a number. -/
def Number.AlikeAsCount (x y : Float) : Prop := x = y ∨ x = 0.0 ∧ y = nan

namespace Number.AlikeAsCount

variable {x y : Float}

theorem toInteger (h : AlikeAsCount x y) : toInteger x = toInteger y := by
  rcases h with rfl | ⟨rfl, rfl⟩
  · rfl
  · decide +kernel

theorem toIndex (h : AlikeAsCount x y) : toIndex x = toIndex y := by
  rcases h with rfl | ⟨rfl, rfl⟩
  · rfl
  · decide +kernel

theorem repeatText (h : AlikeAsCount x y) (cs : List Char) :
    StringMethod.repeatText cs x = StringMethod.repeatText cs y := by
  have hindex := h.toIndex
  rcases h with rfl | ⟨rfl, rfl⟩
  · rfl
  · have hzero : ((0.0 : Float) < 0.0 || (0.0 : Float).isInf) = false := by decide
    have hnan : (nan < 0.0 || nan.isInf) = false := by decide
    simp only [StringMethod.repeatText, hindex, hzero, hnan, Bool.false_eq_true, if_false]

end Number.AlikeAsCount

namespace Store

variable {s : Store} {v w : Value} {args args' : List Value}

theorem Spells.toNumber (h : s.Spells v w) : AlikeAsCount (s.toNumber w) (s.toNumber v) := by
  cases h with
  | self => exact .inl rfl
  | cell c =>
    rw [(Wraps.cell c).coercions.2.1]
    generalize s.held c = v
    cases v with
    | undefined => exact .inl rfl
    | null => exact .inr ⟨rfl, rfl⟩
    | _ => exact .inl rfl

/-! ### Arguments -/

theorem Spells.getElem? (h : List.Forall₂ s.Spells args args') (i : Nat) :
    Option.Rel s.Spells args[i]? args'[i]? := by
  induction h generalizing i with
  | nil => exact .none
  | cons hv _ ih =>
    cases i with
    | zero => exact .some hv
    | succ i => exact ih i

theorem Spells.argument (h : List.Forall₂ s.Spells args args') (i : Nat) :
    s.Spells (argument args i) (argument args' i) := by
  have hi := Spells.getElem? h i
  unfold LiveMarkup.argument
  rw [List.getD_eq_getElem?_getD, List.getD_eq_getElem?_getD]
  generalize args[i]? = o, args'[i]? = o' at hi
  cases hi with
  | none => exact .self _
  | some hv => exact hv

/-- A cell is given where what it stands for is. -/
theorem Spells.given? {o o' : Option Value} (h : Option.Rel s.Spells o o') :
    Option.Rel s.Spells (LiveMarkup.given? o) (LiveMarkup.given? o') := by
  cases h with
  | none => exact .none
  | @some v _ hv =>
    cases hv with
    | self =>
      cases v with
      | undefined => exact .none
      | _ => exact .some (.self _)
    | cell c =>
      have hgiven : LiveMarkup.given? (some (s.held c).worded) = some (s.held c).worded := by
        generalize s.held c = v
        cases v <;> rfl
      rw [hgiven]
      exact .some (.cell c)

theorem Spells.elim_eq {α : Type} {o o' : Option Value} {f : Value → α}
    (h : Option.Rel s.Spells o o') (hf : ∀ v w, s.Spells v w → f w = f v) (a : α) :
    o'.elim a f = o.elim a f := by
  cases h with
  | none => rfl
  | some hv => exact hf _ _ hv

theorem Spells.relativeIndex (h : s.Spells v w) (length default : Nat) :
    s.relativeIndex w length default = s.relativeIndex v length default := by
  unfold Store.relativeIndex
  rw [h.isNullish, h.toNumber.toInteger]

theorem Spells.clampedIndex (h : s.Spells v w) (length default : Nat) :
    s.clampedIndex w length default = s.clampedIndex v length default := by
  unfold Store.clampedIndex
  rw [h.isNullish, h.toNumber.toIndex]

theorem Spells.elementIndex? (h : s.Spells v w) (length : Nat) :
    s.elementIndex? w length = s.elementIndex? v length := by
  unfold Store.elementIndex?
  rw [h.toNumber.toInteger]

theorem Spells.foldl_display (h : List.Forall₂ s.Spells args args') (text : String) :
    args'.foldl (fun text v => text ++ s.display v) text =
      args.foldl (fun text v => text ++ s.display v) text := by
  induction h generalizing text with
  | nil => rfl
  | cons hv _ ih => rw [List.foldl_cons, List.foldl_cons, hv.display, ih]

theorem Spells.textOr {o o' : Option Value} (h : Option.Rel s.Spells o o') (default : String) :
    StringMethod.textOr s default o' = StringMethod.textOr s default o := by
  rw [textOr_eq, textOr_eq]
  exact elim_eq (given? h) (fun _ _ hv => hv.display) default

theorem Spells.pieces {o o' : Option Value} (h : Option.Rel s.Spells o o') (text : List Char) :
    StringMethod.pieces s text o' = StringMethod.pieces s text o := by
  rw [pieces_eq, pieces_eq]
  exact elim_eq (given? h) (fun _ _ hv => congrArg (splitText text) hv.display) _

theorem Spells.fixedText {o o' : Option Value} (h : Option.Rel s.Spells o o') (x : Float) :
    NumberMethod.fixedText s x o' = NumberMethod.fixedText s x o := by
  rw [fixedText_eq, fixedText_eq, elim_eq (given? h) (fun _ _ hv => hv.toNumber.toInteger) 0]

theorem Spells.radixText (h : s.Spells v w) (x : Float) :
    NumberMethod.radixText s x w = NumberMethod.radixText s x v := by
  unfold NumberMethod.radixText
  rcases h.toNumber with heq | ⟨hw, hv⟩
  · rw [heq]
  · rw [hw, hv]
    have hzero : ¬(2.0 ≤ (0.0 : Float) ∧ (0.0 : Float) ≤ 36.0) := by decide
    have hnan : ¬(2.0 ≤ nan ∧ nan ≤ 36.0) := by decide
    exact (if_neg hzero).trans (if_neg hnan).symm

/-! ### Methods -/

/-- A method of a text takes a cell for what it stands in place of. -/
theorem stringMethod_spelled (m : StringMethod) (text : String)
    (h : List.Forall₂ s.Spells args args') : m.apply text args' s = m.apply text args s := by
  have htext (i : Nat) : s.display (argument args' i) = s.display (argument args i) :=
    (Spells.argument h i).display
  have hsecond := Spells.getElem? h 1
  cases m with
  | toUpperCase | toLowerCase | trim | trimStart | trimEnd => rfl
  | includes | startsWith | endsWith | indexOf | replace | replaceAll =>
    simp only [StringMethod.apply, htext]
  | slice => simp only [StringMethod.apply, (Spells.argument h _).relativeIndex]
  | substring => simp only [StringMethod.apply, (Spells.argument h _).clampedIndex]
  | split =>
    simp only [StringMethod.apply, List.head?_eq_getElem?, Spells.pieces (Spells.getElem? h 0)]
  | repeated => simp only [StringMethod.apply, (Spells.argument h 0).toNumber.repeatText]
  | padStart | padEnd =>
    simp only [StringMethod.apply, Spells.textOr hsecond, (Spells.argument h 0).toNumber.toIndex]
  | charAt => simp only [StringMethod.apply, (Spells.argument h 0).toNumber.toInteger]
  | «at» => simp only [StringMethod.apply, (Spells.argument h 0).elementIndex?]
  | concat => simp only [StringMethod.apply, Spells.foldl_display h]

/-- So does a method of an array that neither keeps its arguments nor looks for one of them. -/
theorem arrayMethod_spelled {m : ArrayMethod}
    (hm : m ∉ [.push, .unshift, .splice, .concat, .includes, .indexOf]) (r : ArrayRef)
    (h : List.Forall₂ s.Spells args args') : m.apply r args' s = m.apply r args s := by
  cases m with
  | push | unshift | splice | concat | includes | indexOf => exact absurd hm (by decide)
  | pop | shift | reverse => rfl
  | join =>
    simp only [ArrayMethod.apply, List.head?_eq_getElem?, Spells.textOr (Spells.getElem? h 0)]
  | slice => simp only [ArrayMethod.apply, (Spells.argument h _).relativeIndex]
  | «at» => simp only [ArrayMethod.apply, (Spells.argument h 0).elementIndex?]

/-- And a method of a number. -/
theorem numberMethod_spelled (x : Float) (name : String) (h : List.Forall₂ s.Spells args args') :
    NumberMethod.call? s x name args' = NumberMethod.call? s x name args := by
  have hfirst := Spells.getElem? h 0
  unfold NumberMethod.call?
  rw [List.head?_eq_getElem?, List.head?_eq_getElem?, Spells.fixedText hfirst]
  generalize args[0]? = o, args'[0]? = o' at hfirst
  cases hfirst with
  | none => rfl
  | some hv => simp only [hv.isNullish, hv.radixText]

/-- An array looks for a cell among its elements, not for what the cell holds. -/
theorem strictEquals_cell (v : Value) (c : CellRef) :
    v.strictEquals (.cell c) = (v.entity? == some (.cell c)) :=
  Value.strictEquals_eq (.inr nofun)

theorem sameElement_cell (v : Value) (c : CellRef) :
    ArrayMethod.sameElement v (.cell c) = (v.entity? == some (.cell c)) := by
  unfold ArrayMethod.sameElement
  rw [strictEquals_cell]
  cases v <;> exact Bool.or_false _

/-- The builtin method of an array that has the name. -/
theorem callBuiltin_array {r : ArrayRef} {name : String} {m : ArrayMethod}
    (h : ArrayMethod.named.lookup name = some m) :
    s.callBuiltin (.array r) name args = some ((m.apply r args s).1, .ok (m.apply r args s).2) := by
  simp only [callBuiltin, ownMethod?, h, Option.map_some, Option.some_or]

theorem named_of_lookup {name : String} {m : ArrayMethod}
    (h : ArrayMethod.named.lookup name = some m)
    (hm : m ∈ [ArrayMethod.push, .unshift, .splice, .concat, .includes, .indexOf]) :
    name ∈ ["push", "unshift", "splice", "concat", "includes", "indexOf"] := by
  obtain ⟨before, rest, heq, -⟩ := List.lookup_eq_some_iff.1 h
  have hmem : (name, m) ∈ ArrayMethod.named := heq ▸ List.mem_append_right _ List.mem_cons_self
  have hnames : ∀ p ∈ ArrayMethod.named,
      p.2 ∈ [ArrayMethod.push, .unshift, .splice, .concat, .includes, .indexOf] →
        p.1 ∈ ["push", "unshift", "splice", "concat", "includes", "indexOf"] := by decide
  exact hnames _ hmem hm

/-- So does any builtin method, but for those methods of an array. -/
theorem callBuiltin_spelled {receiver : Value} {name : String}
    (hname : ∀ r, receiver = .array r →
      name ∉ ["push", "unshift", "splice", "concat", "includes", "indexOf"])
    (h : List.Forall₂ s.Spells args args') :
    s.callBuiltin receiver name args' = s.callBuiltin receiver name args := by
  have hown : s.ownMethod? receiver name args' = s.ownMethod? receiver name args := by
    cases receiver with
    | string text => simp only [ownMethod?, stringMethod_spelled _ text h]
    | number x => simp only [ownMethod?, numberMethod_spelled x name h]
    | array r =>
      simp only [ownMethod?]
      cases hlookup : ArrayMethod.named.lookup name with
      | none => rfl
      | some m =>
        have hm : m ∉ [.push, .unshift, .splice, .concat, .includes, .indexOf] :=
          fun hm => hname r rfl (named_of_lookup hlookup hm)
        simp only [Option.map_some, arrayMethod_spelled hm r h]
    | _ => rfl
  unfold callBuiltin
  rw [hown]

end Store

/-- Builtin methods see through cells in their arguments.  Let some arguments be replaced by cells
that hold them, or let a cell that holds a nullish value be put in place of the word for it.  Then a
builtin method of a text, a number, an array or anything else gives the same result or failure and
leaves the same store, unless it is one of the methods of an array that keep their arguments or look
for one.  So a cell counts as what it holds, except that a cell that holds a nullish value is not
taken for an argument left out.  A method that looks for a cell in an array finds the cell itself,
whatever it holds. -/
theorem arguments_are_seen_through (s : Store) {args args' : List Value}
    (hargs : List.Forall₂ s.Spells args args') :
    (∀ receiver name, (∀ r, receiver = .array r →
        name ∉ ["push", "unshift", "splice", "concat", "includes", "indexOf"]) →
      s.callBuiltin receiver name args' = s.callBuiltin receiver name args) ∧
    ∀ r c, args'.head? = some (.cell c) →
      let found (v : Value) : Bool := v.entity? == some (.cell c)
      s.callBuiltin (.array r) "includes" args' = some (s, .ok (.bool ((s.items r).any found))) ∧
        s.callBuiltin (.array r) "indexOf" args' =
          some (s, .ok (.number (((s.items r).findIdx? found).elim (-1.0) ofNat))) := by
  refine ⟨fun receiver name hname => Store.callBuiltin_spelled hname hargs, fun r c hc => ?_⟩
  obtain ⟨rest, rfl⟩ := List.head?_eq_some_iff.1 hc
  have hfirst : argument (.cell c :: rest) 0 = .cell c := rfl
  constructor
  · rw [Store.callBuiltin_array rfl]
    simp only [ArrayMethod.apply, hfirst, Store.sameElement_cell]
  · rw [Store.callBuiltin_array rfl]
    simp only [ArrayMethod.apply, hfirst, Store.strictEquals_cell]
    cases (s.items r).findIdx? fun v => v.entity? == some (.cell c) <;> rfl

/-- A list of one truth value, and cells that hold it, a number and nothing. -/
def heldArguments : Store where
  arrays := #[[.bool true]]
  cells := #[{ held := .bool true }, { held := .number 1.0 }, {}]

/-- The start of a part of a text is taken from a cell; the cell that holds nothing is no end left
out; and the list does not have the cell that holds what it has. -/
theorem slice_starts_at_cell :
    let s := heldArguments
    List.Forall₂ s.Spells [.number 1.0, .string "undefined"] [.cell ⟨1⟩, .cell ⟨2⟩] ∧
      s.callBuiltin (.string "abc") "slice" [.cell ⟨1⟩, .cell ⟨2⟩] =
        s.callBuiltin (.string "abc") "slice" [.number 1.0, .string "undefined"] ∧
      s.callBuiltin (.array ⟨0⟩) "includes" [.cell ⟨0⟩] = some (s, .ok (.bool false)) := by
  intro s
  have hargs : List.Forall₂ s.Spells [.number 1.0, .string "undefined"] [.cell ⟨1⟩, .cell ⟨2⟩] :=
    .cons ((Store.Wraps.cell ⟨1⟩).spells rfl) (.cons (.cell ⟨2⟩) .nil)
  have hcell : List.Forall₂ s.Spells [.bool true] [.cell ⟨0⟩] :=
    .cons ((Store.Wraps.cell ⟨0⟩).spells rfl) .nil
  exact ⟨hargs, (arguments_are_seen_through s hargs).1 (.string "abc") "slice" nofun,
    ((arguments_are_seen_through s hcell).2 ⟨0⟩ ⟨0⟩ rfl).1⟩

/-- A text is cut up to an end that is `undefined`, and so not cut at all; up to a cell that holds
`undefined` nothing is left of it.  A list that has a truth value does not have a cell that holds
it. -/
theorem absent_end_is_not_seen :
    let s := heldArguments
    s.Wraps .undefined (.cell ⟨2⟩) ∧ s.Wraps (.bool true) (.cell ⟨0⟩) ∧
      s.callBuiltin (.string "abc") "slice" [.null, .undefined] = some (s, .ok (.string "abc")) ∧
      s.callBuiltin (.string "abc") "slice" [.null, .cell ⟨2⟩] = some (s, .ok (.string "")) ∧
      s.callBuiltin (.array ⟨0⟩) "includes" [.bool true] = some (s, .ok (.bool true)) ∧
      s.callBuiltin (.array ⟨0⟩) "includes" [.cell ⟨0⟩] = some (s, .ok (.bool false)) :=
  ⟨.cell ⟨2⟩, .cell ⟨0⟩, rfl, rfl, rfl, rfl⟩

end LiveMarkup
