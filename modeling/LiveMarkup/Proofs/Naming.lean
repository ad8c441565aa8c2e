import LiveMarkup.Eval.Error
import LiveMarkup.Proofs.StoreLaws
import Mathlib.Data.List.Forall2
import Mathlib.Order.Basic

/-!
# Stores that are the same but for names

Two runs of one text over two stores make the same arrays and objects, but find other references
free for them.  A naming pairs the references of a first store with those of a second.  It is
one-to-one, and the contents of what it pairs are the same up to the naming.  What it does not pair
may differ in any way, and there may be more of it in one store than in the other.

A run only ever adds to a naming.  So what is the same stays the same, whatever is made later.

## Main definitions

* `Contents`, `Store.contents` — what is seen of an array, object or cell.
* `Naming`, `Named` — pairings of references, and results that are the same up to one.
* `Naming.Between` — the naming fits two stores.
* `Store.Keeps` — a store has grown and has been edited in certain places only.
* `Naming.Yields` — outcomes that are the same up to a naming with more pairs.

## Main results

* `Naming.Between.keeps` — a naming still fits if what has been edited is the same again.
* `Naming.Between.add` — two references that are still free for a naming can be paired.
-/

namespace LiveMarkup

/-! ### Contents -/

/-- What is seen of an array, object or cell. -/
inductive Contents
  | array (items : List Value)
  | object (properties : Bindings Value)
  | cell (held : Value) (previous : Option Value)

/-- What is seen of something in a store. -/
def Store.contents (s : Store) : Entity → Contents
  | .array r => .array (s.items r)
  | .object r => .object (s.properties r)
  | .cell r => .cell (s.held r) (s.cellState r).previous

/-! ### Namings -/

/-- Which references of a second store stand for which of a first. -/
abbrev Naming := Entity → Entity → Prop

/-- Results that can be the same up to a naming. -/
class Named (α : Type) where
  /-- The results are the same but for the names of what they refer to. -/
  Same : Naming → α → α → Prop
  /-- What is the same stays the same when pairs are added. -/
  mono {ρ ρ' : Naming} {x y : α} : ρ ≤ ρ' → Same ρ x y → Same ρ' x y

open Named (Same)

/-- Values that are the same up to a naming. -/
inductive SameValue (ρ : Naming) : Value → Value → Prop
  /-- A value that refers to nothing is the same only as itself. -/
  | plain {v : Value} (h : v.entity? = none) : SameValue ρ v v
  | array {a b : ArrayRef} (h : ρ (.array a) (.array b)) : SameValue ρ (.array a) (.array b)
  | object {a b : ObjectRef} (h : ρ (.object a) (.object b)) : SameValue ρ (.object a) (.object b)
  | cell {c d : CellRef} (h : ρ (.cell c) (.cell d)) : SameValue ρ (.cell c) (.cell d)

/-- Results of computations that can fail that are the same up to a naming. -/
inductive SameResult {ε α : Type} [Named ε] [Named α] (ρ : Naming) :
    Except ε α → Except ε α → Prop
  | ok {x y : α} (h : Same ρ x y) : SameResult ρ (.ok x) (.ok y)
  | error {e e' : ε} (h : Same ρ e e') : SameResult ρ (.error e) (.error e')

namespace Named

variable {α β ε : Type} {ρ ρ' : Naming}

/-- What refers to nothing is the same only as itself. -/
@[reducible] def ofEq (α : Type) : Named α where
  Same _ x y := x = y
  mono _ h := h

instance : Named Unit := ofEq Unit
instance : Named Bool := ofEq Bool
instance : Named Float := ofEq Float
instance : Named String := ofEq String
instance : Named Eval.EvalError := ofEq Eval.EvalError

instance : Named Value where
  Same := SameValue
  mono hle h := by
    cases h with
    | plain h => exact .plain h
    | array h => exact .array (hle _ _ h)
    | object h => exact .object (hle _ _ h)
    | cell h => exact .cell (hle _ _ h)

instance [Named α] : Named (List α) where
  Same ρ := List.Forall₂ (Same ρ)
  mono hle h := h.imp fun _ _ => mono hle

instance [Named α] : Named (Option α) where
  Same ρ := Option.Rel (Same ρ)
  mono hle h := by
    cases h with
    | some h => exact .some (mono hle h)
    | none => exact .none

instance [Named α] [Named β] : Named (α × β) where
  Same ρ p q := Same ρ p.1 q.1 ∧ Same ρ p.2 q.2
  mono hle h := ⟨mono hle h.1, mono hle h.2⟩

instance [Named α] : Named (Bindings α) where
  Same ρ b c := Same ρ b.entries c.entries
  mono := mono (α := List (String × α))

instance [Named ε] [Named α] : Named (Except ε α) where
  Same := SameResult
  mono hle h := by
    cases h with
    | ok h => exact .ok (mono hle h)
    | error h => exact .error (mono hle h)

instance : Named Contents where
  Same
    | ρ, .array xs, .array ys => Same ρ xs ys
    | ρ, .object b, .object c => Same ρ b c
    | ρ, .cell v p, .cell w q => Same ρ v w ∧ Same ρ p q
    | _, _, _ => False
  mono {_ _ c d} hle h := by
    cases c <;> cases d
    case array.array => exact mono (α := List Value) hle h
    case object.object => exact mono (α := Bindings Value) hle h
    case cell.cell => exact ⟨mono hle h.1, mono hle h.2⟩
    all_goals exact h.elim

end Named

/-! ### Same values, lists and bindings -/

section Same

variable {α : Type} [Named α] {ρ : Naming}

/-- Values one of which refers to something are identical exactly if the other refers to the same.
-/
theorem Value.strictEquals_eq {v w : Value} (h : v.entity? ≠ none ∨ w.entity? ≠ none) :
    v.strictEquals w = (v.entity? == w.entity?) := by
  cases v <;> cases w <;> simp_all [strictEquals, entity?]

namespace Named.Same

theorem entity? {v w : Value} (h : Same ρ v w) : Option.Rel ρ v.entity? w.entity? := by
  cases h with
  | plain h => exact h ▸ .none
  | array h => exact .some h
  | object h => exact .some h
  | cell h => exact .some h

theorem entity?_eq_none {v w : Value} (h : Same ρ v w) : v.entity? = none ↔ w.entity? = none := by
  cases h with
  | plain => exact Iff.rfl
  | _ => exact iff_of_false (by rintro ⟨⟩) (by rintro ⟨⟩)

theorem eq_of_plain {v w : Value} (h : Same ρ v w) (hv : v.entity? = none) : v = w := by
  cases h with
  | plain => rfl
  | _ => cases hv

theorem isNullish {v w : Value} (h : Same ρ v w) : v.isNullish = w.isNullish := by
  cases h <;> rfl

theorem nullishName? {v w : Value} (h : Same ρ v w) : v.nullishName? = w.nullishName? := by
  cases h <;> rfl

theorem typeName {v w : Value} (h : Same ρ v w) : v.typeName = w.typeName := by
  cases h <;> rfl

theorem isTruthy {v w : Value} (h : Same ρ v w) : v.isTruthy = w.isTruthy := by
  cases h <;> rfl

theorem getElem? {xs ys : List α} (h : Same ρ xs ys) (i : Nat) : Same ρ xs[i]? ys[i]? := by
  induction h generalizing i with
  | nil => exact .none
  | cons hx _ ih =>
    cases i with
    | zero => exact .some hx
    | succ i => exact ih i

theorem getD {o o' : Option α} {x y : α} (h : Same ρ o o') (hd : Same ρ x y) :
    Same ρ (o.getD x) (o'.getD y) := by
  cases h with
  | some h => exact h
  | none => exact hd

theorem isSome_eq {o o' : Option α} (h : Same ρ o o') : o.isSome = o'.isSome := by
  cases h <;> rfl

theorem elim_eq {β : Type} {o o' : Option α} {f g : α → β} (h : Same ρ o o')
    (hfg : ∀ x y, Same ρ x y → f x = g y) (b : β) : o.elim b f = o'.elim b g := by
  cases h with
  | some h => exact hfg _ _ h
  | none => rfl

theorem length_eq {xs ys : List α} (h : Same ρ xs ys) : xs.length = ys.length :=
  List.Forall₂.length_eq h

theorem append {xs ys xs' ys' : List α} (h : Same ρ xs ys) (h' : Same ρ xs' ys') :
    Same ρ (xs ++ xs') (ys ++ ys') := List.rel_append h h'

theorem take {xs ys : List α} (h : Same ρ xs ys) (n : Nat) : Same ρ (xs.take n) (ys.take n) :=
  List.forall₂_take n h

theorem drop {xs ys : List α} (h : Same ρ xs ys) (n : Nat) : Same ρ (xs.drop n) (ys.drop n) :=
  List.forall₂_drop n h

theorem tail {xs ys : List α} (h : Same ρ xs ys) : Same ρ xs.tail ys.tail := by
  rw [← List.drop_one, ← List.drop_one]
  exact h.drop 1

theorem dropLast {xs ys : List α} (h : Same ρ xs ys) : Same ρ xs.dropLast ys.dropLast := by
  rw [List.dropLast_eq_take, List.dropLast_eq_take, h.length_eq]
  exact h.take _

theorem head? {xs ys : List α} (h : Same ρ xs ys) : Same ρ xs.head? ys.head? := by
  rw [List.head?_eq_getElem?, List.head?_eq_getElem?]
  exact h.getElem? 0

theorem getLast? {xs ys : List α} (h : Same ρ xs ys) : Same ρ xs.getLast? ys.getLast? := by
  rw [List.getLast?_eq_getElem?, List.getLast?_eq_getElem?, h.length_eq]
  exact h.getElem? _

theorem reverse {xs ys : List α} (h : Same ρ xs ys) : Same ρ xs.reverse ys.reverse :=
  List.rel_reverse h

theorem replicate {x y : α} (h : Same ρ x y) (n : Nat) :
    Same ρ (List.replicate n x) (List.replicate n y) := by
  induction n with
  | zero => exact .nil
  | succ n ih => exact .cons h ih

theorem set {xs ys : List α} {x y : α} (h : Same ρ xs ys) (hx : Same ρ x y) (i : Nat) :
    Same ρ (xs.set i x) (ys.set i y) := by
  induction h generalizing i with
  | nil => exact .nil
  | cons hx' hrest ih =>
    cases i with
    | zero => exact .cons hx hrest
    | succ i => exact .cons hx' (ih i)

theorem zip {β : Type} [Named β] {xs ys : List α} {xs' ys' : List β} (h : Same ρ xs ys)
    (h' : Same ρ xs' ys') : Same ρ (xs.zip xs') (ys.zip ys') := by
  induction h generalizing xs' ys' with
  | nil => exact .nil
  | cons hx _ ih =>
    cases h' with
    | nil => exact .nil
    | cons hx' hrest' => exact .cons ⟨hx, hx'⟩ (ih hrest')

/-- What has no names in it comes out of both lists alike. -/
theorem map_eq {β : Type} {xs ys : List α} {f g : α → β} (h : Same ρ xs ys)
    (hfg : ∀ x y, Same ρ x y → f x = g y) : xs.map f = ys.map g := by
  induction h with
  | nil => rfl
  | cons hx _ ih => exact congrArg₂ List.cons (hfg _ _ hx) ih

theorem any_eq {xs ys : List α} {f g : α → Bool} (h : Same ρ xs ys)
    (hfg : ∀ x y, Same ρ x y → f x = g y) : xs.any f = ys.any g := by
  induction h with
  | nil => rfl
  | cons hx _ ih => rw [List.any_cons, List.any_cons, hfg _ _ hx, ih]

theorem foldl_eq {β : Type} {xs ys : List α} {f g : β → α → β} (h : Same ρ xs ys)
    (hfg : ∀ b x y, Same ρ x y → f b x = g b y) (b : β) : xs.foldl f b = ys.foldl g b := by
  induction h generalizing b with
  | nil => rfl
  | cons hx _ ih => rw [List.foldl_cons, List.foldl_cons, hfg _ _ _ hx, ih]

theorem findIdx?_eq {xs ys : List α} {f g : α → Bool} (h : Same ρ xs ys)
    (hfg : ∀ x y, Same ρ x y → f x = g y) : xs.findIdx? f = ys.findIdx? g := by
  induction h with
  | nil => rfl
  | cons hx _ ih => rw [List.findIdx?_cons, List.findIdx?_cons, hfg _ _ hx, ih]

theorem flatMap {β : Type} [Named β] {xs ys : List α} {f g : α → List β} (h : Same ρ xs ys)
    (hfg : ∀ x y, Same ρ x y → Same ρ (f x) (g y)) : Same ρ (xs.flatMap f) (ys.flatMap g) := by
  induction h with
  | nil => exact .nil
  | cons hx _ ih =>
    rw [List.flatMap_cons, List.flatMap_cons]
    exact (hfg _ _ hx).append ih

/-! Results of computations that can fail -/

theorem mapOk {ε β : Type} [Named ε] [Named β] {r r' : Except ε α} {f g : α → β}
    (h : Same ρ r r') (hfg : ∀ x y, Same ρ x y → Same ρ (f x) (g y)) :
    Same ρ (r.map f) (r'.map g) := by
  cases h with
  | ok h => exact .ok (hfg _ _ h)
  | error h => exact .error h

theorem mapError {ε ε' : Type} [Named ε] [Named ε'] {r r' : Except ε α} {f g : ε → ε'}
    (h : Same ρ r r') (hfg : ∀ e e', Same ρ e e' → Same ρ (f e) (g e')) :
    Same ρ (r.mapError f) (r'.mapError g) := by
  cases h with
  | ok h => exact .ok h
  | error h => exact .error (hfg _ _ h)

/-! Bindings -/

theorem size_eq {b c : Bindings α} (h : Same ρ b c) : b.size = c.size :=
  List.Forall₂.length_eq h

theorem find? {b c : Bindings α} (h : Same ρ b c) (name : String) :
    Same ρ (b.find? name) (c.find? name) := by
  have hentries : ∀ {xs ys : List (String × α)}, Same ρ xs ys →
      Same ρ (xs.lookup name) (ys.lookup name) := by
    intro xs ys h
    induction h with
    | nil => exact .none
    | @cons p q _ _ h _ ih =>
      have hname : p.1 = q.1 := h.1
      rw [List.lookup_cons, List.lookup_cons, hname]
      split
      · exact .some h.2
      · exact ih
  exact hentries h

theorem insert {b c : Bindings α} {x y : α} (h : Same ρ b c) (name : String) (hx : Same ρ x y) :
    Same ρ (b.insert name x) (c.insert name y) := by
  have hentries : ∀ {xs ys : List (String × α)}, Same ρ xs ys →
      Same ρ (Bindings.insertEntry name x xs) (Bindings.insertEntry name y ys) := by
    intro xs ys h
    induction h with
    | nil => exact .cons ⟨rfl, hx⟩ .nil
    | @cons p q _ _ h hrest ih =>
      have hname : p.1 = q.1 := h.1
      simp only [Bindings.insertEntry, hname]
      split
      · exact .cons ⟨rfl, hx⟩ hrest
      · exact .cons ⟨rfl, h.2⟩ ih
  exact hentries h

end Named.Same

end Same

/-! ### Growing and editing -/

/-- Everything that had been made is still there, and what has not been edited is as it was. -/
structure Store.Keeps (s : Store) (edited : List Entity) (s' : Store) : Prop where
  made {e : Entity} : s.hasMade e = true → s'.hasMade e = true
  contents {e : Entity} : s.hasMade e = true → e ∉ edited → s'.contents e = s.contents e

namespace Store

variable {s s' s'' : Store}

theorem Keeps.refl (s : Store) : s.Keeps [] s := ⟨id, fun _ _ => rfl⟩

theorem Keeps.trans {es es' : List Entity} (h : s.Keeps es s') (h' : s'.Keeps es' s'') :
    s.Keeps (es ++ es') s'' where
  made he := h'.made (h.made he)
  contents he hnot := by
    rw [List.mem_append, not_or] at hnot
    rw [h'.contents (h.made he) hnot.2, h.contents he hnot.1]

theorem hasMade_of_le (s s' : Store) (ha : s.arrays.size ≤ s'.arrays.size)
    (ho : s.objects.size ≤ s'.objects.size) (hc : s.cells.size ≤ s'.cells.size) {e : Entity}
    (he : s.hasMade e = true) : s'.hasMade e = true := by
  cases e <;> simp only [hasMade, decide_eq_true_eq] at he ⊢ <;> omega

/-- Nobody who reads values sees more than arrays, objects and cells. -/
theorem keeps_of_eq (ha : s'.arrays = s.arrays) (ho : s'.objects = s.objects)
    (hc : s'.cells = s.cells) : s.Keeps [] s' where
  made := hasMade_of_le s s' (ha ▸ Nat.le_refl _) (ho ▸ Nat.le_refl _) (hc ▸ Nat.le_refl _)
  contents {e} _ _ := by
    cases e <;> simp only [contents, items, properties, held, cellState, ha, ho, hc]

theorem keeps_letGo (s : Store) (kept lost : List Entity) : s.Keeps [] (s.letGo kept lost) :=
  have h := s.sameContents_letGo kept lost
  keeps_of_eq h.arrays h.objects h.cells

theorem keeps_setItems (s : Store) (r : ArrayRef) (xs : List Value) :
    s.Keeps [.array r] (s.setItems r xs) where
  made := hasMade_of_le s (s.setItems r xs) (by simp [setItems]) (Nat.le_refl _) (Nat.le_refl _)
  contents {e} _ hnot := by
    cases e with
    | array a =>
      have hne : a ≠ r := by
        rintro rfl
        exact hnot (List.mem_singleton_self _)
      rw [contents, items_setItems, if_neg fun h => hne h.1, contents]
    | _ => rfl

theorem keeps_setProperties (s : Store) (r : ObjectRef) (b : Bindings Value) :
    s.Keeps [.object r] (s.setProperties r b) where
  made := hasMade_of_le s (s.setProperties r b) (Nat.le_refl _) (by simp [setProperties])
    (Nat.le_refl _)
  contents {e} _ hnot := by
    cases e with
    | object a =>
      have hne : a ≠ r := by
        rintro rfl
        exact hnot (List.mem_singleton_self _)
      rw [contents, properties_setProperties, if_neg fun h => hne h.1, contents]
    | _ => rfl

theorem hasMade_modifyCell {r : CellRef} {f : CellState → CellState} {e : Entity}
    (he : s.hasMade e = true) : (s.modifyCell r f).hasMade e = true :=
  hasMade_of_le s (s.modifyCell r f) (Nat.le_refl _) (Nat.le_refl _) (by simp) he

theorem keeps_modifyCell (s : Store) (r : CellRef) (f : CellState → CellState) :
    s.Keeps [.cell r] (s.modifyCell r f) where
  made := hasMade_modifyCell
  contents {e} _ hnot := by
    cases e with
    | cell c =>
      have hne : c ≠ r := by
        rintro rfl
        exact hnot (List.mem_singleton_self _)
      rw [contents, held, cellState_modifyCell, if_neg fun h => hne h.1, contents, held]
    | _ => rfl

/-- A request for a pass shows in no value. -/
theorem keeps_trigger (s : Store) (c : CellRef) : s.Keeps [] (s.trigger c) := by
  have hrequest : s.Keeps [] (s.modifyCell c CellState.request) := by
    refine ⟨hasMade_modifyCell, fun {e} _ _ => ?_⟩
    cases e with
    | cell d =>
      have hcell := project_modifyCell (fun state => (state.held, state.previous)) s c d
        CellState.request fun _ => rfl
      obtain ⟨hheld, hprevious⟩ := Prod.mk.inj hcell
      rw [contents, held, hheld, hprevious, contents, held]
    | _ => rfl
  unfold trigger
  split
  · exact .refl s
  · next state _ =>
    split
    · exact hrequest
    · refine hrequest.trans ?_
      cases state.scheduler <;> exact keeps_of_eq rfl rfl rfl

theorem keeps_newArray (s : Store) (xs : List Value) : s.Keeps [] (s.newArray xs).1 where
  made := hasMade_of_le s (s.newArray xs).1 (by simp [newArray]) (Nat.le_refl _) (Nat.le_refl _)
  contents {e} he _ := by
    cases e with
    | array r =>
      have hne : r.id ≠ s.arrays.size := Nat.ne_of_lt (of_decide_eq_true he)
      rw [contents, items_newArray, if_neg hne, contents]
    | _ => rfl

theorem keeps_newObject (s : Store) (b : Bindings Value) : s.Keeps [] (s.newObject b).1 where
  made := hasMade_of_le s (s.newObject b).1 (Nat.le_refl _) (by simp [newObject]) (Nat.le_refl _)
  contents {e} he _ := by
    cases e with
    | object r =>
      have hne : r.id ≠ s.objects.size := Nat.ne_of_lt (of_decide_eq_true he)
      rw [contents, properties_newObject, if_neg hne, contents]
    | _ => rfl

end Store

/-! ### Namings between stores -/

/-- The naming fits two stores: it is one-to-one, and what it pairs is there and has the same
contents. -/
structure Naming.Between (ρ : Naming) (s t : Store) : Prop where
  one_to_one {e f e' f' : Entity} : ρ e f → ρ e' f' → (e = e' ↔ f = f')
  made {e f : Entity} : ρ e f → s.hasMade e = true ∧ t.hasMade f = true
  contents {e f : Entity} : ρ e f → Same ρ (s.contents e) (t.contents f)

/-- The naming with one more pair. -/
def Naming.add (ρ : Naming) (e f : Entity) : Naming := fun x y => ρ x y ∨ x = e ∧ y = f

theorem Naming.le_add (ρ : Naming) (e f : Entity) : ρ ≤ ρ.add e f := fun _ _ => Or.inl

/-- Outcomes in two stores that are the same up to a naming with more pairs. -/
def Naming.Yields {α : Type} [Named α] (ρ : Naming) (o o' : Store × α) : Prop :=
  ∃ ρ', ρ ≤ ρ' ∧ ρ'.Between o.1 o'.1 ∧ Same ρ' o.2 o'.2

namespace Naming.Between

variable {ρ : Naming} {s t s' t' : Store}

section Reading

variable (h : ρ.Between s t)

include h

theorem items {a b : ArrayRef} (hab : ρ (.array a) (.array b)) : Same ρ (s.items a) (t.items b) :=
  h.contents hab

theorem properties {a b : ObjectRef} (hab : ρ (.object a) (.object b)) :
    Same ρ (s.properties a) (t.properties b) :=
  h.contents hab

theorem held {c d : CellRef} (hcd : ρ (.cell c) (.cell d)) : Same ρ (s.held c) (t.held d) :=
  (h.contents hcd).1

theorem previous {c d : CellRef} (hcd : ρ (.cell c) (.cell d)) :
    Same ρ (s.cellState c).previous (t.cellState d).previous :=
  (h.contents hcd).2

theorem unwrap {v w : Value} (hv : Same ρ v w) : Same ρ (s.unwrap v) (t.unwrap w) := by
  cases hv with
  | @plain v hplain =>
    cases v with
    | array | object | cell => cases hplain
    | _ => exact .plain rfl
  | array hab => exact .array hab
  | object hab => exact .object hab
  | cell hcd => exact h.held hcd

/-- Whether two references are one is the same, since a naming is one-to-one. -/
theorem beq_eq {e f e' f' : Entity} (he : ρ e f) (he' : ρ e' f') : (e == e') = (f == f') := by
  rw [Bool.eq_iff_iff, beq_iff_eq, beq_iff_eq]
  exact h.one_to_one he he'

theorem strictEquals {v w v' w' : Value} (hv : Same ρ v w) (hv' : Same ρ v' w') :
    v.strictEquals v' = w.strictEquals w' := by
  have hentity := hv.entity?
  have hentity' := hv'.entity?
  -- values that refer to nothing are equal on both sides; otherwise the references decide
  by_cases hplain : v.entity? = none ∧ v'.entity? = none
  · rw [hv.eq_of_plain hplain.1, hv'.eq_of_plain hplain.2]
  · have hrefers : v.entity? ≠ none ∨ v'.entity? ≠ none := not_and_or.1 hplain
    have hrefers' : w.entity? ≠ none ∨ w'.entity? ≠ none :=
      hrefers.imp (mt hv.entity?_eq_none.2) (mt hv'.entity?_eq_none.2)
    rw [Value.strictEquals_eq hrefers, Value.strictEquals_eq hrefers']
    generalize v.entity? = o, w.entity? = p at hentity
    generalize v'.entity? = o', w'.entity? = p' at hentity'
    cases hentity with
    | none => cases hentity' <;> rfl
    | some he =>
      cases hentity' with
      | none => rfl
      | some he' => exact h.beq_eq he he'

end Reading

/-! ### Edits and new things -/

/-- A naming still fits if what has been edited is the same again. -/
theorem keeps {es fs : List Entity} (h : ρ.Between s t) (hs : s.Keeps es s') (ht : t.Keeps fs t')
    (hedited : ∀ e f, ρ e f → e ∈ es ∨ f ∈ fs → Same ρ (s'.contents e) (t'.contents f)) :
    ρ.Between s' t' where
  one_to_one := h.one_to_one
  made hef := (h.made hef).imp hs.made ht.made
  contents {e f} hef := by
    by_cases hin : e ∈ es ∨ f ∈ fs
    · exact hedited e f hef hin
    · obtain ⟨he, hf⟩ := not_or.1 hin
      rw [hs.contents (h.made hef).1 he, ht.contents (h.made hef).2 hf]
      exact h.contents hef

/-- What shows in no value makes no difference to a naming. -/
theorem kept (h : ρ.Between s t) (hs : s.Keeps [] s') (ht : t.Keeps [] t') : ρ.Between s' t' :=
  h.keeps hs ht fun _ _ _ hin => absurd hin (by simp)

/-- A pair can be edited on both sides. -/
theorem edit {e f : Entity} (h : ρ.Between s t) (hef : ρ e f) (hs : s.Keeps [e] s')
    (ht : t.Keeps [f] t') (hcontents : Same ρ (s'.contents e) (t'.contents f)) :
    ρ.Between s' t' := by
  refine h.keeps hs ht fun e' f' hef' hin => ?_
  -- nothing else is paired with what has been edited, since the naming is one-to-one
  have hpair := h.one_to_one hef' hef
  rw [List.mem_singleton, List.mem_singleton, ← hpair, or_self] at hin
  rw [hin, hpair.1 hin]
  exact hcontents

theorem setItems (h : ρ.Between s t) {a b : ArrayRef} {xs ys : List Value}
    (hab : ρ (.array a) (.array b)) (hxs : Same ρ xs ys) :
    ρ.Between (s.setItems a xs) (t.setItems b ys) := by
  obtain ⟨ha, hb⟩ := h.made hab
  refine h.edit hab (s.keeps_setItems a xs) (t.keeps_setItems b ys) ?_
  rw [Store.contents, Store.contents, Store.items_setItems, Store.items_setItems,
    if_pos ⟨rfl, ha⟩, if_pos ⟨rfl, hb⟩]
  exact hxs

theorem setProperties (h : ρ.Between s t) {a b : ObjectRef} {p q : Bindings Value}
    (hab : ρ (.object a) (.object b)) (hp : Same ρ p q) :
    ρ.Between (s.setProperties a p) (t.setProperties b q) := by
  obtain ⟨ha, hb⟩ := h.made hab
  refine h.edit hab (s.keeps_setProperties a p) (t.keeps_setProperties b q) ?_
  rw [Store.contents, Store.contents, Store.properties_setProperties,
    Store.properties_setProperties, if_pos ⟨rfl, ha⟩, if_pos ⟨rfl, hb⟩]
  exact hp

theorem commit (h : ρ.Between s t) {c d : CellRef} {v w : Value} (hcd : ρ (.cell c) (.cell d))
    (hv : Same ρ v w) : ρ.Between (s.commit c v) (t.commit d w) := by
  obtain ⟨hc, hd⟩ := h.made hcd
  refine h.edit hcd (s.keeps_modifyCell c _) (t.keeps_modifyCell d _) ?_
  rw [Store.contents, Store.contents, Store.held, Store.held, Store.commit, Store.commit,
    Store.cellState_modifyCell, Store.cellState_modifyCell, if_pos ⟨rfl, of_decide_eq_true hc⟩,
    if_pos ⟨rfl, of_decide_eq_true hd⟩]
  exact ⟨hv, .some (h.held hcd)⟩

theorem trigger (h : ρ.Between s t) (c d : CellRef) : ρ.Between (s.trigger c) (t.trigger d) :=
  h.kept (s.keeps_trigger c) (t.keeps_trigger d)

/-- Two references that are still free for a naming can be paired. -/
theorem add {e f : Entity} (h : ρ.Between s t) (he : ∀ x, ¬ρ e x) (hf : ∀ x, ¬ρ x f)
    (hmade : s.hasMade e = true ∧ t.hasMade f = true)
    (hcontents : Same ρ (s.contents e) (t.contents f)) : (ρ.add e f).Between s t where
  one_to_one := by
    rintro x y x' y' (hxy | ⟨rfl, rfl⟩) (hxy' | ⟨rfl, rfl⟩)
    · exact h.one_to_one hxy hxy'
    · exact iff_of_false (fun heq => he _ (heq ▸ hxy)) (fun heq => hf _ (heq ▸ hxy))
    · exact iff_of_false (fun heq => he _ (heq ▸ hxy')) (fun heq => hf _ (heq ▸ hxy'))
    · exact iff_of_true rfl rfl
  made := by
    rintro x y (hxy | ⟨rfl, rfl⟩)
    · exact h.made hxy
    · exact hmade
  contents := by
    rintro x y (hxy | ⟨rfl, rfl⟩)
    · exact Named.mono (ρ.le_add e f) (h.contents hxy)
    · exact Named.mono (ρ.le_add x y) hcontents

theorem newArrayValue (h : ρ.Between s t) {xs ys : List Value} (hxs : Same ρ xs ys) :
    ρ.Yields (s.newArrayValue xs) (t.newArrayValue ys) := by
  let e : Entity := .array ⟨s.arrays.size⟩
  let f : Entity := .array ⟨t.arrays.size⟩
  -- what is paired has been made, so the new references are free
  have he : ∀ x, ¬ρ e x := fun x hx => absurd (h.made hx).1 (by simp [e, Store.hasMade])
  have hf : ∀ x, ¬ρ x f := fun x hx => absurd (h.made hx).2 (by simp [f, Store.hasMade])
  have hmade : (s.newArray xs).1.hasMade e = true ∧ (t.newArray ys).1.hasMade f = true := by
    simp [e, f, Store.hasMade, Store.newArray]
  refine ⟨ρ.add e f, ρ.le_add e f, ?_, .array (.inr ⟨rfl, rfl⟩)⟩
  refine (h.kept (s.keeps_newArray xs) (t.keeps_newArray ys)).add he hf hmade ?_
  simp only [e, f, Store.contents, Store.items_newArray, if_true]
  exact hxs

theorem newObject (h : ρ.Between s t) {p q : Bindings Value} (hp : Same ρ p q) :
    ρ.Yields ((s.newObject p).1, Value.object (s.newObject p).2)
      ((t.newObject q).1, Value.object (t.newObject q).2) := by
  let e : Entity := .object ⟨s.objects.size⟩
  let f : Entity := .object ⟨t.objects.size⟩
  have he : ∀ x, ¬ρ e x := fun x hx => absurd (h.made hx).1 (by simp [e, Store.hasMade])
  have hf : ∀ x, ¬ρ x f := fun x hx => absurd (h.made hx).2 (by simp [f, Store.hasMade])
  have hmade : (s.newObject p).1.hasMade e = true ∧ (t.newObject q).1.hasMade f = true := by
    simp [e, f, Store.hasMade, Store.newObject]
  refine ⟨ρ.add e f, ρ.le_add e f, ?_, .object (.inr ⟨rfl, rfl⟩)⟩
  refine (h.kept (s.keeps_newObject p) (t.keeps_newObject q)).add he hf hmade ?_
  simp only [e, f, Store.contents, Store.properties_newObject, if_true]
  exact hp

end Naming.Between

namespace Naming.Yields

variable {α β : Type} [Named α] [Named β] {ρ : Naming} {s t : Store}

/-- Outcomes in stores that the naming fits already. -/
theorem of_between {x y : α} (h : ρ.Between s t) (hx : Same ρ x y) : ρ.Yields (s, x) (t, y) :=
  ⟨ρ, le_refl ρ, h, hx⟩

/-- What is made of the results of outcomes. -/
theorem map {o o' : Store × α} {x y : β} (h : ρ.Yields o o')
    (hx : ∀ ρ', ρ ≤ ρ' → Same ρ' o.2 o'.2 → Same ρ' x y) : ρ.Yields (o.1, x) (o'.1, y) := by
  obtain ⟨ρ', hle, hstores, hsame⟩ := h
  exact ⟨ρ', hle, hstores, hx ρ' hle hsame⟩

end Naming.Yields

end LiveMarkup
