import LiveMarkup.Proofs.TextWriter
import LiveMarkup.Store.Equality

/-!
# The symmetry of `==`

The two sides of `==` are not treated alike: a truth value on the left is coerced before one on the
right, one side is coerced at a time, and whatever is compared again has its cells looked through
once more.  What comes out is the same from either side all the same.

A comparison is described here as it goes, without a bound on how often it begins anew, and a text
of an array is the one that writing it comes to.  It goes on at most three times: with a truth value
on the left there is a number in its place, with a number or text on one side the other side is
coerced, and then both are numbers or texts.

## Main definitions

* `Store.IsWritten` — the text that writing a value comes to.
* `Store.Compares` — a comparison of two values and its answer.
* `Store.comparison` — one call of `==`.
* `Store.Settled` — the comparison has the answer from either side, and so has `==`.

## Main results

* `Store.settled_atom` — a number or text against any value.
* `loose_equality_is_symmetric` — any value against any other.
-/

namespace LiveMarkup

open Number
open Float.Model (UnpackedFloat)

/-! ### Equal numbers -/

/-- Two numbers in canonical form compare the other way round from the other side. -/
theorem Number.compare_swap (a b : UnpackedFloat) :
    b.compare a = (a.compare b).map Ordering.swap := by
  have hmagnitudes (e e' : Int) (m m' : Nat) : (compare e' e).then (compare m' m) =
      ((compare e e').then (compare m m')).swap := by
    rw [Ordering.swap_then, Int.compare_swap, Nat.compare_swap]
  rcases a with s | _ | s | ⟨s, m, e, _⟩ <;> rcases b with s' | _ | s' | ⟨s', m', e', _⟩
  case finite.finite =>
    cases s with
    | positive =>
      cases s' with
      | positive => exact congrArg some (hmagnitudes e e' m m')
      | negative => rfl
    | negative =>
      cases s' with
      | positive => rfl
      | negative => exact congrArg (some ∘ Ordering.swap) (hmagnitudes e e' m m')
  all_goals first | rfl | (cases s <;> first | rfl | (cases s' <;> rfl))

theorem Number.beq_comm (x y : Float) : (x == y) = (y == x) := by
  show UnpackedFloat.beq _ _ = UnpackedFloat.beq _ _
  unfold UnpackedFloat.beq
  rw [compare_swap x.toModel.unpack]
  cases x.toModel.unpack.compare y.toModel.unpack with
  | none => rfl
  | some o => cases o <;> rfl

theorem Value.strictEquals_comm (a b : Value) : a.strictEquals b = b.strictEquals a := by
  cases a <;> cases b <;> first | rfl | exact Number.beq_comm _ _ | exact BEq.comm

/-! ### Comparisons -/

namespace Value

/-- The value is a number or a text. -/
def IsAtom : Value → Prop
  | .number _ | .string _ => True
  | _ => False

/-- The value is an array or an object. -/
def IsContainer : Value → Prop
  | .array _ | .object _ => True
  | _ => False

/-- The value is a cell or a function. -/
def IsOpaque : Value → Prop
  | .cell _ | .function _ => True
  | _ => False

end Value

namespace Store

variable {s : Store}

/-- Writing the value comes to an end, with the text. -/
def IsWritten (s : Store) (v : Value) (t : String) : Prop :=
  Writer.GoesTo s ⟨[.value v], [], ""⟩ ⟨[], [], t⟩

/-- The comparison of two values, of which the outermost cells have been looked through, and its
answer. -/
inductive Compares (s : Store) : Value → Value → Bool → Prop
  /-- A nullish value is equal to nullish values. -/
  | nullish {a b : Value} (h : a.isNullish = true ∨ b.isNullish = true) :
    Compares s a b (a.isNullish && b.isNullish)
  | numbers (x y : Float) : Compares s (.number x) (.number y) (x == y)
  | texts (t u : String) : Compares s (.string t) (.string u) (t == u)
  /-- A number and a text are compared as numbers. -/
  | numberText (x : Float) (t : String) : Compares s (.number x) (.string t) (x == ofText t)
  | textNumber (t : String) (x : Float) : Compares s (.string t) (.number x) (ofText t == x)
  /-- A truth value is compared as a number, one on the left first. -/
  | boolLeft {p : Bool} {b : Value} {answer : Bool} (hb : b.isNullish = false)
    (h : Compares s (.number (s.toNumber (.bool p))) (s.unwrap b) answer) :
    Compares s (.bool p) b answer
  | boolRight {a : Value} {p answer : Bool} (ha : a.isNullish = false) (hleft : ∀ q, a ≠ .bool q)
    (h : Compares s (s.unwrap a) (.number (s.toNumber (.bool p))) answer) :
    Compares s a (.bool p) answer
  /-- An array or object is compared with a number or text as a text. -/
  | containerLeft {a b : Value} {t : String} {answer : Bool} (ha : a.IsContainer) (hb : b.IsAtom)
    (ht : s.IsWritten a t) (h : Compares s (.string t) b answer) : Compares s a b answer
  | containerRight {a b : Value} {t : String} {answer : Bool} (ha : a.IsAtom)
    (hb : b.IsContainer) (ht : s.IsWritten b t) (h : Compares s a (.string t) answer) :
    Compares s a b answer
  /-- References are compared as they are; a cell that a cell held is one of them. -/
  | references {a b : Value} (ha : a.isReference = true) (hb : b.isReference = true) :
    Compares s a b (a.strictEquals b)
  /-- No number or text is equal to a function, or to a cell that a cell held. -/
  | opaqueLeft {a b : Value} (ha : a.IsOpaque) (hb : b.IsAtom) : Compares s a b false
  | opaqueRight {a b : Value} (ha : a.IsAtom) (hb : b.IsOpaque) : Compares s a b false

/-- The comparison of two values has the answer from either side, and `==` gives it, begun anew at
most `k` times. -/
structure Settled (s : Store) (k : Nat) (a b : Value) (answer : Bool) : Prop where
  left : s.Compares a b answer
  right : s.Compares b a answer
  within : ∀ {x y}, s.unwrap x = a → s.unwrap y = b →
    s.looseEqualsWithin (k + 1) x y = answer ∧ s.looseEqualsWithin (k + 1) y x = answer

theorem Settled.symm {k : Nat} {a b : Value} {answer : Bool} (h : s.Settled k a b answer) :
    s.Settled k b a answer :=
  ⟨h.right, h.left, fun hx hy => (h.within hy hx).symm⟩

variable {a b : Value} (k : Nat)

/-! ### One call -/

/-- One call of `==`, on what the outermost cells hold.  What has been coerced is compared by
`again`. -/
def comparison (s : Store) (again : Value → Value → Bool) (a b : Value) : Bool :=
  if a.isNullish || b.isNullish then a.isNullish && b.isNullish
  else
    match a, b with
    | .number _, .string _ | .string _, .number _ => s.toNumber a == s.toNumber b
    | .bool _, _ => again (.number (s.toNumber a)) b
    | _, .bool _ => again a (.number (s.toNumber b))
    | .array _, .number _ | .array _, .string _ | .object _, .number _ | .object _, .string _ =>
      again (.string (s.display a)) b
    | .number _, .array _ | .string _, .array _ | .number _, .object _ | .string _, .object _ =>
      again a (.string (s.display b))
    | _, _ => a.strictEquals b

theorem looseEqualsWithin_succ (x y : Value) :
    s.looseEqualsWithin (k + 1) x y =
      s.comparison (s.looseEqualsWithin k) (s.unwrap x) (s.unwrap y) :=
  rfl

section Comparison

variable {again : Value → Value → Bool}

theorem comparison_nullish (h : a.isNullish = true ∨ b.isNullish = true) :
    s.comparison again a b = (a.isNullish && b.isNullish) :=
  if_pos (Bool.or_eq_true_iff.2 h)

theorem comparison_boolLeft (p : Bool) (hb : b.isNullish = false) :
    s.comparison again (.bool p) b = again (.number (s.toNumber (.bool p))) b := by
  cases b <;> first | rfl | exact Bool.noConfusion hb

theorem comparison_boolRight (p : Bool) (ha : a.isNullish = false) (hleft : ∀ q, a ≠ .bool q) :
    s.comparison again a (.bool p) = again a (.number (s.toNumber (.bool p))) := by
  cases a with
  | undefined | null => exact Bool.noConfusion ha
  | bool q => exact absurd rfl (hleft q)
  | _ => rfl

theorem comparison_containerLeft (ha : a.IsContainer) (hb : b.IsAtom) :
    s.comparison again a b = again (.string (s.display a)) b := by
  cases a <;> cases b <;> first | rfl | exact ha.elim | exact hb.elim

theorem comparison_containerRight (ha : a.IsAtom) (hb : b.IsContainer) :
    s.comparison again a b = again a (.string (s.display b)) := by
  cases a <;> cases b <;> first | rfl | exact ha.elim | exact hb.elim

theorem comparison_references (ha : a.isReference = true) (hb : b.isReference = true) :
    s.comparison again a b = a.strictEquals b := by
  cases a <;> cases b <;> first | rfl | exact Bool.noConfusion ha | exact Bool.noConfusion hb

theorem comparison_opaqueLeft (ha : a.IsOpaque) (hb : b.IsAtom) :
    s.comparison again a b = false := by
  cases a <;> cases b <;> first | rfl | exact ha.elim | exact hb.elim

theorem comparison_opaqueRight (ha : a.IsAtom) (hb : b.IsOpaque) :
    s.comparison again a b = false := by
  cases a <;> cases b <;> first | rfl | exact ha.elim | exact hb.elim

end Comparison

/-! ### Without coercions -/

theorem settled_nullish (h : a.isNullish = true ∨ b.isNullish = true) :
    s.Settled k a b (a.isNullish && b.isNullish) where
  left := .nullish h
  right := Bool.and_comm _ _ ▸ .nullish h.symm
  within := by
    rintro x y rfl rfl
    refine ⟨comparison_nullish h, ?_⟩
    rw [looseEqualsWithin_succ, comparison_nullish h.symm, Bool.and_comm]

/-- Numbers and texts are compared at once. -/
theorem settled_atoms (ha : a.IsAtom) (hb : b.IsAtom) :
    ∃ answer, s.Settled k a b answer := by
  have hnumbers (x y : Float) : s.Settled k (.number x) (.number y) (x == y) := by
    refine ⟨.numbers x y, Number.beq_comm x y ▸ .numbers y x, fun hx hy => ?_⟩
    constructor
    · rw [looseEqualsWithin_succ, hx, hy]
      rfl
    · rw [looseEqualsWithin_succ, hx, hy]
      exact Number.beq_comm y x
  have htexts (t u : String) : s.Settled k (.string t) (.string u) (t == u) := by
    refine ⟨.texts t u, BEq.comm (a := t) ▸ .texts u t, fun hx hy => ?_⟩
    constructor
    · rw [looseEqualsWithin_succ, hx, hy]
      rfl
    · rw [looseEqualsWithin_succ, hx, hy]
      exact BEq.comm
  have hmixed (x : Float) (t : String) : s.Settled k (.number x) (.string t) (x == ofText t) := by
    refine ⟨.numberText x t, Number.beq_comm x _ ▸ .textNumber t x, fun hx hy => ?_⟩
    constructor
    · rw [looseEqualsWithin_succ, hx, hy]
      rfl
    · rw [looseEqualsWithin_succ, hx, hy]
      exact Number.beq_comm _ x
  cases a with
  | number x =>
    cases b with
    | number y => exact ⟨_, hnumbers x y⟩
    | string t => exact ⟨_, hmixed x t⟩
    | _ => exact hb.elim
  | string t =>
    cases b with
    | number y => exact ⟨_, (hmixed y t).symm⟩
    | string u => exact ⟨_, htexts t u⟩
    | _ => exact hb.elim
  | _ => exact ha.elim

/-- References are told apart at once. -/
theorem settled_references (ha : a.isReference = true) (hb : b.isReference = true) :
    s.Settled k a b (a.strictEquals b) := by
  refine ⟨.references ha hb, Value.strictEquals_comm a b ▸ .references hb ha, ?_⟩
  rintro x y rfl rfl
  refine ⟨comparison_references ha hb, ?_⟩
  rw [looseEqualsWithin_succ, comparison_references hb ha, Value.strictEquals_comm]

/-- A function, and a cell that a cell held, are no number or text. -/
theorem settled_of_isOpaque (ha : a.IsOpaque) (hb : b.IsAtom) : s.Settled k a b false := by
  refine ⟨.opaqueLeft ha hb, .opaqueRight hb ha, ?_⟩
  rintro x y rfl rfl
  exact ⟨comparison_opaqueLeft ha hb, comparison_opaqueRight hb ha⟩

/-! ### With coercions -/

theorem unwrap_of_isAtom (h : a.IsAtom) : s.unwrap a = a := by
  cases a with
  | cell c => exact h.elim
  | _ => rfl

theorem isWritten_display (hends : ∀ v, ∃ k, ¬(s.unwrap^[k] v).IsCell) (v : Value) :
    s.IsWritten v (s.display v) := by
  have hgoes := Writer.goesTo_value_of_ends hends [] v [] ""
  rwa [textWithin_nil, String.empty_append] at hgoes

section Coerced

variable {answer : Bool} {k : Nat}

/-- A truth value is coerced against anything that is none. -/
theorem Settled.bool {p : Bool} (hnull : b.isNullish = false) (hbool : ∀ q, b ≠ .bool q)
    (h : s.Settled k (.number (s.toNumber (.bool p))) (s.unwrap b) answer) :
    s.Settled (k + 1) (.bool p) b answer := by
  refine ⟨.boolLeft hnull h.left, .boolRight hnull hbool h.right, ?_⟩
  rintro x y hx rfl
  rw [looseEqualsWithin_succ, looseEqualsWithin_succ, hx, comparison_boolLeft p hnull,
    comparison_boolRight p hnull hbool]
  exact h.within rfl rfl

/-- Of two truth values both are coerced, the left one first. -/
theorem Settled.bools {p q : Bool}
    (h : s.Settled k (.number (s.toNumber (.bool p))) (.number (s.toNumber (.bool q))) answer) :
    s.Settled (k + 2) (.bool p) (.bool q) answer := by
  refine ⟨.boolLeft rfl (.boolRight rfl nofun h.left), .boolLeft rfl (.boolRight rfl nofun h.right),
    fun {x y} hx hy => ?_⟩
  have hthen (p q : Bool) : s.looseEqualsWithin (k + 2) (.number (s.toNumber (.bool p))) (.bool q) =
      s.looseEqualsWithin (k + 1) (.number (s.toNumber (.bool p)))
        (.number (s.toNumber (.bool q))) :=
    comparison_boolRight q rfl nofun
  -- each side coerces its own left value first; two steps later both compare the same numbers
  rw [looseEqualsWithin_succ, looseEqualsWithin_succ, hx, hy, comparison_boolLeft p rfl,
    comparison_boolLeft q rfl, hthen, hthen]
  exact h.within rfl rfl

/-- An array or object is coerced against a number or text. -/
theorem Settled.container (ha : a.IsContainer) (hb : b.IsAtom) (ht : s.IsWritten a (s.display a))
    (h : s.Settled k (.string (s.display a)) b answer) : s.Settled (k + 1) a b answer := by
  refine ⟨.containerLeft ha hb ht h.left, .containerRight hb ha ht h.right, ?_⟩
  rintro x y rfl rfl
  rw [looseEqualsWithin_succ, looseEqualsWithin_succ, comparison_containerLeft ha hb,
    comparison_containerRight hb ha]
  exact h.within rfl (unwrap_of_isAtom hb)

end Coerced

/-- A value that is neither nullish nor a truth value is of one of three kinds. -/
theorem kinds (hnull : a.isNullish = false) (hbool : ∀ p, a ≠ .bool p) :
    a.IsAtom ∨ a.IsContainer ∨ a.IsOpaque := by
  cases a with
  | undefined | null => exact Bool.noConfusion hnull
  | bool p => exact absurd rfl (hbool p)
  | number | string => exact .inl trivial
  | array | object => exact .inr (.inl trivial)
  | cell | function => exact .inr (.inr trivial)

theorem isReference_of_kinds (h : a.IsContainer ∨ a.IsOpaque) : a.isReference = true := by
  cases a <;> first | rfl | exact (or_self_iff.1 h).elim

variable (hends : ∀ v, ∃ k, ¬(s.unwrap^[k] v).IsCell)

include hends

/-- A number or text against any value: one of them is coerced at most. -/
theorem settled_atom (ha : a.IsAtom) (b : Value) : ∃ answer, s.Settled (k + 1) a b answer := by
  rcases hnull : b.isNullish with _ | _
  swap
  · exact ⟨_, settled_nullish _ (.inr hnull)⟩
  have hanull : a.isNullish = false := by cases a <;> first | rfl | exact ha.elim
  by_cases hbool : ∃ p, b = .bool p
  · obtain ⟨p, rfl⟩ := hbool
    obtain ⟨answer, h⟩ := settled_atoms (s := s) k (a := .number (s.toNumber (.bool p))) trivial ha
    rw [← unwrap_of_isAtom (s := s) ha] at h
    exact ⟨answer, (h.bool hanull (by rintro q rfl; exact ha)).symm⟩
  · rcases kinds hnull fun p hp => hbool ⟨p, hp⟩ with hb | hb | hb
    · exact settled_atoms _ ha hb
    · obtain ⟨answer, h⟩ := settled_atoms (s := s) k (a := .string (s.display b)) trivial ha
      exact ⟨answer, (h.container hb ha (isWritten_display hends b)).symm⟩
    · exact ⟨false, (settled_of_isOpaque _ hb ha).symm⟩

/-- Any two values: a comparison begins anew at most twice. -/
theorem settled (a b : Value) : ∃ answer, s.Settled (k + 2) a b answer := by
  by_cases hnull : a.isNullish = true ∨ b.isNullish = true
  · exact ⟨_, settled_nullish _ hnull⟩
  obtain ⟨hanull, hbnull⟩ := not_or.1 hnull
  rw [Bool.not_eq_true] at hanull hbnull
  by_cases hleft : ∃ p, a = .bool p
  · obtain ⟨p, rfl⟩ := hleft
    by_cases hright : ∃ q, b = .bool q
    · obtain ⟨q, rfl⟩ := hright
      obtain ⟨answer, h⟩ := settled_atoms (s := s) k (a := .number (s.toNumber (.bool p)))
        (b := .number (s.toNumber (.bool q))) trivial trivial
      exact ⟨answer, h.bools⟩
    · -- what is on the right has its cells looked through once more before it is compared again
      obtain ⟨answer, h⟩ := settled_atom k hends (a := .number (s.toNumber (.bool p))) trivial
        (s.unwrap b)
      exact ⟨answer, h.bool hbnull fun q hq => hright ⟨q, hq⟩⟩
  by_cases hright : ∃ q, b = .bool q
  · obtain ⟨q, rfl⟩ := hright
    obtain ⟨answer, h⟩ := settled_atom k hends (a := .number (s.toNumber (.bool q))) trivial
      (s.unwrap a)
    exact ⟨answer, (h.bool hanull fun p hp => hleft ⟨p, hp⟩).symm⟩
  rcases kinds hanull fun p hp => hleft ⟨p, hp⟩ with ha | ha
  · exact settled_atom _ hends ha b
  rcases kinds hbnull fun q hq => hright ⟨q, hq⟩ with hb | hb
  · obtain ⟨answer, h⟩ := settled_atom (k + 1) hends hb a
    exact ⟨answer, h.symm⟩
  · exact ⟨_, settled_references _ (isReference_of_kinds ha) (isReference_of_kinds hb)⟩

end Store

/-- `==` is symmetric, in any store where no chain of cells that hold cells is cyclic, whatever else
contains itself.  A comparison of two values begins with what they are when a cell on either side
has been looked through.  It comes to an end from either side, with the same answer, and that is the
answer of `==`. -/
theorem loose_equality_is_symmetric {s : Store} (hacyclic : s.Acyclic) (x y : Value) :
    ∃ answer, s.Compares (s.unwrap x) (s.unwrap y) answer ∧
      s.Compares (s.unwrap y) (s.unwrap x) answer ∧
        s.looseEquals x y = answer ∧ s.looseEquals y x = answer := by
  obtain ⟨answer, h⟩ := Store.settled 1 (Store.acyclic_iff.1 hacyclic) (s.unwrap x) (s.unwrap y)
  exact ⟨answer, h.left, h.right, h.within rfl rfl⟩

/-- A cell that holds a cell that holds a list, of which the first cell is the one element. -/
def listBehindCells : Store where
  arrays := #[[.cell ⟨0⟩]]
  cells := #[{ held := .cell ⟨1⟩ }, { held := .array ⟨0⟩ }]

/-- Against a truth value the list is found behind both cells.  Its text, and so its number, is that
of nothing. -/
theorem listBehindCells_equals_false :
    listBehindCells.Acyclic ∧ listBehindCells.looseEquals (.bool false) (.cell ⟨0⟩) = true ∧
      listBehindCells.looseEquals (.cell ⟨0⟩) (.bool false) = true := by
  have hacyclic : listBehindCells.Acyclic := by
    refine Store.acyclic_iff.2 fun v => ⟨2, ?_⟩
    rintro ⟨c, hc⟩
    rcases v with _ | _ | _ | _ | _ | _ | _ | ⟨⟨_ | _ | n⟩⟩ | _ <;> cases hc
  obtain ⟨answer, -, -, hleft, hright⟩ :=
    loose_equality_is_symmetric hacyclic (.bool false) (.cell ⟨0⟩)
  have hanswer : listBehindCells.looseEquals (.bool false) (.cell ⟨0⟩) = true := by decide +kernel
  exact ⟨hacyclic, hanswer, (hright.trans hleft.symm).trans hanswer⟩

end LiveMarkup
