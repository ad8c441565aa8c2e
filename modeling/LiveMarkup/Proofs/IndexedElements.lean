import LiveMarkup.Proofs.ReadBack
import LiveMarkup.Proofs.WholeNumbers

/-!
# Elements that are stored and selected

An element is stored and selected by a number.  The number is written as a text, the text is taken
for a property name, and the property name is read as an index again.  For whole numbers the way
there and back changes nothing, so that an array that is written and read by number works as arrays
do: the element that has been stored is selected, and the others are as they were.

## Main definitions

* `Syntax.Expr.operand?` — what a name or a literal stands for.
* `Syntax.Expr.Gives` — an expression gives a value.

## Main results

* `Number.IsNatural.foundUnder` — the element at an index is found under the text of the number.
* `setMember_element`, `getMember_element` — an element is written and read, also through a cell.
* `outcome_assign` — an assignment computes the place, then the value, and then writes.
* `stored_element_is_selected` — what every element is after one has been stored.
-/

namespace LiveMarkup

open Eval Syntax Number

/-! ### Elements of the store -/

/-- The element at an index is found under the text of a number that stands for the index. -/
theorem Number.IsNatural.foundUnder {x : Float} {i : Nat} (h : IsNatural x i) (hi : i < 2 ^ 64) :
    FoundUnder i (Number.written x) :=
  .numeral hi (h.written (Nat.lt_trans hi (by decide)))

section Members

variable {s : Store} {target v : Value} {r : ArrayRef} {key : String} {i : Nat}

theorem getMember_array (harray : s.unwrap target = .array r)
    (hanswers : target.answers key = false) :
    getMember s target key = .ok (s.ownProperty (.array r) key) := by
  have hcell : ¬(s.unwrap target).IsCell := by
    rw [harray]
    rintro ⟨c, ⟨⟩⟩
  rw [Store.getMember_of_not_answers hcell hanswers, harray]
  rfl

theorem FoundUnder.answers (h : FoundUnder i key) (target : Value) :
    target.answers key = false := by
  refine Bool.eq_false_iff.2 fun hanswers => ?_
  have hnone := (indexOfKey?_of_answers hanswers).2
  rw [h.index] at hnone
  cases hnone

theorem getMember_element (harray : s.unwrap target = .array r) (hkey : FoundUnder i key) :
    getMember s target key = .ok ((s.items r)[i]?.getD .undefined) := by
  rw [getMember_array harray (hkey.answers target), hkey.ownProperty_array]

theorem getMember_length (harray : s.unwrap target = .array r) :
    getMember s target "length" = .ok (.number (ofNat (s.items r).length)) := by
  refine getMember_array harray ?_
  cases target with
  | cell c => simp [Value.answers]
  | _ => rfl

/-- An element that the array can grow to hold is written, also through a cell. -/
theorem setMember_element (harray : s.unwrap target = .array r)
    (hmade : s.hasMade (.array r) = true) (hkey : FoundUnder i key)
    (hfits : (Extent.element i v).Fits (s.items r).length) :
    ∃ t, setMember s target key v = (t, .ok ()) ∧ t.unwrap target = .array r ∧
      t.items r = (Extent.element i v).after (s.items r) := by
  have hedit : s.setProperty (.array r) key v =
      .ok (s.setItems r ((Extent.element i v).after (s.items r))) := by
    simp only [Store.setProperty, if_neg hkey.ne_length, hkey.index]
    exact Extent.perform_of_fits hfits
  have hitems := s.items_setItems r r ((Extent.element i v).after (s.items r))
  rw [if_pos ⟨rfl, hmade⟩] at hitems
  by_cases hcell : target.IsCell
  · -- past the cell the array is edited, and the pass that is requested shows in no element
    obtain ⟨c, rfl⟩ := hcell
    have hvalue : key ≠ "value" := by
      rintro rfl
      cases hkey.index
    have hheld : s.held c = .array r := harray
    rw [← hheld] at hedit
    refine ⟨_, (Store.Written.past c hvalue hedit).setMember_eq, ?_, ?_⟩
    · rw [unwrap_trigger]
      exact harray
    · rw [items_trigger]
      exact hitems
  · rw [Store.unwrap_of_not_isCell hcell] at harray
    subst harray
    have hown : s.Written key v (.array r) _ := .own (by rintro c ⟨⟩) (by rintro o c ⟨⟩) hedit
    exact ⟨_, hown.setMember_eq, rfl, hitems⟩

end Members

theorem Store.SameContents.items {s t : Store} (h : s.SameContents t) (r : ArrayRef) :
    s.items r = t.items r := by
  unfold Store.items
  rw [h.arrays]

/-! ### Expressions -/

namespace Syntax.Expr

/-- What a name or a literal stands for in a frame; nothing for other expressions. -/
def operand? (frame : Frame) : Expr → Option Value
  | .literal l => some l.value
  | .param slot _ | .declared slot _ => some (frame.slot slot)
  | _ => none

/-- The expression gives the value, whatever is held around it. -/
def Gives (e : Expr) (frame : Frame) (v : Value) : Prop :=
  ∀ held, ((evalExpr e).outcome held frame).1 = .ok v

theorem operand?_congr {f g : Frame} (h : g.slots = f.slots) (e : Expr) :
    e.operand? g = e.operand? f := by
  cases e <;> simp only [operand?, Frame.slot, h]

end Syntax.Expr

namespace Eval

open Evaluation

variable {held : List Entity} {frame f g after : Frame}

/-- Names and literals change nothing. -/
theorem outcome_operand {e : Expr} {v : Value} (h : e.operand? frame = some v)
    (held : List Entity) : (evalExpr e).outcome held frame = (.ok v, frame) := by
  cases e with
  | literal | param | declared =>
    cases h
    rw [evalExpr]
    rfl
  | _ => cases h

section Elements

variable {object key : Expr} {target v : Value} {x : Float} {name : String}

/-- A number is written as the name of a property. -/
theorem propertyKey_number (s : Store) (x : Float) : s.propertyKey (.number x) = written x := by
  have hdepth : s.displayDepth = (s.displayDepth - 1) + 1 :=
    (Nat.sub_add_cancel (Nat.mul_pos (Nat.succ_pos _) (Nat.succ_pos _))).symm
  show s.displayWithin s.displayDepth [] (.number x) = written x
  rw [hdepth]
  rfl

theorem outcome_propertyKey (x : Float) (held : List Entity) (frame : Frame) :
    (askOf (.number x) Store.propertyKey).outcome held frame = (.ok (written x), frame) := by
  refine (outcome_holding (outcome_ask _ _ _)).trans ?_
  rw [propertyKey_number]
  rfl

theorem outcome_memberOf (h : getMember frame.store target name = .ok v) (held : List Entity) :
    (memberOf target name).outcome held frame = (.ok v, frame) := by
  refine (outcome_bind_ok (outcome_ask _ held frame)).trans ?_
  rw [h]
  rfl

theorem outcome_checkLink_false (target : Value) (held : List Entity) (frame : Frame) :
    (checkLink false target).outcome held frame = (.ok (), frame) := rfl

/-- A link goes on from what a name stands for. -/
theorem outcome_link {k : Value → Evaluation Value} (hobject : object.operand? frame = some target)
    (hk : ∀ held, (k target).outcome held frame = (.ok v, frame)) (held : List Entity) :
    ((do let target ← evalExpr object; holding target.entity?.toList (k target) :
      Evaluation Value).outcome held frame).1 = .ok v := by
  rw [outcome_bind_ok (outcome_operand hobject held)]
  exact congrArg Prod.fst (outcome_holding (hk _))

/-- A member of what a name stands for is read. -/
theorem gives_member (hobject : object.operand? frame = some target)
    (h : getMember frame.store target name = .ok v) :
    (Expr.member object name false).Gives frame v := by
  intro held
  rw [evalExpr]
  exact outcome_link hobject (fun held =>
    (outcome_bind_ok (outcome_checkLink_false target held frame)).trans (outcome_memberOf h held))
    held

/-- An element of what a name stands for is read. -/
theorem gives_index (hobject : object.operand? frame = some target)
    (hkey : key.operand? frame = some (.number x))
    (h : getMember frame.store target (written x) = .ok v) :
    (Expr.index object key false).Gives frame v := by
  intro held
  rw [evalExpr]
  refine outcome_link hobject (fun held => ?_) held
  refine (outcome_bind_ok (outcome_checkLink_false target held frame)).trans ?_
  refine (outcome_bind_ok (outcome_operand hkey held)).trans ?_
  exact (outcome_bind_ok (outcome_propertyKey x held frame)).trans (outcome_memberOf h held)

/-- An element that is assigned to is found before the value is computed. -/
theorem outcome_place (hobject : object.operand? frame = some target)
    (hkey : key.operand? frame = some (.number x)) (held : List Entity) :
    (evalPlace (.index object key false)).outcome held frame =
      (.ok (.property target (written x)), frame) := by
  rw [evalPlace]
  refine (outcome_bind_ok (outcome_operand hobject held)).trans ?_
  refine (outcome_bind_ok (outcome_keeping_ok ?_)).trans rfl
  exact (outcome_bind_ok (outcome_operand hkey _)).trans (outcome_propertyKey x _ frame)

/-- A member is written, and what has lost its last reference is let go. -/
theorem outcome_writeMember {t : Store} (h : setMember frame.store target name v = (t, .ok ()))
    (held : List Entity) :
    ∃ after, (writePlace (.property target name) v).outcome held frame = (.ok (), after) ∧
      ({ frame with store := t } : Frame).SameValues after := by
  have hwrite : (attempt fun s => setMember s target name v).outcome held frame =
      (.ok (), { frame with store := t }) := (outcome_attempt h).trans rfl
  refine ⟨_, ?_, Frame.sameValues_letGo _ held (frame.lost { frame with store := t })⟩
  unfold outcome writePlace at *
  rw [run_replacing, hwrite]

/-- An assignment computes the place, then the value, and then writes. -/
theorem outcome_assign {target value : Expr} {place : Place}
    (hplace : (evalPlace target).outcome held frame = (.ok place, f))
    (hvalue : (evalExpr value).outcome (place.entities ++ held) f = (.ok v, g))
    {changed : Frame} (hwrite : ∀ held, ∃ after,
      (writePlace place v).outcome held g = (.ok (), after) ∧ changed.SameValues after) :
    ∃ after, (evalExpr (.assign .assign target value)).outcome held frame = (.ok v, after) ∧
      changed.SameValues after := by
  obtain ⟨after, hrun, hsame⟩ := hwrite (place.entities ++ (v.entity?.toList ++ held))
  obtain ⟨last, hlast, hend⟩ : ∃ last, (keeping v.entity?.toList
      (holding place.entities (writePlace place v))).outcome held g = (.ok (), last) ∧
        changed.SameValues last :=
    ⟨_, outcome_keeping_ok (outcome_holding hrun), hsame.trans (Frame.sameValues_letGo _ _ _)⟩
  refine ⟨last, ?_, hend⟩
  rw [evalExpr]
  refine (outcome_bind_ok hplace).trans ?_
  exact (outcome_bind_ok (outcome_keeping_ok hvalue)).trans (outcome_bind_ok hlast)

end Elements

end Eval

/-- After an element has been stored in an array that can grow to hold it:

* The element that is selected by the same number is the value.
* Every other element is what it was, and those past the old end are `undefined`.
* The length is the old one, or ends at the new element.

The array is named directly or is held by a cell. -/
theorem stored_element_is_selected {a i value : Expr} {frame : Frame} {target v : Value} {x : Float}
    {r : ArrayRef} {p : Nat} (ha : a.operand? frame = some target)
    (hi : i.operand? frame = some (.number x)) (hv : value.operand? frame = some v)
    (harray : frame.store.unwrap target = .array r)
    (hmade : frame.store.hasMade (.array r) = true) (hx : IsNatural x p) (hp : p < 2 ^ 32 - 1)
    (hlength : (frame.store.items r).length ≤ 2 ^ 32 - 1)
    (hgrowth : p - (frame.store.items r).length ≤ maxArrayGrowth) (held : List Entity) :
    let n := (frame.store.items r).length
    ∃ after, (evalExpr (.assign .assign (.index a i false) value)).outcome held frame =
        (.ok v, after) ∧
      (Expr.index a i false).Gives after v ∧
      (∀ j y q, Expr.operand? frame j = some (.number y) → IsNatural y q → q < 2 ^ 32 - 1 → q ≠ p →
        ∃ w, (Expr.index a j false).Gives frame w ∧ (Expr.index a j false).Gives after w ∧
          (n ≤ q → w = .undefined)) ∧
      ∃ z, (Expr.member a "length" false).Gives after (.number z) ∧
        IsNatural z (max n (p + 1)) := by
  intro n
  have hfits : (Extent.element p v).Fits n := ⟨hgrowth, fun _ => Nat.le_sub_one_of_lt hp⟩
  obtain ⟨t, hwrite, htarget, hitems⟩ :=
    setMember_element harray hmade (hx.foundUnder (Nat.lt_trans hp (by decide))) hfits
  obtain ⟨after, hrun, hsame⟩ := outcome_assign (outcome_place ha hi held) (outcome_operand hv _)
    (outcome_writeMember hwrite)
  -- no slot has been written, so names stand for what they stood for
  have hoperand (e : Expr) : e.operand? after = e.operand? frame := e.operand?_congr hsame.slots
  have hafter : after.store.unwrap target = .array r := (hsame.unwrap target).trans htarget
  have hstored : after.store.items r = (Extent.element p v).after (frame.store.items r) :=
    (hsame.store.items r).trans hitems
  have hselect {e : Expr} {y : Float} {q : Nat} (he : e.operand? frame = some (.number y))
      (hy : IsNatural y q) (hq : q < 2 ^ 32 - 1) :
      (Expr.index a e false).Gives frame ((frame.store.items r)[q]?.getD .undefined) ∧
        (Expr.index a e false).Gives after ((after.store.items r)[q]?.getD .undefined) := by
    have hfound := hy.foundUnder (Nat.lt_trans hq (by decide))
    exact ⟨gives_index ha he (getMember_element harray hfound),
      gives_index ((hoperand a).trans ha) ((hoperand e).trans he) (getMember_element hafter hfound)⟩
  refine ⟨after, hrun, ?_, fun j y q hj hy hq hne => ⟨_, (hselect hj hy hq).1, ?_, fun hpast => ?_⟩,
    _, gives_member ((hoperand a).trans ha) (getMember_length hafter), ?_⟩
  · have hstore := (hselect hi hx hp).2
    rwa [hstored, Extent.getElem?_after_element, if_pos rfl] at hstore
  · have hother := (hselect hj hy hq).2
    rwa [hstored, Extent.getD_after_element_of_ne _ v hne] at hother
  · rw [List.getElem?_eq_none hpast]
    rfl
  · rw [hstored, Extent.length_after_element]
    exact isNatural_ofNat (by omega)

/-- A cell that holds an array of one element. -/
def shortListInCell : Store where
  arrays := #[[.null]]
  cells := #[{ held := .array ⟨0⟩ }]

/-- Through the cell an element is stored past the end. -/
theorem element_is_stored_through_cell :
    let frame : Frame := ⟨#[.cell ⟨0⟩], 1, shortListInCell⟩
    let element (x : Float) : Expr := .index (.param 0 "list") (.literal (.number x)) false
    ∃ after, (evalExpr (.assign .assign (element 3.0) (.literal (.bool true)))).outcome [] frame =
        (.ok (.bool true), after) ∧
      (element 3.0).Gives after (.bool true) ∧ (element 0.0).Gives after .null ∧
        (element 2.0).Gives after .undefined := by
  intro frame element
  have hgrowth : 3 - (frame.store.items ⟨0⟩).length ≤ maxArrayGrowth := by decide
  obtain ⟨after, hrun, hstored, hothers, -⟩ := @stored_element_is_selected (.param 0 "list")
    (.literal (.number 3.0)) (.literal (.bool true)) frame (.cell ⟨0⟩) (.bool true) 3.0 ⟨0⟩ 3 rfl
    rfl rfl rfl rfl (by decide) (by decide) (by decide) hgrowth []
  refine ⟨after, hrun, hstored, ?_, ?_⟩
  · obtain ⟨w, hbefore, hafter, -⟩ := hothers (.literal (.number 0.0)) 0.0 0 rfl isNatural_zero
      (by decide) (by decide)
    have hnull : (element 0.0).Gives frame .null :=
      gives_index rfl rfl (getMember_element (r := ⟨0⟩) rfl (isNatural_zero.foundUnder (by decide)))
    cases (hbefore []).symm.trans (hnull [])
    exact hafter
  · obtain ⟨w, -, hafter, hpast⟩ := hothers (.literal (.number 2.0)) 2.0 2 rfl (by decide)
      (by decide) (by decide)
    rwa [hpast (by decide)] at hafter

end LiveMarkup
