import LiveMarkup.Proofs.Evaluation
import LiveMarkup.Proofs.SeenThrough
import LiveMarkup.Proofs.Steadiness

/-!
# Frames that mirror each other

One frame has its parameters bound to cells, the other to what the cells hold.  They mirror each
other as long as every slot of the second holds what the slot of the first shows.  A steady write
keeps it so: it goes to the cell in the first frame, to the slot itself in the second, and shows in
nothing else.

What is held around a computation, and when it is let go, differs between the two frames; it shows
in no value.

## Main definitions

* `Frame.Mirrors` — what every slot of one frame shows, the slot of the other frame holds.
* `Ends` — two computations end the same way, in frames that mirror each other.

## Main results

* `Frame.Mirrors.writeSlot` — a steady write.
* `Ends.bind`, `Ends.holding`, `Ends.keeping` — computations one after another, and around which
  values are held.
* `evalExpr_assign`, `evalExpr_update` — an assignment to a name computes a value and writes it.
* `ends_writePlace` — a steady assignment.
-/

namespace LiveMarkup

/-- Cells hold the same in stores with the same contents. -/
theorem Store.SameContents.unwrap {s t : Store} (h : s.SameContents t) (v : Value) :
    s.unwrap v = t.unwrap v := by
  cases v with
  | cell c =>
    show s.held c = t.held c
    unfold Store.held Store.cellState
    rw [h.cells]
  | _ => rfl

namespace Eval

open Syntax

variable {α β γ δ : Type}

/-! ### Frames -/

/-- Frames with the same slots and contents. -/
structure Frame.SameValues (f g : Frame) : Prop where
  slots : g.slots = f.slots
  params : g.params = f.params
  store : g.store.SameContents f.store

theorem Frame.sameValues_letGo (f : Frame) (kept lost : List Entity) :
    f.SameValues (f.letGo kept lost) := by
  unfold Frame.letGo
  split
  · exact ⟨rfl, rfl, .refl _⟩
  · exact ⟨rfl, rfl, Store.sameContents_letGo _ _ _⟩

namespace Frame.SameValues

variable {f g : Frame} (h : f.SameValues g)

include h

theorem slot (i : Nat) : g.slot i = f.slot i := by
  unfold Frame.slot
  rw [h.slots]

theorem unwrap (v : Value) : g.store.unwrap v = f.store.unwrap v := h.store.unwrap v

end Frame.SameValues

/-- The parameters of `f` are bound to the cells, one to each, and every slot of `g` holds what the
slot of `f` shows. -/
structure Frame.Mirrors (cells : List CellRef) (f g : Frame) : Prop where
  params : f.params = cells.length
  params' : g.params = cells.length
  size : f.slots.size = g.slots.size
  bound : ∀ i c, cells[i]? = some c → f.slot i = .cell c ∧ f.store.Has c
  shows (i : Nat) : f.store.Shows (f.slot i) (g.slot i)

/-- All that a list of values shows has stayed the same. -/
def Keeps (kept : List Value) (f g : Frame) : Prop :=
  ∀ p ∈ kept, g.store.unwrap p = f.store.unwrap p

variable {cells : List CellRef} {kept : List Value} {f g f' g' : Frame}

theorem Frame.Mirrors.same (h : f.Mirrors cells g) (hf : f.SameValues f') (hg : g.SameValues g') :
    f'.Mirrors cells g' where
  params := hf.params.trans h.params
  params' := hg.params.trans h.params'
  size := by rw [hf.slots, hg.slots, h.size]
  bound i c hi := by
    obtain ⟨hslot, hhas⟩ := h.bound i c hi
    refine ⟨(hf.slot i).trans hslot, ?_⟩
    unfold Store.Has
    rw [hf.store.cells]
    exact hhas
  shows i := by
    rw [hf.slot, hg.slot]
    exact ⟨(hf.unwrap _).trans (h.shows i).unwrap, (h.shows i).scalar⟩

theorem Keeps.trans {f₁ f₂ f₃ : Frame} (h : Keeps kept f₁ f₂) (h' : Keeps kept f₂ f₃) :
    Keeps kept f₁ f₃ :=
  fun p hp => (h' p hp).trans (h p hp)

theorem keeps_nil : Keeps [] f g := by simp [Keeps]

theorem Frame.SameValues.keeps (h : f.SameValues g) (kept : List Value) : Keeps kept f g :=
  fun p _ => h.unwrap p

/-! ### Ends of computations -/

/-- Both computations end with related results, fail with the same error or return what shows the
same, in mirrored frames.  The first began in `f` and has left what the values `kept` show. -/
inductive Ends (cells : List CellRef) (kept : List Value) (f : Frame)
    (R : Store → α → β → Prop) : Except Interrupt α × Frame → Except Interrupt β × Frame → Prop
  | ok {x : α} {y : β} {f' g' : Frame} (hframes : f'.Mirrors cells g') (hkeeps : Keeps kept f f')
    (h : R f'.store x y) : Ends cells kept f R (.ok x, f') (.ok y, g')
  | failed {e : EvalError} {f' g' : Frame} (hframes : f'.Mirrors cells g') :
    Ends cells kept f R (.error (.failed e), f') (.error (.failed e), g')
  | returned {v w : Value} {f' g' : Frame} (hframes : f'.Mirrors cells g')
    (h : f'.store.Shows v w) :
    Ends cells kept f R (.error (.returned v), f') (.error (.returned w), g')

variable {R : Store → α → β → Prop} {Q : Store → γ → δ → Prop}

/-- Computations one after another. -/
theorem Ends.bind {k : Evaluation α} {k' : Evaluation β} {l : α → Evaluation γ}
    {l' : β → Evaluation δ} {held held' : List Entity}
    (hk : Ends cells kept f R ((k held).run.run f) ((k' held').run.run g))
    (hl : ∀ x y f' g', (k held).run.run f = (.ok x, f') → f'.Mirrors cells g' → R f'.store x y →
      Keeps kept f f' → Ends cells kept f' Q ((l x held).run.run f') ((l' y held').run.run g')) :
    Ends cells kept f Q (((k >>= l) held).run.run f) (((k' >>= l') held').run.run g) := by
  rw [run_bind, run_bind]
  generalize hrun : (k held).run.run f = r at hk hl
  generalize (k' held').run.run g = r' at hk
  cases hk with
  | failed hframes => exact .failed hframes
  | returned hframes h => exact .returned hframes h
  | ok hframes hkeeps h =>
    have hrest := hl _ _ _ _ rfl hframes h hkeeps
    dsimp only
    revert hrest
    generalize (l _ held).run.run _ = r
    generalize (l' _ held').run.run _ = r'
    intro hrest
    cases hrest with
    | ok hframes' hkeeps' h' => exact .ok hframes' (hkeeps.trans hkeeps') h'
    | failed hframes' => exact .failed hframes'
    | returned hframes' h' => exact .returned hframes' h'

theorem ends_pure {x : α} {y : β} {held held' : List Entity} (hframes : f.Mirrors cells g)
    (h : R f.store x y) :
    Ends cells kept f R (((pure x : Evaluation α) held).run.run f)
      (((pure y : Evaluation β) held').run.run g) :=
  .ok hframes (fun _ _ => rfl) h

/-- Fewer values are looked at. -/
theorem Ends.mono {kept' : List Value} {r : Except Interrupt α × Frame}
    {r' : Except Interrupt β × Frame} (h : Ends cells kept' f R r r') (hsub : kept ⊆ kept') :
    Ends cells kept f R r r' := by
  cases h with
  | ok hframes hkeeps h => exact .ok hframes (fun p hp => hkeeps p (hsub hp)) h
  | failed hframes => exact .failed hframes
  | returned hframes h => exact .returned hframes h

/-- A relation that depends on the values of a frame only. -/
def Stable (R : Store → α → β → Prop) : Prop :=
  ∀ (f g : Frame) x y, f.SameValues g → R f.store x y → R g.store x y

theorem stable_shows : Stable Store.Shows := fun _ _ v _ hfg h =>
  ⟨(hfg.unwrap v).trans h.unwrap, h.scalar⟩

theorem stable_eq : Stable fun _ (x y : α) => x = y := fun _ _ _ _ _ h => h

/-- What is let go at the end changes nothing. -/
theorem Ends.letGo {r : Except Interrupt α} {r' : Except Interrupt β} (hR : Stable R)
    (h : Ends cells kept f R (r, f') (r', g')) (kept₁ lost kept₂ lost' : List Entity) :
    Ends cells kept f R (r, f'.letGo kept₁ lost) (r', g'.letGo kept₂ lost') := by
  have hf := f'.sameValues_letGo kept₁ lost
  have hg := g'.sameValues_letGo kept₂ lost'
  cases h with
  | ok hframes hkeeps h =>
    exact .ok (hframes.same hf hg) (hkeeps.trans (hf.keeps kept)) (hR _ _ _ _ hf h)
  | failed hframes => exact .failed (hframes.same hf hg)
  | returned hframes h => exact .returned (hframes.same hf hg) (stable_shows _ _ _ _ hf h)

theorem Ends.holding [Referring α] [Referring β] {k : Evaluation α} {k' : Evaluation β}
    {es es' held held' : List Entity} (hR : Stable R)
    (h : Ends cells kept f R ((k (es ++ held)).run.run f) ((k' (es' ++ held')).run.run g)) :
    Ends cells kept f R ((holding es k held).run.run f) ((holding es' k' held').run.run g) :=
  Ends.letGo hR h _ _ _ _

theorem Ends.keeping {k : Evaluation α} {k' : Evaluation β} {es es' held held' : List Entity}
    (h : Ends cells kept f R ((k (es ++ held)).run.run f) ((k' (es' ++ held')).run.run g)) :
    Ends cells kept f R ((keeping es k held).run.run f) ((keeping es' k' held').run.run g) := by
  rw [run_keeping, run_keeping]
  generalize (k (es ++ held)).run.run f = r at h
  generalize (k' (es' ++ held')).run.run g = r' at h
  cases h with
  | ok hframes hkeeps h => exact .ok hframes hkeeps h
  | failed hframes =>
    exact .failed (hframes.same (Frame.sameValues_letGo _ _ _) (Frame.sameValues_letGo _ _ _))
  | @returned v w f' g' hframes h =>
    have hsame := f'.sameValues_letGo (Referring.entities (Interrupt.returned v) ++ held) es
    exact .returned (hframes.same hsame (Frame.sameValues_letGo _ _ _))
      (stable_shows _ _ _ _ hsame h)

theorem ends_askOf [Referring α] [Referring β] {v w : Value} {ask : Store → Value → α}
    {ask' : Store → Value → β} {held held' : List Entity} (hR : Stable R)
    (hframes : f.Mirrors cells g) (h : R f.store (ask f.store v) (ask' g.store w)) :
    Ends cells kept f R ((askOf v ask held).run.run f) ((askOf w ask' held').run.run g) :=
  Ends.holding hR (.ok hframes (fun _ _ => rfl) h)

/-! ### Writes -/

/-- A variable is written in both frames alike. -/
theorem Frame.Mirrors.setSlot {v w : Value} (h : f.Mirrors cells g) (hv : f.store.Shows v w)
    {i : Nat} (hi : cells.length ≤ i) : (f.setSlot i v).Mirrors cells (g.setSlot i w) where
  params := h.params
  params' := h.params'
  size := by simp [Frame.setSlot, h.size]
  bound j c hj := by
    have hlt : j < cells.length := (List.getElem?_eq_some_iff.1 hj).1
    rw [slot_setSlot, if_neg fun hij => by omega]
    exact h.bound j c hj
  shows j := by
    rw [slot_setSlot, slot_setSlot, h.size]
    split
    · exact hv
    · exact h.shows j

theorem slot_lt_size {i : Nat} {v : Value} (h : f.slot i = v) (hv : v ≠ .undefined) :
    i < f.slots.size := by
  by_contra hsize
  unfold Frame.slot at h
  rw [Array.getD_eq_getD_getElem?, Array.getElem?_eq_none (by omega)] at h
  exact hv h.symm

/-- A steady write shows in the cell that is written: it counts as a change, or the cell holds the
value already. -/
theorem Frame.Mirrors.held_setCell {v w : Value} (h : f.Mirrors cells g)
    (hv : f.store.Shows v w) {i : Nat} {c : CellRef} (hc : cells[i]? = some c)
    (hw : f.WritesSteadily kept i v) (d : CellRef) :
    (f.store.setCell c w).1.held d = if d = c then w else f.store.held d := by
  obtain ⟨hslot, hhas⟩ := h.bound i c hc
  have hlt : i < cells.length := (List.getElem?_eq_some_iff.1 hc).1
  have hshows := h.shows i
  have hold : f.store.unwrap (f.slot i) = f.store.held c := by rw [hslot]; rfl
  rw [Store.held_setCell]
  by_cases hd : d = c
  · subst hd
    by_cases hchanged : f.store.hasChanged (f.store.held d) w = true
    · rw [if_pos ⟨rfl, hhas, hchanged⟩, if_pos rfl]
    · rw [if_neg fun hif => hchanged hif.2.2, if_pos rfl]
      obtain heq | ⟨x, y, hx, hy, hxy⟩ := Store.eq_or_equal_of_unchanged
        (hold ▸ hshows.unwrap ▸ hshows.scalar) hv.scalar (Bool.eq_false_iff.2 hchanged)
      · exact heq
      · have hsame : x = y :=
          hw.numbers x y (h.params ▸ hlt) (hold.trans hx) (hv.unwrap.trans hy) hxy
        rw [hx, hy, hsame]
  · rw [if_neg fun hif => hd hif.1, if_neg hd]

/-- A cell in the slot of a parameter is written, and the value itself in the other frame. -/
theorem Frame.Mirrors.setCell (hcells : cells.Nodup) {v w : Value} (h : f.Mirrors cells g)
    (hv : f.store.Shows v w) {i : Nat} {c : CellRef} (hc : cells[i]? = some c)
    (hw : f.WritesSteadily kept i v)
    (hwrite : f.writeSlot i v = { f with store := (f.store.setCell c w).1 }) :
    ({ f with store := (f.store.setCell c w).1 } : Frame).Mirrors cells (g.setSlot i w) where
  params := h.params
  params' := h.params'
  size := by simp [Frame.setSlot, h.size]
  bound j d hd := ⟨(h.bound j d hd).1, Store.has_setCell.2 (h.bound j d hd).2⟩
  shows j := by
    have hsize : i < g.slots.size := h.size ▸ slot_lt_size (h.bound i c hc).1 (by rintro ⟨⟩)
    rw [slot_setSlot]
    by_cases hij : i = j
    · subst hij
      rw [if_pos ⟨rfl, hsize⟩]
      refine ⟨?_, hv.scalar⟩
      show (f.store.setCell c w).1.unwrap (f.slot i) = w
      rw [(h.bound i c hc).1]
      exact (h.held_setCell hv hc hw c).trans (if_pos rfl)
    · rw [if_neg fun hif => hij hif.1]
      refine ⟨?_, (h.shows j).scalar⟩
      show (f.store.setCell c w).1.unwrap (f.slot j) = g.slot j
      have hold := (h.shows j).unwrap
      by_cases hj : j < cells.length
      · -- another parameter is bound to another cell
        have hne : cells[j] ≠ c := by
          rintro rfl
          exact hij ((List.getElem?_inj (List.getElem?_eq_some_iff.1 hc).1 hcells).1
            (hc.trans (List.getElem?_eq_getElem hj).symm))
        rw [(h.bound j _ (List.getElem?_eq_getElem hj)).1] at hold ⊢
        exact ((h.held_setCell hv hc hw _).trans (if_neg hne)).trans hold
      · have hdeclared := hw.declared j (h.params ▸ Nat.le_of_not_lt hj)
        rw [hwrite] at hdeclared
        exact hdeclared.trans hold

/-- A steady write leaves mirrored frames, and the value written shows the same. -/
theorem Frame.Mirrors.writeSlot (hcells : cells.Nodup) {v w : Value} (h : f.Mirrors cells g)
    (hv : f.store.Shows v w) {i : Nat} (hw : f.WritesSteadily kept i v) :
    (f.writeSlot i v).Mirrors cells (g.writeSlot i w) ∧ (f.writeSlot i v).store.Shows v w := by
  have hvalue : g.writeSlot i w = g.setSlot i w := by
    have hscalar := (h.shows i).scalar
    unfold Frame.writeSlot
    split
    · next hslot =>
      rw [hslot] at hscalar
      exact hscalar.elim
    · rfl
  rw [hvalue]
  by_cases hi : i < cells.length
  · have hc : cells[i]? = some cells[i] := List.getElem?_eq_getElem hi
    have hwrite : f.writeSlot i v = { f with store := (f.store.setCell cells[i] w).1 } := by
      simp only [Frame.writeSlot, (h.bound i _ hc).1, h.params, if_pos hi, hv.unwrap]
    refine hwrite ▸ ⟨h.setCell hcells hv hc hw hwrite, ?_, hv.scalar⟩
    cases v with
    | cell d =>
      show (f.store.setCell cells[i] w).1.held d = w
      rw [h.held_setCell hv hc hw]
      split
      · rfl
      · exact hv.unwrap
    | _ => exact hv.unwrap
  · have hwrite : f.writeSlot i v = f.setSlot i v := by
      unfold Frame.writeSlot
      split
      · rw [if_neg (h.params ▸ hi)]
      · rfl
    exact hwrite ▸ ⟨h.setSlot hv (Nat.le_of_not_lt hi), hv⟩

/-! ### Assignments to names -/

section Names

variable {held held' : List Entity}

/-- The place that a name stands for. -/
def placeOf : Expr → Place
  | .param i _ | .declared i _ => .slot i
  | .unbound name => .unbound name
  | _ => default

theorem holding_nil [Referring α] (k : Evaluation α) : holding [] k = k := rfl

theorem keeping_nil (k : Evaluation α) : keeping [] k = k := by
  funext held f
  unfold keeping ExceptT.mk
  beta_reduce
  split
  · next heq => exact heq.symm
  · next heq => exact heq.symm

section Targets

variable {target : Expr} (htarget : target.IsName)

include htarget

theorem evalPlace_of_isName : evalPlace target = pure (placeOf target) := by
  cases target with
  | param | declared | unbound => rw [evalPlace]; rfl
  | _ => exact htarget.elim

theorem evalExpr_of_isName : evalExpr target = readPlace (placeOf target) := by
  cases target with
  | param | declared | unbound => rw [evalExpr]; rfl
  | _ => exact htarget.elim

theorem steady_of_isName : target.Steady held kept f := by
  cases target with
  | param | declared | unbound => trivial
  | _ => exact htarget.elim

theorem entities_placeOf : (placeOf target).entities = [] := by
  cases target with
  | param | declared | unbound => rfl
  | _ => exact htarget.elim

/-- An assignment to a name computes the value, writes it and gives it. -/
theorem evalExpr_assign (op : AssignOp) (operand : Expr) :
    evalExpr (.assign op target operand) = do
      let v ← evalExpr (op.value target operand)
      keeping v.entity?.toList (writePlace (placeOf target) v)
      return v := by
  rw [evalExpr, evalPlace_of_isName htarget, pure_bind, entities_placeOf htarget]
  simp only [keeping_nil, holding_nil]
  cases op with
  | assign => rfl
  | compound op => rw [AssignOp.value, evalExpr, evalExpr_of_isName htarget]

/-- An update of a name reads it as a number and writes the next one. -/
theorem evalExpr_update (op : UpdateOp) (result : UpdateResult) :
    evalExpr (.update op result target) = do
      let old ← askOf (← evalExpr target) Store.toNumber
      writePlace (placeOf target) (.number (updated op old))
      return .number (UpdateResult.choose result old (updated op old)) := by
  rw [evalExpr, evalPlace_of_isName htarget, pure_bind, entities_placeOf htarget]
  simp only [keeping_nil, holding_nil, evalExpr_of_isName htarget, bind_assoc]

/-- A steady write to a name. -/
theorem ends_writePlace (hcells : cells.Nodup) {v w : Value} (hframes : f.Mirrors cells g)
    (hv : f.store.Shows v w) (hw : f.AssignsSteadily kept target v) :
    Ends cells kept f (fun s (_ _ : Unit) => s.Shows v w)
      ((writePlace (placeOf target) v held).run.run f)
      ((writePlace (placeOf target) w held').run.run g) := by
  have hslot (i : Nat) (hi : f.WritesSteadily kept i v) :
      Ends cells kept f (fun s (_ _ : Unit) => s.Shows v w)
        ((writePlace (.slot i) v held).run.run f) ((writePlace (.slot i) w held').run.run g) := by
    obtain ⟨hwritten, hshows⟩ := hframes.writeSlot hcells hv hi
    have hstable : Stable fun s (_ _ : Unit) => s.Shows v w := fun f g _ _ => stable_shows f g v w
    exact Ends.letGo hstable (.ok hwritten hi.kept hshows) _ _ _ _
  cases target with
  | param i name => exact hslot i hw
  | declared i name => exact hslot i hw
  | unbound name => exact .failed hframes
  | _ => exact htarget.elim

end Targets

end Names

end Eval

end LiveMarkup
