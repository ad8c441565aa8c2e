import LiveMarkup.Proofs.CellHistory
import LiveMarkup.Proofs.Evaluation

/-!
# Cells hold no cells

Operators, writes and results look through a cell once, and find no cell behind it: no text puts a
cell into a cell.  Every value that a text writes to a cell is one that has been looked through, and
what a cell remembers is what it held before.  So in a store where no cell holds a cell none ever
does, and looking through a value once gives a value that is not a cell.

## Main definitions

* `Store.Flat` — no cell holds a cell or has held one before the last write.

## Main results

* `Store.Flat.apply` — the changes that come with writes leave a store flat.
* `no_cell_in_a_cell` — so do texts, and the results that are read are no cells.
-/

namespace LiveMarkup

open Eval Syntax

/-- A value that is not a cell. -/
def Value.IsPlain (v : Value) : Prop := ∀ c, v ≠ .cell c

/-- A cell holds no cell, and held none before the last write. -/
structure CellState.Flat (state : CellState) : Prop where
  held : state.held.IsPlain
  previous : ∀ v, state.previous = some v → v.IsPlain

namespace Store

variable {s t : Store}

/-- No cell holds a cell, or held one before the last write. -/
def Flat (s : Store) : Prop := ∀ c, (s.cellState c).Flat

/-- Looking through a value once finds no cell. -/
theorem Flat.unwrap (h : s.Flat) (v : Value) : (s.unwrap v).IsPlain := by
  cases v with
  | cell c => exact (h c).held
  | _ => rintro _ ⟨⟩

theorem flat_default : ({} : CellState).Flat where
  held := by rintro _ ⟨⟩
  previous := by rintro _ ⟨⟩

theorem flat_initial : Store.initial.Flat := by
  intro c
  rw [cellState_of_not_has (Nat.not_lt_zero _)]
  exact flat_default

theorem Flat.newCell (h : s.Flat) {v : Value} (hv : v.IsPlain) (scheduler : Scheduler) :
    (s.newCell v scheduler).1.Flat := by
  intro c
  rw [cellState_newCell]
  split
  · exact ⟨hv, flat_default.previous⟩
  · exact h c

/-- What no held value shows leaves a store flat. -/
theorem Flat.quiet (h : s.Flat) (hquiet : Quiet s t) : t.Flat := by
  intro c
  refine ⟨?_, ?_⟩
  · rw [hquiet.held]
    exact (h c).held
  · rw [hquiet.previous]
    exact (h c).previous

theorem Flat.trigger (h : s.Flat) (c : CellRef) : (s.trigger c).Flat := by
  intro d
  rw [cellState_trigger]
  split
  · exact ⟨(h d).held, (h d).previous⟩
  · exact h d

/-- A value that is no cell may be written; what the cell held before is none either. -/
theorem Flat.commit (h : s.Flat) (c : CellRef) {v : Value} (hv : v.IsPlain) :
    (s.commit c v).Flat := by
  intro d
  rw [Store.commit, cellState_modifyCell]
  split
  · refine ⟨hv, fun w hw => ?_⟩
    cases hw
    exact (h d).held
  · exact h d

/-- The changes that come with writes leave a store flat. -/
theorem Flat.apply (h : s.Flat) {ws : List Write} {x : Change} (hx : making ws s x) :
    (s.apply x).Flat := by
  cases x
  case trigger c => exact h.trigger c
  case write c v =>
    -- whatever is written has been looked through once
    obtain ⟨w, -, -, rfl⟩ := hx
    exact (h.commit c (h.unwrap w.value)).trigger c
  case newCell | newQueue => exact hx.elim
  all_goals exact h.quiet (s.quiet_apply trivial)

theorem Flat.leads (h : s.Flat) {ws : List Write} (hleads : Leads (making ws) s t) : t.Flat :=
  hleads.keeps (fun _ _ hx hflat => hflat.apply hx) h

end Store

namespace Interpreter

variable {i : Interpreter} {s : Store} {source : String} {context : Context} {mode : Mode}

theorem flat_runIn (h : s.Flat) (manner : Manner) :
    (i.runIn s source context mode manner).2.1.Flat :=
  h.leads (i.makes_runIn s source context mode manner)

/-- A result that is read is no cell. -/
theorem runRead_plain (h : s.Flat) {v : Value}
    (hresult : (i.runRead s source context mode).2.2 = .ok v) : v.IsPlain := by
  have hflat : (i.run s source context mode).2.1.Flat := flat_runIn h .raw
  change ((i.run s source context mode).2.2.map (i.run s source context mode).2.1.unwrap) = .ok v
    at hresult
  cases hrun : (i.run s source context mode).2.2 with
  | error e =>
    rw [hrun] at hresult
    cases hresult
  | ok w =>
    rw [hrun] at hresult
    cases hresult
    exact hflat.unwrap w

end Interpreter

open Interpreter in
/-- No text puts a cell into a cell.  Where no cell holds a cell, or held one before the last write,
none does after any text has been run, over any context, in any mode and manner, and whether or not
the run fails; and unless the result is given as it is, it is no cell. -/
theorem no_cell_in_a_cell (i : Interpreter) {s : Store} (h : s.Flat) (source : String)
    (context : Context) (mode : Mode) (manner : Manner) :
    (i.runIn s source context mode manner).2.1.Flat ∧
      (manner ≠ .raw → ∀ c, (i.runIn s source context mode manner).2.2 ≠ .ok (.cell c)) := by
  refine ⟨flat_runIn h manner, fun hmanner c hresult => ?_⟩
  cases manner with
  | raw => exact hmanner rfl
  | read => exact runRead_plain h hresult c rfl
  | absorbing =>
    -- a failure that is absorbed gives `null`, which is no cell
    change absorbed (i.runRead s source context mode).2.2 = .ok (.cell c) at hresult
    cases hread : (i.runRead s source context mode).2.2 with
    | error e =>
      rw [hread] at hresult
      cases e <;> cases hresult
    | ok v =>
      rw [hread] at hresult
      cases hresult
      exact runRead_plain h hread c rfl

/-- One cell is assigned to another. -/
theorem assigned_cell_is_looked_through :
    let s := ((Store.initial.newCell (.bool true) .spawner).1.newCell .null .spawner).1
    let run := Interpreter.runIn {} s "y = x"
      (Bindings.ofList [("x", .cell ⟨0⟩), ("y", .cell ⟨1⟩)]) .statement .read
    s.Flat ∧ run.2.1.Flat ∧ ∀ c, run.2.2 ≠ .ok (.cell c) := by
  have htrue : (Value.bool true).IsPlain := by rintro _ ⟨⟩
  have hnull : Value.null.IsPlain := by rintro _ ⟨⟩
  have hflat := (Store.flat_initial.newCell htrue .spawner).newCell hnull .spawner
  have hrun := no_cell_in_a_cell {} hflat "y = x"
    (Bindings.ofList [("x", .cell ⟨0⟩), ("y", .cell ⟨1⟩)]) .statement .read
  exact ⟨hflat, hrun.1, hrun.2 (by decide)⟩

end LiveMarkup
