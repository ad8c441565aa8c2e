import LiveMarkup.Proofs.Coalescing
import LiveMarkup.Proofs.PassCalls

/-!
# No notification is lost

A request marks its cell, and only the start of a pass takes the mark.  So when a cell is not marked
a pass has started since the request, and when no pass of it is under way that pass has ended: all
who were subscribed when it started have had their turn.

## Main definitions

* `passInProgress` — whether a pass of a cell is under way at a moment.

## Main results

* `no_notification_is_lost` — whoever has been subscribed since before a request has been called
  after it.
-/

namespace LiveMarkup

open Store

/-- Whether an activity is a pass of a cell. -/
def Activity.isPassOf (c : CellRef) : Activity → Bool
  | .pass d _ => d == c
  | _ => false

/-- Whether a pass of a cell is under way at a moment. -/
def passInProgress (steps : List Step) (n : Nat) (c : CellRef) : Bool :=
  (moment steps n).stack.any (Activity.isPassOf c)

variable {steps : List Step} {c : CellRef} {k : CallbackRef} {i p n : Nat}

/-- A mark that is there and later is not has been taken by the start of a pass. -/
theorem exists_start (hin : i ≤ n) (hmark : (stateAt steps i c).scheduled = true)
    (hidle : (stateAt steps n c).scheduled = false) :
    ∃ p, i ≤ p ∧ p < n ∧ passStarts steps c p = true := by
  have hsome : startsBetween steps c i n ≠ 0 := by
    intro hnone
    have hkept : (stateAt steps n c).scheduled = true :=
      (follows_of_no_start hin hnone).scheduled hmark
    rw [hidle] at hkept
    cases hkept
  obtain ⟨p, hp, hstart⟩ := List.countP_pos_iff.1 (Nat.pos_of_ne_zero hsome)
  rw [List.mem_range'_1] at hp
  exact ⟨p, hp.1, by omega, hstart⟩

/-- Of two moments after the start of a pass, at the later of which no more is under way than before
the start, there is a first such moment. -/
theorem exists_end (hpn : p < n) (hended : height steps n ≤ height steps p) :
    ∃ e, p < e ∧ e ≤ n ∧ height steps e ≤ height steps p ∧
      ∀ j, p < j → j < e → height steps p < height steps j := by
  induction n using Nat.strongRecOn with
  | ind n ih =>
    by_cases hearlier : ∃ j, p < j ∧ j < n ∧ height steps j ≤ height steps p
    · obtain ⟨j, hpj, hjn, hj⟩ := hearlier
      obtain ⟨e, hpe, hej, he, hway⟩ := ih j hjn hpj hj
      exact ⟨e, hpe, Nat.le_trans hej (Nat.le_of_lt hjn), he, hway⟩
    · exact ⟨n, hpn, Nat.le_refl n, hended, fun j hpj hjn =>
        Nat.lt_of_not_le fun hj => hearlier ⟨j, hpj, hjn, hj⟩⟩

/-- A pass that has started and is not in progress has ended. -/
theorem exists_end_of_not_inProgress (hstart : passStarts steps c p = true) (hpn : p < n)
    (hidle : passInProgress steps n c = false) :
    ∃ e, p < e ∧ e ≤ n ∧ height steps e ≤ height steps p ∧
      ∀ j, p < j → j < e → height steps p < height steps j := by
  by_cases hless : ∃ j, p < j ∧ j ≤ n ∧ height steps j ≤ height steps p
  · obtain ⟨j, hpj, hjn, hj⟩ := hless
    obtain ⟨e, hpe, hej, he, hway⟩ := exists_end hpj hj
    exact ⟨e, hpe, Nat.le_trans hej hjn, he, hway⟩
  · -- else it would still be under way
    have hway : ∀ j, p < j → j ≤ n → height steps p < height steps j := fun j hpj hjn =>
      Nat.lt_of_not_le fun hj => hless ⟨j, hpj, hjn, hj⟩
    obtain ⟨waiting, below, hbelow, -, ⟨above, hstack⟩ | ⟨-, hstack⟩⟩ :=
      pass_progress hstart hpn fun j hpj hjn => hway j hpj (Nat.le_of_lt hjn)
    · rw [passInProgress, hstack, List.any_append, List.any_cons] at hidle
      simp [Activity.isPassOf] at hidle
    · have hmore := hway n hpn (Nat.le_refl n)
      rw [height, height, hstack, hbelow] at hmore
      exact absurd hmore (Nat.lt_irrefl _)

/-- A subscriber that was there when a pass started has had its turn when the pass has ended. -/
theorem exists_turn {e : Nat} (hstart : passStarts steps c p = true) (hpe : p < e)
    (hended : height steps e ≤ height steps p)
    (hway : ∀ j, p < j → j < e → height steps p < height steps j)
    (hk : k ∈ (stateAt steps p c).subscribers) :
    ∃ q, p < q ∧ q < e ∧ (moment steps q).turn? c (height steps p) = some k := by
  obtain ⟨waiting, below, hbelow, hprogress, hstack⟩ := pass_progress hstart hpe hway
  have hnobody : waiting = [] := by
    rcases hstack with ⟨above, hstack⟩ | ⟨hnobody, -⟩
    · rw [height, hstack, List.length_append, List.length_cons, hbelow] at hended
      omega
    · exact hnobody
  rw [← hprogress.turned, hnobody, List.append_nil, List.mem_map] at hk
  obtain ⟨⟨q, j⟩, hturn, rfl⟩ := hk
  obtain ⟨r, hr, hqj⟩ := List.mem_filterMap.1 hturn
  rw [Option.map_eq_some_iff] at hqj
  obtain ⟨l, hl, hpair⟩ := hqj
  cases hpair
  rw [momentsBetween, List.mem_range'_1] at hr
  exact ⟨q, by omega, by omega, hl⟩

/-- A callback whose turn comes is called if it is subscribed then. -/
theorem callsIn_of_turn {q height : Nat} (hturn : (moment steps q).turn? c height = some k)
    (hsubscribed : (moment steps q).store.isSubscribed c k = true) :
    callsIn steps q = [(moment steps q).session.callbackName k] := by
  unfold Machine.turn? at hturn
  split at hturn
  · next d j waiting rest hstack =>
    split at hturn
    · next hpass =>
      cases hturn
      obtain ⟨rfl, -⟩ := hpass
      obtain ⟨-, hlog⟩ := (moves_of_stack hstack).of_turn hstack
      rw [callsIn_of_log hlog, if_pos hsubscribed]
      rfl
    · cases hturn
  · cases hturn

/-- No notification is lost.  Take a request for a pass of a cell, and a later moment at which the
cell is not marked as scheduled and no pass of it is under way.  Whoever has been subscribed all the
time has been called since: a pass started after the request, and while it was under way the turn of
the callback came and it was called.  If the request is the last one, no write has been committed
since, so the callback was called after the last committed write. -/
theorem no_notification_is_lost (steps : List Step) (c : CellRef) (k : CallbackRef) (i n : Nat)
    (hin : i < n)
    (hrequest : (stateAt steps i c).requests < (stateAt steps (i + 1) c).requests)
    (hsubscribed : ∀ j, i ≤ j → j ≤ n → (moment steps j).store.isSubscribed c k = true)
    (hunmarked : (stateAt steps n c).scheduled = false)
    (hidle : passInProgress steps n c = false) :
    (∃ p q, i < p ∧ p < q ∧ q < n ∧ passStarts steps c p = true ∧
      (∀ j, p < j → j ≤ q → height steps p < height steps j) ∧
      (moment steps q).turn? c (height steps p) = some k ∧
      callsIn steps q = [(moment steps q).session.callbackName k]) ∧
    ((stateAt steps n c).requests = (stateAt steps (i + 1) c).requests →
      ∀ j, i < j → j ≤ n → (stateAt steps j c).held = (stateAt steps n c).held ∧
        (stateAt steps j c).previous = (stateAt steps n c).previous) := by
  refine ⟨?_, ?_⟩
  · -- the request left the mark, which a later start took
    have hmark : (stateAt steps (i + 1) c).scheduled = true := by
      rcases follows_or_started steps i c with ⟨hfollows, -⟩ | hstarted
      · exact hfollows.requested hrequest
      · -- a move that starts a pass requests none
        have hsame : stateAt steps (i + 1) c = { stateAt steps i c with scheduled := false } :=
          hstarted.state
        rw [hsame] at hrequest
        exact absurd hrequest (Nat.lt_irrefl _)
    obtain ⟨p, hip, hpn, hstart⟩ := exists_start hin hmark hunmarked
    obtain ⟨e, hpe, hen, hended, hway⟩ := exists_end_of_not_inProgress hstart hpn hidle
    have hk : k ∈ (stateAt steps p c).subscribers :=
      List.contains_iff_mem.1 (hsubscribed p (by omega) (by omega))
    obtain ⟨q, hpq, hqe, hturn⟩ := exists_turn hstart hpe hended hway hk
    exact ⟨p, q, by omega, hpq, by omega, hstart, fun j hpj hjq => hway j hpj (by omega), hturn,
      callsIn_of_turn hturn (hsubscribed q (by omega) (by omega))⟩
  · intro hlast j hij hjn
    have hhas : (moment steps j).store.Has c := by
      by_cases hhas : (moment steps j).store.Has c
      · exact hhas
      · have hk := hsubscribed j (by omega) hjn
        rw [Store.isSubscribed, cellState_of_not_has hhas] at hk
        cases hk
    -- requests do not become fewer, so there was none after the last one
    have hbefore := (persists steps (Nat.succ_le_of_lt hij) c).requests
    have hafter := (persists steps hjn c).requests
    have hsame : (stateAt steps n c).requests = (stateAt steps j c).requests :=
      Nat.le_antisymm (hlast ▸ hbefore) hafter
    obtain ⟨hheld, hprevious⟩ := (persists steps hjn c).unwritten hsame hhas
    exact ⟨hheld.symm, hprevious.symm⟩

/-- The first of two subscribers is called after the request. -/
theorem farewell_is_noticed :
    ∃ p q, 5 < p ∧ p < q ∧ q < 14 ∧ passStarts farewell ⟨0⟩ p = true ∧
      callsIn farewell q = [(moment farewell q).session.callbackName ⟨0⟩] := by
  have hsubscribed : ∀ j, j ≤ 14 → 5 ≤ j →
      (moment farewell j).store.isSubscribed ⟨0⟩ ⟨0⟩ = true := by decide
  obtain ⟨⟨p, q, hip, hpq, hqn, hstart, -, -, hcalls⟩, -⟩ :=
    no_notification_is_lost farewell ⟨0⟩ ⟨0⟩ 5 14 (by decide) (by decide)
      (fun j hij hjn => hsubscribed j hjn hij) (by decide) (by decide)
  exact ⟨p, q, hip, hpq, hqn, hstart, hcalls⟩

end LiveMarkup
