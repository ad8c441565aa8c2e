import LiveMarkup.Proofs.Confinement
import LiveMarkup.Proofs.Methods

/-!
# Members, methods and functions inside a region

Reading, writing and calling members of values inside a region gives values inside it and changes
nothing outside it.  Functions of a host are no exception: they are given values inside and change
nothing.

## Main definitions

* `Store.Stays` — an operation that stays inside a region.

## Main results

* `confined_arrayMethod`, `stays_stringMethod`, `stays_callFunction` — methods and functions.
* `within_getMember`, `confined_setMember`, `stays_callMember` — members.
-/

namespace LiveMarkup

open Eval

variable {R : Entity → Prop} {s t : Store}

/-- An operation changes a store inside the region and gives only results with a property. -/
structure Store.Stays {α : Type} (R : Entity → Prop) (s : Store) (o : Outcome α) (F : α → Prop) :
    Prop where
  confined : s.Confined R o.1
  result (x : α) : o.2 = .ok x → F x

theorem Store.Stays.post {α : Type} {o : Outcome α} {F G : α → Prop} (h : s.Stays R o F)
    (hG : ∀ x, F x → G x) : s.Stays R o G :=
  ⟨h.confined, fun x hx => hG x (h.result x hx)⟩

theorem stays_of_plain {result : Except EvalError Value}
    (h : ∀ v, result = .ok v → v.entity? = none) : s.Stays R (s, result) (Value.Within R) :=
  ⟨.refl s, fun v hv => within_of_entity? (h v hv)⟩

theorem stays_of_within {v : Value} (hv : v.Within R) (h : s.Confined R t) :
    s.Stays R (t, .ok v) (Value.Within R) := by
  refine ⟨h, fun w hw => ?_⟩
  cases hw
  exact hv

theorem stays_error {α : Type} {F : α → Prop} (h : s.Confined R t) (e : EvalError) :
    s.Stays R (t, .error e) F :=
  ⟨h, fun _ hx => nomatch hx⟩

variable {args : List Value}

/-! ### Functions -/

theorem stays_callHost (s : Store) (f : HostFunction) (hargs : ∀ v ∈ args, v.Within R) :
    s.Stays R (s.callHost f args) (Value.Within R) := by
  cases f with
  | echo => exact stays_of_within (within_argument hargs 0) (.refl s)
  | argc => exact stays_of_within (within_of_entity? rfl) (.refl s)
  | sum => exact stays_of_within (within_of_entity? rfl) (.refl s)
  | fail => exact stays_error (.refl s) _
  | record => exact stays_of_within (within_of_entity? rfl) (Store.Confined.by (.notice _) trivial)

theorem stays_callFunction (s : Store) (f : Function) (hargs : ∀ v ∈ args, v.Within R) :
    s.Stays R (s.callFunction f args) (Value.Within R) := by
  cases f with
  | builtin f =>
    exact stays_of_within (within_of_entity? (plain_builtinFunction f s args)) (.refl s)
  | host f id => exact stays_callHost s f hargs

/-! ### Methods -/

/-- A new array takes a place inside. -/
theorem confined_newArrayValue (hs : s.Encloses R) {vs : List Value}
    (hvs : ∀ v ∈ vs, v.Within R) :
    s.Confined R (s.newArrayValue vs).1 ∧ (s.newArrayValue vs).2.Within R := by
  refine ⟨Store.Confined.by (.newArray vs) hvs, fun e he => ?_⟩
  cases he
  exact hs.newArray (Nat.le_refl _)

theorem plain_repeatText {cs : List Char} {count : Float} {v : Value}
    (h : StringMethod.repeatText cs count = .ok v) : v.entity? = none := by
  unfold StringMethod.repeatText at h
  split at h
  · cases h
  · dsimp only at h
    split at h
    · cases h
      rfl
    · split at h
      · cases h
        rfl
      · cases h

theorem plain_map_ofChars {result : Except EvalError (List Char)} {f : List Char → List Char}
    {v : Value} (h : (result.map fun cs => Value.ofChars (f cs)) = .ok v) : v.entity? = none := by
  cases result with
  | ok cs =>
    cases h
    rfl
  | error e => cases h

/-- A method of a text gives a text, a number, a truth value or a new array of texts. -/
theorem stays_stringMethod (hs : s.Encloses R) (m : StringMethod) (text : String)
    (args : List Value) : s.Stays R (m.apply text args s) (Value.Within R) := by
  cases m with
  | split =>
    have hpieces : ∀ v ∈ StringMethod.pieces s text.toList args.head?, v.Within R :=
      fun v hv => within_of_entity? (plain_of_mem_pieces hv)
    obtain ⟨hconfined, hv⟩ := confined_newArrayValue hs hpieces
    exact stays_of_within hv hconfined
  | repeated => exact stays_of_plain fun v hv => plain_repeatText hv
  | padStart | padEnd => exact stays_of_plain fun v hv => plain_map_ofChars hv
  | «at» =>
    refine stays_of_within (within_of_entity? ?_) (.refl s)
    split <;> rfl
  | _ => exact stays_of_within (within_of_entity? rfl) (.refl s)

theorem within_added (hs : s.Encloses R) {v : Value} (hv : v.Within R) :
    ∀ w ∈ ArrayMethod.added s v, w.Within R := by
  have hheld := hs.unwrap hv
  unfold ArrayMethod.added
  split
  · next r hr =>
    rw [hr] at hheld
    exact hs.items (hheld _ rfl)
  · simpa using hheld

/-- A method of an array inside changes nothing but that array and gives something of it, a plain
value or a new array. -/
theorem confined_arrayMethod (hs : s.Encloses R) (m : ArrayMethod) {r : ArrayRef}
    (hr : R (.array r)) (hargs : ∀ v ∈ args, v.Within R) :
    s.Confined R (m.apply r args s).1 ∧ (m.apply r args s).2.Within R := by
  have hitems := hs.items hr
  have hedit (items : List Value) (h : ∀ v ∈ items, v.Within R) :
      s.Confined R (s.setItems r items) :=
    Store.Confined.by (.setItems r items) ⟨hr, h⟩
  cases m with
  | push =>
    exact ⟨hedit _ (List.forall_mem_append.2 ⟨hitems, hargs⟩), within_of_entity? rfl⟩
  | pop =>
    refine ⟨hedit _ fun v hv => hitems v (List.mem_of_mem_dropLast hv), ?_⟩
    exact within_getD fun v hv => hitems v (List.mem_of_getLast? hv)
  | shift =>
    refine ⟨hedit _ fun v hv => hitems v (List.mem_of_mem_tail hv), ?_⟩
    exact within_getD fun v hv => hitems v (List.mem_of_head? hv)
  | unshift =>
    exact ⟨hedit _ (List.forall_mem_append.2 ⟨hargs, hitems⟩), within_of_entity? rfl⟩
  | reverse =>
    refine ⟨hedit _ fun v hv => hitems v (List.mem_reverse.1 hv), fun e he => ?_⟩
    cases he
    exact hr
  | includes | indexOf | join => exact ⟨.refl s, within_of_entity? rfl⟩
  | slice =>
    refine confined_newArrayValue hs fun v hv => hitems v ?_
    exact List.mem_of_mem_take (List.mem_of_mem_drop hv)
  | concat =>
    refine confined_newArrayValue hs (List.forall_mem_append.2 ⟨hitems, fun v hv => ?_⟩)
    obtain ⟨w, hw, hv⟩ := List.mem_flatMap.1 hv
    exact within_added hs (hargs w hw) v hv
  | «at» =>
    refine ⟨.refl s, within_getD fun v hv => ?_⟩
    obtain ⟨i, -, hi⟩ := Option.bind_eq_some_iff.1 hv
    exact hitems v (List.mem_of_getElem? hi)
  | splice =>
    -- what is taken out comes back as an array of its own
    have hcut : ∀ start stop : Nat, s.Confined R
        (s.setItems r ((s.items r).take start ++ args.drop 2 ++ (s.items r).drop stop)) := by
      refine fun start stop => hedit _ ?_
      refine List.forall_mem_append.2 ⟨List.forall_mem_append.2 ⟨?_, ?_⟩, ?_⟩
      · exact fun v hv => hitems v (List.mem_of_mem_take hv)
      · exact fun v hv => hargs v (List.mem_of_mem_drop hv)
      · exact fun v hv => hitems v (List.mem_of_mem_drop hv)
    have hout : ∀ start count : Nat, ∀ v ∈ ((s.items r).drop start).take count, v.Within R :=
      fun start count v hv => hitems v (List.mem_of_mem_drop (List.mem_of_mem_take hv))
    have hnew := fun start stop count =>
      confined_newArrayValue ((hcut start stop).encloses hs) (hout start count)
    exact ⟨(hcut _ _).trans (hnew _ _ _).1, (hnew _ _ _).2⟩

theorem plain_numberMethod {x : Float} {name : String} {result : Except EvalError Value} {v : Value}
    (h : NumberMethod.call? s x name args = some result) (hv : result = .ok v) :
    v.entity? = none := by
  subst hv
  unfold NumberMethod.call? at h
  split at h
  · have hfixed := Option.some.inj h
    unfold NumberMethod.fixedText at hfixed
    dsimp only at hfixed
    split at hfixed
    all_goals split at hfixed
    all_goals first
      | (cases hfixed; rfl)
      | cases hfixed
  · split at h
    · split at h
      · cases h
      · have hradix := Option.some.inj h
        unfold NumberMethod.radixText at hradix
        dsimp only at hradix
        split at hradix
        · cases hradix
          rfl
        · cases hradix
    · cases h
  · cases h

/-- A builtin method of a value inside. -/
theorem stays_callBuiltin (hs : s.Encloses R) {receiver : Value} (hreceiver : receiver.Within R)
    {name : String} (hargs : ∀ v ∈ args, v.Within R) {outcome : Outcome Value}
    (h : s.callBuiltin receiver name args = some outcome) :
    s.Stays R outcome (Value.Within R) := by
  unfold Store.callBuiltin at h
  cases hown : s.ownMethod? receiver name args with
  | none =>
    rw [hown, Option.none_or, Option.map_eq_some_iff] at h
    obtain ⟨v, hv, rfl⟩ := h
    refine stays_of_within ?_ (.refl s)
    unfold Store.commonMethod? at hv
    split at hv
    · cases hv
      exact within_of_entity? rfl
    · cases hv
      exact hreceiver
    · cases hv
  | some result =>
    rw [hown, Option.some_or] at h
    cases h
    cases receiver <;> simp only [Store.ownMethod?, Option.map_eq_some_iff, reduceCtorEq] at hown
    case string text =>
      obtain ⟨m, -, rfl⟩ := hown
      exact stays_stringMethod hs m text args
    case array r =>
      obtain ⟨m, -, rfl⟩ := hown
      obtain ⟨hconfined, hv⟩ := confined_arrayMethod hs m (hreceiver _ rfl) hargs
      exact stays_of_within hv hconfined
    case number x =>
      obtain ⟨result, hresult, rfl⟩ := hown
      exact stays_of_plain fun v hv => plain_numberMethod hresult hv

/-! ### Members -/

theorem within_ownProperty (hs : s.Encloses R) {v : Value} (hv : v.Within R) (key : String) :
    (s.ownProperty v key).Within R := by
  unfold Store.ownProperty
  split
  · exact within_getD fun w hw => hs.find? (hv _ rfl) hw
  · split
    · exact within_of_entity? rfl
    · refine within_getD fun w hw => ?_
      obtain ⟨i, -, hi⟩ := Option.bind_eq_some_iff.1 hw
      exact hs.items (hv _ rfl) w (List.mem_of_getElem? hi)
  · split
    · exact within_of_entity? rfl
    · split <;> exact within_of_entity? rfl
  · exact within_of_entity? rfl

theorem within_plainMember (hs : s.Encloses R) {target v : Value} (htarget : target.Within R)
    {key : String} (h : plainMember s target key = .ok v) : v.Within R := by
  unfold plainMember at h
  split at h
  · cases h
  · split at h
    · cases h
      split <;> exact within_of_entity? rfl
    · cases h
      exact within_ownProperty hs htarget key

/-- A member of a value inside is inside. -/
theorem within_getMember (hs : s.Encloses R) {target v : Value} (htarget : target.Within R)
    {key : String} (h : getMember s target key = .ok v) : v.Within R := by
  unfold getMember at h
  split at h
  · next c =>
    have hc : R (.cell c) := htarget _ rfl
    split at h
    · cases h
      exact hs.held hc
    · cases h
      exact within_getD fun w hw => hs.previous hc hw
    · cases h
      exact within_of_entity? rfl
    · exact within_plainMember hs (hs.resolve htarget) h
  · exact within_plainMember hs htarget h

theorem confined_tryWrite {key : String} {on : Value} {write : Except PropertyError Store}
    (h : ∀ t, write = .ok t → s.Confined R t) : s.Confined R (tryWrite s key on write).1 := by
  unfold tryWrite
  split
  · next t => exact h t rfl
  · exact .refl s

/-- Writing a member of a value inside, with a value inside, changes nothing outside. -/
theorem confined_setMember (hs : s.Encloses R) {target v : Value} (htarget : target.Within R)
    (key : String) (hv : v.Within R) : s.Confined R (setMember s target key v).1 := by
  have hunwrapped := hs.unwrap hv
  unfold setMember
  split
  · exact .refl s
  · split
    · next c _ =>
      have hc : R (.cell c) := htarget _ rfl
      split
      · exact confined_setCell s hc hunwrapped
      · split
        · exact .refl s
        · exact confined_tryWrite fun t ht => confined_setCellProperty hs hc hv ht
    · next r _ =>
      split
      · next c hfind =>
        have hc : R (.cell c) := hs.find? (htarget _ rfl) hfind _ rfl
        exact confined_setCell s hc hunwrapped
      · exact confined_tryWrite fun t ht => confined_setProperty hs htarget hv ht
    · exact confined_tryWrite fun t ht => confined_setProperty hs htarget hv ht

theorem confined_afterMethod (s : Store) {receiver : Value} (hreceiver : receiver.Within R)
    (held : Value) (name : String) : s.Confined R (afterMethod s receiver held name) := by
  unfold afterMethod
  split
  · next c _ =>
    split
    · exact Store.Confined.by (.trigger c) (hreceiver _ rfl)
    · exact .refl s
  · exact .refl s

/-- What a call of a member gives, if anything, is inside. -/
def WithinOption (R : Entity → Prop) (o : Option Value) : Prop := ∀ v, o = some v → v.Within R

theorem stays_callBuiltinMember (hs : s.Encloses R) {receiver : Value}
    (hreceiver : receiver.Within R) (name : String) (hargs : ∀ v ∈ args, v.Within R)
    (optional : Bool) :
    s.Stays R (callBuiltinMember s receiver name args optional) (WithinOption R) := by
  unfold callBuiltinMember
  dsimp only
  split
  · next t v h =>
    have hstays := stays_callBuiltin hs (hs.unwrap hreceiver) hargs h
    refine ⟨hstays.confined.trans (confined_afterMethod t hreceiver _ name), ?_⟩
    rintro _ ⟨⟩ w ⟨⟩
    exact hstays.result v rfl
  · next t e h => exact stays_error (stays_callBuiltin hs (hs.unwrap hreceiver) hargs h).confined e
  · split
    · refine ⟨.refl s, ?_⟩
      rintro _ ⟨⟩ w ⟨⟩
    · exact stays_error (.refl s) _

theorem stays_callMember (hs : s.Encloses R) {receiver : Value} (hreceiver : receiver.Within R)
    (name : String) (hargs : ∀ v ∈ args, v.Within R) (optional : Bool) :
    s.Stays R (callMember s receiver name args optional) (WithinOption R) := by
  unfold callMember
  dsimp only
  split
  · exact stays_error (.refl s) _
  · split
    · exact stays_callBuiltinMember hs hreceiver name hargs optional
    · split
      · next f _ =>
        have hstays := stays_callFunction s f hargs
        unfold callMemberFunction
        revert hstays
        rcases s.callFunction f args with ⟨t, v | e⟩ <;> intro hstays
        · exact stays_error hstays.confined _
        · refine ⟨hstays.confined, ?_⟩
          rintro _ ⟨⟩ w ⟨⟩
          exact hstays.result _ rfl
      · split
        · refine ⟨.refl s, ?_⟩
          rintro _ ⟨⟩ w ⟨⟩
        · exact stays_error (.refl s) _

end LiveMarkup
