import LiveMarkup.Store.Property
import Mathlib

/-!
# Numerals as keys

An element of an array, or a character of a text, is read and written under a key that writes its
index.  A number has one numeral: its decimal digits, which begin with a zero only for zero itself.
Keys that begin with a zero and go on are turned away, so that no number is written twice.  But the
reader of numbers also takes a plus sign, and after the sign nobody looks for zeros.

## Main definitions

* `Number.Writes` — decimal digits that write a number.
* `FoundUnder` — the keys under which the element at an index is found.

## Main results

* `Number.eq_digitsOf_of_writes` — digits without a zero in front are a numeral.
* `indexOfKey?_eq_some_iff` — the keys that are taken for an index.
* `element_keys_are_numerals_or_signed` — what is read and written under every key.
-/

namespace LiveMarkup

open Number Text

namespace Number

/-! ### Reading digits -/

/-- Decimal digits, at least one, that write a number. -/
structure Writes (ds : List Char) (n : Nat) : Prop where
  ne_nil : ds ≠ []
  digits : ∀ c ∈ ds, isDigit c = true
  value : Nat.ofDigitChars 10 ds 0 = n

theorem digit_lt_ten {c : Char} (h : isDigit c = true) :
    '0'.toNat ≤ c.toNat ∧ c.toNat - '0'.toNat < 10 := by
  obtain ⟨hlow, hhigh⟩ := Bool.and_eq_true_iff.1 h
  have hlow : '0'.toNat ≤ c.toNat := of_decide_eq_true hlow
  have hhigh : c.toNat ≤ '9'.toNat := of_decide_eq_true hhigh
  have hzero : '0'.toNat = 48 := rfl
  have hnine : '9'.toNat = 57 := rfl
  omega

/-- A digit is the one that its value is written with. -/
theorem digitChar_of_isDigit {c : Char} (h : isDigit c = true) :
    (c.toNat - '0'.toNat).digitChar = c := by
  obtain ⟨hlow, hlt⟩ := digit_lt_ten h
  have hzero : '0'.toNat = 48 := rfl
  rw [← Char.toNat_inj, Nat.toNat_digitChar_of_lt_ten hlt]
  omega

theorem digitValue?_ten (c : Char) :
    digitValue? 10 c = if isDigit c then some (c.toNat - '0'.toNat) else none := by
  unfold digitValue?
  by_cases hdigit : isDigit c = true
  · rw [if_pos hdigit, if_pos hdigit]
    exact Option.filter_some_pos (decide_eq_true (digit_lt_ten hdigit).2)
  · -- letters stand for ten and up
    rw [if_neg hdigit, if_neg hdigit]
    split
    · simp
    · split <;> simp

/-- The digits read so far only ever make the number larger. -/
theorem le_ofDigitChars (cs : List Char) (k : Nat) : k ≤ Nat.ofDigitChars 10 cs k := by
  rw [Nat.ofDigitChars_eq_ofDigitChars_zero]
  have hpos : 0 < 10 ^ cs.length := Nat.pow_pos (by decide)
  calc
    k ≤ 10 ^ cs.length * k := Nat.le_mul_of_pos_left k hpos
    _ ≤ 10 ^ cs.length * k + Nat.ofDigitChars 10 cs 0 := Nat.le_add_right _ _

/-- After a number that is a word, digits are read if the whole is a word. -/
theorem foldlM_appendDigit_eq_ok_iff (cs : List Char) {k : Nat} (hk : k ≤ maxWord) (n : Nat) :
    cs.foldlM (appendDigit 10) k = .ok n ↔
      (∀ c ∈ cs, isDigit c = true) ∧ Nat.ofDigitChars 10 cs k = n ∧ n ≤ maxWord := by
  induction cs generalizing k with
  | nil =>
    simp only [List.foldlM_nil, List.not_mem_nil, false_implies, implies_true, true_and,
      Nat.ofDigitChars_nil]
    constructor
    · intro h
      cases h
      exact ⟨rfl, hk⟩
    · rintro ⟨rfl, -⟩
      rfl
  | cons c cs ih =>
    rw [List.foldlM_cons, appendDigit, digitValue?_ten, Nat.ofDigitChars_cons]
    by_cases hdigit : isDigit c = true
    · rw [if_pos hdigit]
      simp only [List.mem_cons, forall_eq_or_imp, hdigit, true_and, Nat.mul_comm k 10]
      by_cases hlarge : maxWord < 10 * k + (c.toNat - '0'.toNat)
      · -- what follows makes no smaller number of it
        rw [if_pos hlarge]
        refine ⟨nofun, fun ⟨_, hvalue, hword⟩ => ?_⟩
        have hle := le_ofDigitChars cs (10 * k + (c.toNat - '0'.toNat))
        omega
      · rw [if_neg hlarge]
        exact ih (by omega)
    · rw [if_neg hdigit]
      exact ⟨nofun, fun h => absurd (h.1 c List.mem_cons_self) hdigit⟩

theorem readDigits_eq_ok_iff {cs : List Char} (hne : cs ≠ []) (n : Nat) :
    readDigits 10 cs = .ok n ↔ n ≤ maxWord ∧ Writes cs n := by
  rw [readDigits, foldlM_appendDigit_eq_ok_iff cs (Nat.zero_le _)]
  exact ⟨fun ⟨hdigits, hvalue, hword⟩ => ⟨hword, hne, hdigits, hvalue⟩,
    fun ⟨hword, hwrites⟩ => ⟨hwrites.digits, hwrites.value, hword⟩⟩

/-- A number is read from digits, and from digits after a plus sign. -/
theorem readWord_eq_ok_iff (cs : List Char) (n : Nat) :
    readWord 10 cs = .ok n ↔
      n ≤ maxWord ∧ (Writes cs n ∨ ∃ ds, cs = '+' :: ds ∧ Writes ds n) := by
  have hplus (ds : List Char) : ¬Writes ('+' :: ds) n := fun h =>
    absurd (h.digits '+' List.mem_cons_self) (by decide)
  unfold readWord
  split
  · exact ⟨nofun, by rintro ⟨-, h | ⟨ds, h, -⟩⟩; exacts [absurd rfl h.ne_nil, nomatch h]⟩
  · refine ⟨nofun, ?_⟩
    rintro ⟨-, h | ⟨ds, h, hwrites⟩⟩
    · exact absurd h (hplus [])
    · cases h
      exact absurd rfl hwrites.ne_nil
  · next ds hne =>
    have hds : ds ≠ [] := fun h => hne (by rw [h])
    rw [readDigits_eq_ok_iff hds]
    simp [hplus]
  · next hnil hlone hsigned =>
    have hcs : cs ≠ [] := fun h => hnil h
    rw [readDigits_eq_ok_iff hcs]
    have hnone : ¬∃ ds, cs = '+' :: ds ∧ Writes ds n := fun ⟨ds, h, _⟩ => hsigned ds h
    simp [hnone]

/-! ### Writing digits -/

/-- The numeral of a number writes it. -/
theorem writes_digitsOf (n : Nat) : Writes (digitsOf n) n where
  ne_nil := Nat.toDigits_ne_nil
  digits _ hc := Nat.isDigit_of_mem_toDigits (by decide) (by decide) hc
  value := Nat.ofDigitChars_ten_toDigits

/-- Digits after the numeral of a number make the numeral of what they make of the number. -/
theorem digitsOf_append {ds : List Char} (hdigits : ∀ c ∈ ds, isDigit c = true) {k : Nat}
    (hk : 0 < k) : digitsOf k ++ ds = digitsOf (Nat.ofDigitChars 10 ds k) := by
  induction ds generalizing k with
  | nil => simp
  | cons c ds ih =>
    have hc := hdigits c List.mem_cons_self
    have hone := Nat.toDigits_append_toDigits (b := 10) (by decide) hk (digit_lt_ten hc).2
    rw [Nat.toDigits_of_lt_base (digit_lt_ten hc).2, digitChar_of_isDigit hc] at hone
    have hrest := ih (fun d hd => hdigits d (List.mem_cons_of_mem c hd))
      (k := 10 * k + (c.toNat - '0'.toNat)) (by omega)
    calc
      digitsOf k ++ c :: ds = (digitsOf k ++ [c]) ++ ds := by simp
      _ = digitsOf (10 * k + (c.toNat - '0'.toNat)) ++ ds := congrArg (· ++ ds) hone
      _ = digitsOf (Nat.ofDigitChars 10 (c :: ds) k) := by rw [hrest, Nat.ofDigitChars_cons]

/-- Digits that do not begin with a zero, or are one zero, are the numeral of what they write. -/
theorem eq_digitsOf_of_writes {ds : List Char} {n : Nat} (h : Writes ds n)
    (hlead : ∀ d rest, ds ≠ '0' :: d :: rest) : ds = digitsOf n := by
  obtain ⟨hne, hdigits, hvalue⟩ := h
  cases ds with
  | nil => exact absurd rfl hne
  | cons c ds =>
    have hc := hdigits c List.mem_cons_self
    have hone : digitsOf (c.toNat - '0'.toNat) = [c] := by
      rw [digitsOf, Nat.toDigits_of_lt_base (digit_lt_ten hc).2, digitChar_of_isDigit hc]
    rw [Nat.ofDigitChars_cons, Nat.mul_zero, Nat.zero_add] at hvalue
    by_cases hzero : c = '0'
    · subst hzero
      cases ds with
      | nil =>
        rw [← hvalue]
        rfl
      | cons d ds => exact absurd rfl (hlead d ds)
    · have hpos : 0 < c.toNat - '0'.toNat := by
        have hle := (digit_lt_ten hc).1
        have hneq : c.toNat ≠ '0'.toNat := fun h => hzero (Char.toNat_inj.1 h)
        omega
      have happend := digitsOf_append (fun d hd => hdigits d (List.mem_cons_of_mem c hd)) hpos
      rw [hone, hvalue] at happend
      exact happend

/-- The numeral of a positive number does not begin with a zero. -/
theorem head?_digitsOf (n : Nat) (hpos : 0 < n) : (digitsOf n).head? ≠ some '0' := by
  induction n using Nat.strongRecOn with
  | ind n ih =>
    rw [digitsOf, Nat.toDigits_eq_if (by decide)]
    split
    · next hlt =>
      intro hzero
      have hchar : n.digitChar = '0' := Option.some.inj hzero
      have hvalue := congrArg Char.toNat hchar
      rw [Nat.toNat_digitChar_of_lt_ten hlt] at hvalue
      have hcode : '0'.toNat = 48 := rfl
      omega
    · -- it begins like the numeral of a tenth of the number
      have htenth := ih (n / 10) (by omega) (by omega)
      obtain ⟨c, cs, hc⟩ := List.exists_cons_of_ne_nil (Nat.toDigits_ne_nil (n := n / 10) (b := 10))
      rw [digitsOf, hc] at htenth
      rwa [hc]

/-- No numeral goes on after a zero. -/
theorem digitsOf_ne_zero_cons (n : Nat) (d : Char) (rest : List Char) :
    digitsOf n ≠ '0' :: d :: rest := by
  intro h
  rcases Nat.eq_zero_or_pos n with rfl | hpos
  · cases h
  · exact head?_digitsOf n hpos (by rw [h]; rfl)

end Number

/-! ### Keys -/

/-- The keys under which the element at an index is found: the numeral of the index, and a plus sign
with digits that write it.  An index is a word. -/
inductive FoundUnder (i : Nat) (key : String) : Prop
  | numeral (hword : i < 2 ^ 64) (hkey : key = toString i)
  | signed (hword : i < 2 ^ 64) {ds : List Char} (hkey : key.toList = '+' :: ds)
    (hds : Writes ds i)

theorem toList_toString (n : Nat) : (toString n).toList = digitsOf n := by
  rw [Nat.toString_eq_ofList_toDigits, String.toList_ofList, digitsOf]

/-- The keys that are taken for an index. -/
theorem indexOfKey?_eq_some_iff (key : String) (i : Nat) :
    indexOfKey? key = some i ↔ FoundUnder i key := by
  have hread (cs : List Char) :
      (readWord 10 cs).toOption = some i ↔ readWord 10 cs = .ok i := by
    cases readWord 10 cs <;> simp [Except.toOption]
  have hmax : i ≤ maxWord ↔ i < 2 ^ 64 := Nat.le_sub_one_iff_lt (by decide)
  unfold indexOfKey?
  split
  · next d rest hkey =>
    refine ⟨nofun, ?_⟩
    rintro (⟨-, rfl⟩ | ⟨-, hsigned, -⟩)
    · rw [toList_toString] at hkey
      exact absurd hkey (digitsOf_ne_zero_cons i d rest)
    · rw [hkey] at hsigned
      cases hsigned
  · next hlead =>
    rw [hread, readWord_eq_ok_iff, hmax]
    constructor
    · rintro ⟨hword, hwrites | ⟨ds, hkey, hwrites⟩⟩
      · refine .numeral hword (String.toList_inj.1 ?_)
        rw [toList_toString]
        exact eq_digitsOf_of_writes hwrites hlead
      · exact .signed hword hkey hwrites
    · rintro (⟨hword, rfl⟩ | ⟨hword, hkey, hwrites⟩)
      · rw [toList_toString]
        exact ⟨hword, .inl (writes_digitsOf i)⟩
      · exact ⟨hword, .inr ⟨_, hkey, hwrites⟩⟩

namespace FoundUnder

variable {i : Nat} {key : String}

theorem index (h : FoundUnder i key) : indexOfKey? key = some i :=
  (indexOfKey?_eq_some_iff key i).2 h

theorem ne_length (h : FoundUnder i key) : key ≠ "length" := by
  rintro rfl
  cases h.index

/-- Of an array, the element at the index is read under the key. -/
theorem ownProperty_array (h : FoundUnder i key) (s : Store) (r : ArrayRef) :
    s.ownProperty (.array r) key = (s.items r)[i]?.getD .undefined := by
  simp only [Store.ownProperty, if_neg h.ne_length, h.index, Option.bind_some]

/-- Without a plus sign the key is the numeral of the index. -/
theorem eq_toString (h : FoundUnder i key) (hplain : key.toList.head? ≠ some '+') :
    key = toString i := by
  cases h with
  | numeral _ hkey => exact hkey
  | signed _ hkey _ =>
    rw [hkey] at hplain
    exact absurd rfl hplain

end FoundUnder

theorem indexOfKey?_eq_none {key : String} (h : ∀ i, ¬FoundUnder i key) :
    indexOfKey? key = none :=
  Option.eq_none_iff_forall_not_mem.2 fun i hi => h i ((indexOfKey?_eq_some_iff key i).1 hi)

/-- What is read and written under every key but `length`.  Under the numeral of an index, and under
a plus sign with digits that write the index, it is the element at that index, of an array or of a
text.  Under every other key nothing is read, and no array takes a write.

So two keys for one element are not both without a plus sign. -/
theorem element_keys_are_numerals_or_signed (s : Store) {key : String} (hkey : key ≠ "length") :
    (∀ i, FoundUnder i key →
      (∀ r v, s.setProperty (.array r) key v = s.setItem r i v) ∧
        (∀ r, s.property (.array r) key = (s.items r)[i]?.getD .undefined) ∧
          ∀ t : String, s.property (.string t) key =
            (t.toList[i]?.map fun c => Value.ofChars [c]).getD .undefined) ∧
      ((∀ i, ¬FoundUnder i key) →
        (∀ r v, s.setProperty (.array r) key v = .error (.notWritable key "array")) ∧
          (∀ r, s.property (.array r) key = .undefined) ∧
            ∀ t, s.property (.string t) key = .undefined) ∧
        ∀ other i, FoundUnder i key → FoundUnder i other → key ≠ other →
          key.toList.head? = some '+' ∨ other.toList.head? = some '+' := by
  refine ⟨fun i hi => ⟨fun r v => ?_, fun r => ?_, fun t => ?_⟩,
    fun hnone => ⟨fun r v => ?_, fun r => ?_, fun t => ?_⟩, fun other i hi hother hne => ?_⟩
  · simp only [Store.setProperty, if_neg hkey, hi.index]
  · exact hi.ownProperty_array s r
  · show s.ownProperty (.string t) key = _
    simp only [Store.ownProperty, if_neg hkey, hi.index, Option.bind_some]
    cases t.toList[i]? <;> rfl
  · simp only [Store.setProperty, if_neg hkey, indexOfKey?_eq_none hnone]
  · show s.ownProperty (.array r) key = _
    simp only [Store.ownProperty, if_neg hkey, indexOfKey?_eq_none hnone]
    rfl
  · show s.ownProperty (.string t) key = _
    simp only [Store.ownProperty, if_neg hkey, indexOfKey?_eq_none hnone]
    rfl
  · by_contra hplain
    rw [not_or] at hplain
    exact hne ((hi.eq_toString hplain.1).trans (hother.eq_toString hplain.2).symm)

/-- A pair in an array. -/
def pairStore : Store where
  arrays := #[[.null, .bool true]]

/-- The second element is found under `1`; under `01` nothing is found. -/
theorem second_element_is_found :
    ("1" ≠ "length" ∧ FoundUnder 1 "1" ∧ pairStore.property (.array ⟨0⟩) "1" = .bool true) ∧
      "01" ≠ "length" ∧ (∀ i, ¬FoundUnder i "01") ∧
        pairStore.property (.array ⟨0⟩) "01" = .undefined := by
  have hone : FoundUnder 1 "1" := .numeral (by decide) (by decide)
  have hzero : ∀ i, ¬FoundUnder i "01" := fun i hi => nomatch hi.index
  have hread := ((element_keys_are_numerals_or_signed pairStore (by decide)).1 1 hone).2.1 ⟨0⟩
  have hnone := (element_keys_are_numerals_or_signed pairStore (by decide)).2.1 hzero
  exact ⟨⟨by decide, hone, hread⟩, by decide, hzero, hnone.2.1 ⟨0⟩⟩

/-- Under `+1`, which is no numeral, the second element is read and written as well. -/
theorem signed_key_is_taken :
    (∀ i : Nat, "+1" ≠ toString i) ∧ pairStore.property (.array ⟨0⟩) "+1" = .bool true ∧
      pairStore.property (.array ⟨0⟩) "1" = .bool true ∧
        ∃ t, pairStore.setProperty (.array ⟨0⟩) "+1" .null = .ok t ∧
          t.items ⟨0⟩ = [.null, .null] := by
  refine ⟨fun i h => ?_, rfl, rfl, _, rfl, rfl⟩
  have hdigits := (writes_digitsOf i).digits '+'
  rw [← toList_toString, ← h] at hdigits
  exact absurd (hdigits List.mem_cons_self) (by decide)

end LiveMarkup
