import LiveMarkup.Builtin.Function
import LiveMarkup.Proofs.DecimalLiterals

/-!
# Texts as numbers

A text is the number that it writes, and not a number if it writes none.  White space around it does
not count.  It can be nothing, an infinity, a hexadecimal numeral or a signed decimal literal.

The hexadecimal numerals are left to a reader of words of the machine.  It turns away a number of
`2 ^ 64` or more, and takes a plus sign in front of the digits, where no other numeral of the
language has one.

## Main definitions

* `NumberText` — the texts that write numbers, for what may follow a hexadecimal mark.
* `HexDigits`, `HexWord` — what should follow it, and what does.
* `NumberDenoted.IsReadAs` — the double for what a text writes.

## Main results

* `Number.foldlM_appendDigit_eq_ok_iff_numeral` — words of the machine in any base.
* `ofText_cases` — the four ways a text is read.
* `text_is_the_number_it_writes` — the number of every text.
-/

namespace LiveMarkup

open Number Text

/-! ### Words in any base -/

namespace Number

/-- The digits read so far only ever make the number larger. -/
theorem le_of_foldlM_digitValue {radix : Nat} (hradix : 0 < radix) (cs : List Char) {k n : Nat}
    (h : cs.foldlM (fun n c => (digitValue? radix c).map (n * radix + ·)) k = some n) : k ≤ n := by
  induction cs generalizing k with
  | nil =>
    cases h
    exact le_rfl
  | cons c cs ih =>
    rw [List.foldlM_cons] at h
    obtain ⟨next, hnext, hrest⟩ := Option.bind_eq_some_iff.1 h
    obtain ⟨d, hd, rfl⟩ := Option.map_eq_some_iff.1 hnext
    have hle := ih hrest
    have hscale := Nat.le_mul_of_pos_right k hradix
    omega

/-- After a number that is a word, digits are read if the whole is a word. -/
theorem foldlM_appendDigit_eq_ok_iff_numeral {radix : Nat} (hradix : 0 < radix) (cs : List Char)
    {k : Nat} (hk : k ≤ maxWord) (n : Nat) :
    cs.foldlM (appendDigit radix) k = .ok n ↔
      cs.foldlM (fun n c => (digitValue? radix c).map (n * radix + ·)) k = some n ∧
        n ≤ maxWord := by
  induction cs generalizing k with
  | nil =>
    rw [List.foldlM_nil, List.foldlM_nil]
    constructor
    · rintro ⟨⟩
      exact ⟨rfl, hk⟩
    · rintro ⟨⟨⟩, -⟩
      rfl
  | cons c cs ih =>
    rw [List.foldlM_cons, List.foldlM_cons, appendDigit]
    cases hdigit : digitValue? radix c with
    | none =>
      constructor
      · rintro ⟨⟩
      · rintro ⟨⟨⟩, -⟩
    | some d =>
      show _ ↔ List.foldlM _ (k * radix + d) cs = some n ∧ _
      dsimp only
      split
      · next hlarge =>
        constructor
        · rintro ⟨⟩
        · rintro ⟨hvalue, hword⟩
          have hle := le_of_foldlM_digitValue hradix cs hvalue
          omega
      · exact ih (by omega)

theorem readDigits_eq_ok_iff_numeral {radix : Nat} (hradix : 0 < radix) {cs : List Char}
    (hne : cs ≠ []) (n : Nat) :
    readDigits radix cs = .ok n ↔ numeral? radix cs = some n ∧ n ≤ maxWord := by
  cases cs with
  | nil => exact absurd rfl hne
  | cons c cs => exact foldlM_appendDigit_eq_ok_iff_numeral hradix (c :: cs) (Nat.zero_le _) n

end Number

/-! ### What texts write -/

/-- What a text that writes a number stands for. -/
inductive NumberDenoted
  | infinite (negative : Bool)
  | finite (negative : Bool) (magnitude : ℚ)

/-- The double is the one for what is denoted: the infinity, or the nearest to the number. -/
def NumberDenoted.IsReadAs : NumberDenoted → Exact → Prop
  | .infinite negative, x => x = .infinite negative
  | .finite negative q, x => x.IsNearest negative q

/-- The texts that write numbers, where `hex` says what may follow a hexadecimal mark. -/
inductive NumberText (hex : List Char → Nat → Prop) : List Char → NumberDenoted → Prop
  /-- No text is zero. -/
  | nothing : NumberText hex [] (.finite false 0)
  | infinity {sign : List Char} {negative : Bool} (hsign : SignText sign negative) :
    NumberText hex (sign ++ infinityWord) (.infinite negative)
  | hexadecimal {c : Char} {ds : List Char} {n : Nat} (hmark : c = 'x' ∨ c = 'X') (hds : hex ds n) :
    NumberText hex ('0' :: c :: ds) (.finite false n)
  | decimal {sign ds : List Char} {negative : Bool} {q : ℚ} (hsign : SignText sign negative)
    (hds : DecimalText ds q) : NumberText hex (sign ++ ds) (.finite negative q)

/-- One or more hexadecimal digits and nothing else. -/
def HexDigits (cs : List Char) (n : Nat) : Prop := numeral? 16 cs = some n

/-- Hexadecimal digits of a number below `2 ^ 64`, after a plus sign or without one. -/
def HexWord (cs : List Char) (n : Nat) : Prop :=
  ∃ ds, (cs = ds ∨ cs = '+' :: ds) ∧ HexDigits ds n ∧ n ≤ maxWord

theorem readWord_eq_ok_iff_hexWord (cs : List Char) (n : Nat) :
    readWord 16 cs = .ok n ↔ HexWord cs n := by
  have hplus (ds : List Char) : ¬HexDigits ('+' :: ds) n := nofun
  have hnothing : ¬HexDigits [] n := nofun
  unfold readWord
  -- nothing, a sign alone, a plus sign and more, and digits without a sign
  split
  · refine ⟨nofun, ?_⟩
    rintro ⟨ds, rfl | h, hds, -⟩
    · exact absurd hds hnothing
    · cases h
  · refine ⟨nofun, ?_⟩
    rintro ⟨ds, rfl | h, hds, -⟩
    · exact absurd hds (hplus [])
    · cases h
      exact absurd hds hnothing
  · next ds hlone =>
    rw [readDigits_eq_ok_iff_numeral (by decide) fun h => hlone (by rw [h])]
    constructor
    · exact fun h => ⟨ds, .inr rfl, h⟩
    · rintro ⟨ds', rfl | h, hds, hword⟩
      · exact absurd hds (hplus ds)
      · cases h
        exact ⟨hds, hword⟩
  · next hnil hlone hsigned =>
    rw [readDigits_eq_ok_iff_numeral (by decide) fun h => hnil h]
    constructor
    · exact fun h => ⟨cs, .inl rfl, h⟩
    · rintro ⟨ds, rfl | h, hds, hword⟩
      · exact ⟨hds, hword⟩
      · exact absurd h (hsigned ds)

/-! ### How texts are read -/

theorem decimalLiteral?_hexMark {c : Char} (hmark : c = 'x' ∨ c = 'X') (cs : List Char) :
    decimalLiteral? ('0' :: c :: cs) = none := by
  rcases hmark with rfl | rfl <;> rfl

theorem decimalLiteral?_infinityWord {sign : List Char} {negative : Bool}
    (hsign : SignText sign negative) : decimalLiteral? (sign ++ infinityWord) = none := by
  cases hsign <;> rfl

section Reading

variable {text : String} {cs : List Char}

theorem ofText_nothing (h : trim text.toList = []) : ofText text = 0.0 := by
  rw [ofText, h]

theorem ofText_hexMark {c : Char} (hmark : c = 'x' ∨ c = 'X')
    (h : trim text.toList = '0' :: c :: cs) :
    ofText text = match readWord 16 cs with
      | .ok n => ofNat n
      | .error _ => nan := by
  rw [ofText, h]
  rcases hmark with rfl | rfl <;> rfl

theorem exact_ofText_infinityWord {sign : List Char} {negative : Bool}
    (hsign : SignText sign negative) (h : trim text.toList = sign ++ infinityWord) :
    Exact.ofFloat (ofText text) = .infinite negative := by
  rw [ofText, h]
  cases hsign <;> rfl

/-- What is something, has no hexadecimal mark and is no infinity is read as a decimal literal. -/
theorem ofText_cases (text : String) :
    trim text.toList = [] ∨
    (∃ c cs, (c = 'x' ∨ c = 'X') ∧ trim text.toList = '0' :: c :: cs) ∨
    (∃ sign negative, SignText sign negative ∧ trim text.toList = sign ++ infinityWord) ∨
    ofText text = (decimalLiteral? (trim text.toList)).getD nan := by
  unfold ofText
  split
  · next hnothing => exact .inl hnothing
  · next hmark => exact .inr (.inl ⟨_, _, .inl rfl, hmark⟩)
  · next hmark => exact .inr (.inl ⟨_, _, .inr rfl, hmark⟩)
  · refine .inr (.inr ?_)
    split
    · next hword =>
      left
      rcases hword with hword | hword
      · exact ⟨_, _, .none, hword⟩
      · exact ⟨_, _, .plus, hword⟩
    · split
      · next hword => exact .inl ⟨_, _, .minus, hword⟩
      · exact .inr rfl

theorem ofText_literal {x : Float} (h : decimalLiteral? (trim text.toList) = some x) :
    ofText text = x := by
  rcases ofText_cases text with hcs | ⟨c, cs, hmark, hcs⟩ | ⟨sign, negative, hsign, hcs⟩ | hread
  · rw [hcs] at h
    cases h
  · rw [hcs, decimalLiteral?_hexMark hmark] at h
    cases h
  · rw [hcs, decimalLiteral?_infinityWord hsign] at h
    cases h
  · rw [hread, h]
    rfl

theorem NumberText.isReadAs {n : NumberDenoted} (h : NumberText HexWord (trim text.toList) n) :
    n.IsReadAs (Exact.ofFloat (ofText text)) := by
  generalize hcs : trim text.toList = cs at h
  cases h with
  | nothing =>
    rw [ofText_nothing hcs]
    exact isNearest_zero le_rfl (by norm_num)
  | infinity hsign => exact exact_ofText_infinityWord hsign hcs
  | @hexadecimal c ds n hmark hds =>
    have hnearest := isNearest_nearest false ⟨n, 0⟩
    rw [zpow_zero, mul_one] at hnearest
    rw [ofText_hexMark hmark hcs, (readWord_eq_ok_iff_hexWord ds n).2 hds]
    exact hnearest
  | decimal hsign hds =>
    obtain ⟨x, hx, hnearest⟩ := hds.literal hsign
    rw [ofText_literal (hcs ▸ hx)]
    exact hnearest

theorem ofText_other (h : ∀ n, ¬NumberText HexWord (trim text.toList) n) : ofText text = nan := by
  rcases ofText_cases text with hcs | ⟨c, cs, hmark, hcs⟩ | ⟨sign, negative, hsign, hcs⟩ | hread
  · rw [hcs] at h
    exact absurd .nothing (h _)
  · rw [ofText_hexMark hmark hcs]
    rw [hcs] at h
    cases hword : readWord 16 cs with
    | error => rfl
    | ok n =>
      have hds := (readWord_eq_ok_iff_hexWord cs n).1 hword
      exact absurd (.hexadecimal hmark hds) (h _)
  · rw [hcs] at h
    exact absurd (.infinity hsign) (h _)
  · cases hliteral : decimalLiteral? (trim text.toList) with
    | none =>
      rw [hread, hliteral]
      rfl
    | some x =>
      obtain ⟨sign, negative, ds, q, hsign, hds, hcs⟩ := exists_literalText hliteral
      rw [hcs] at h
      exact absurd (.decimal hsign hds) (h _)

end Reading

/-- The number of a text.  A text that writes a number, with a word of the machine after a
hexadecimal mark, is that number, or the double nearest to it; every other text is not a number. -/
theorem text_is_the_number_it_writes (s : Store) (text : String) :
    (∀ n, NumberText HexWord (trim text.toList) n →
      n.IsReadAs (Exact.ofFloat (s.toNumber (.string text)))) ∧
    ((∀ n, ¬NumberText HexWord (trim text.toList) n) →
      Exact.ofFloat (s.toNumber (.string text)) = .nan) := by
  have hcoerce : s.toNumber (.string text) = ofText text := rfl
  rw [hcoerce]
  refine ⟨fun n => NumberText.isReadAs, fun hnone => ?_⟩
  rw [ofText_other hnone]
  rfl

/-- A minus sign, a fraction alone and an exponent, with white space around them. -/
theorem minus_five_is_read :
    NumberText HexWord (trim " -.5e1\n".toList) (.finite true 5) ∧
      (Exact.ofFloat (Store.initial.toNumber (.string " -.5e1\n"))).IsNearest true 5 := by
  have hexponent : ExponentText ['e', '1'] 1 :=
    .some (.inl rfl) .none ⟨List.cons_ne_nil _ _, List.forall_mem_singleton.2 rfl, rfl⟩
  have hfraction : DecimalText ['.', '5', 'e', '1'] 5 := by
    have hpoint := @DecimalText.point [] ['5'] _ _ (.inr (List.cons_ne_nil _ _)) nofun
      (List.forall_mem_singleton.2 rfl) hexponent
    norm_num [Nat.ofDigitChars] at hpoint
    exact hpoint
  have htext : NumberText HexWord (trim " -.5e1\n".toList) (.finite true 5) :=
    .decimal .minus hfraction
  exact ⟨htext, (text_is_the_number_it_writes .initial " -.5e1\n").1 _ htext⟩

/-- A plus sign between a hexadecimal mark and the digits is in no numeral, and the text is read. -/
theorem plus_after_mark_is_read :
    (∀ n, ¬NumberText HexDigits (trim "0x+5".toList) n) ∧
      value? (Store.initial.toNumber (.string "0x+5")) = some 5 := by
  have hnone (n : NumberDenoted) : ¬NumberText HexDigits ['0', 'x', '+', '5'] n := by
    intro h
    generalize hcs : ['0', 'x', '+', '5'] = cs at h
    cases h with
    | nothing => cases hcs
    | infinity hsign => cases hsign <;> exact absurd hcs (by decide)
    | hexadecimal _ hds =>
      cases hcs
      cases hds
    | decimal hsign hds =>
      obtain ⟨x, hx, -⟩ := hds.literal hsign
      rw [← hcs, decimalLiteral?_hexMark (.inl rfl)] at hx
      cases hx
  exact ⟨hnone, by decide +kernel⟩

end LiveMarkup
