import LiveMarkup.Number.Literal
import LiveMarkup.Text.Length
import Mathlib.Data.List.TakeWhile

/-!
# The number a text starts with, by positions

The number that a text starts with can be found by counting up a position in its bytes, and cutting
the text there.  A cut can go wrong: the position can lie past the end, or inside a character.  It
never does, since nothing but characters of one byte is ever passed, and what is cut off is read as
the same number.

## Main definitions

* `utf8`, `byteAt?` — the bytes of a text.
* `cutBytes?`, `textBetween?` — cuts at positions in the bytes, which can fail.
* `scannedNumber?`, `leadingNumber?` — the number a text starts with, by positions.
* `chosenPiece?` — the piece of the text that is converted to that number.

## Main results

* `cutBytes?_append` — a cut between characters.
* `pastDigits_utf8`, `exists_exponentPart` — where a position comes to stand.
* `chosenPiece?_cases` — no cut fails, and the piece is converted to the number that is read.
* `scannedNumber?_eq` — the number is the same.
-/

namespace LiveMarkup

namespace Text

/-! ### Bytes -/

/-- The bytes of a text. -/
def utf8 (cs : List Char) : List UInt8 := cs.flatMap String.utf8EncodeChar

/-- The byte at a position, as a character. -/
def byteAt? (bytes : List UInt8) (i : Nat) : Option Char :=
  bytes[i]?.map fun b => Char.ofNat b.toNat

theorem length_utf8 (cs : List Char) : (utf8 cs).length = byteLength cs := by
  induction cs with
  | nil => rfl
  | cons c cs ih =>
    rw [byteLength_cons, ← ih, ← String.length_utf8EncodeChar, utf8, List.flatMap_cons,
      List.length_append, utf8]

theorem utf8_append (xs ys : List Char) : utf8 (xs ++ ys) = utf8 xs ++ utf8 ys :=
  List.flatMap_append

/-- The first byte of a character is that character, or stands for none of one byte. -/
theorem byteAt?_cons (c : Char) (cs : List Char) :
    ∃ d, byteAt? (utf8 (c :: cs)) 0 = some d ∧ (d = c ∨ 192 ≤ d.toNat ∧ 128 ≤ c.toNat) := by
  obtain ⟨b, rest, hbytes, hb⟩ : ∃ b rest, String.utf8EncodeChar c = b :: rest ∧
      (b.toNat = c.toNat ∨ 192 ≤ b.toNat ∧ 128 ≤ c.toNat) := by
    have hval : c.toNat = c.val.toNat := rfl
    unfold String.utf8EncodeChar
    dsimp only
    split
    · exact ⟨_, _, rfl, .inl (by rw [UInt8.toNat_ofNat']; omega)⟩
    · split
      · exact ⟨_, _, rfl, .inr (by rw [UInt8.toNat_ofNat']; omega)⟩
      · split <;> exact ⟨_, _, rfl, .inr (by rw [UInt8.toNat_ofNat']; omega)⟩
  have hread : byteAt? (utf8 (c :: cs)) 0 = some (Char.ofNat b.toNat) := by
    simp [byteAt?, utf8, hbytes]
  have hvalid : b.toNat.isValidChar := Or.inl (Nat.lt_trans b.toNat_lt (by decide))
  refine ⟨Char.ofNat b.toNat, hread, ?_⟩
  rcases hb with hb | hb
  · exact .inl (by rw [hb, Char.ofNat_toNat])
  · refine .inr ⟨?_, hb.2⟩
    rw [Char.ofNat, dif_pos hvalid]
    exact hb.1

/-- A test that only characters of one byte pass. -/
def IsAscii (p : Char → Bool) : Prop := ∀ c, p c = true → c.toNat < 128

/-- A test of the byte at a position between characters is one of the character that follows. -/
theorem any_byteAt? {p : Char → Bool} (hp : IsAscii p) (xs ys : List Char) :
    (byteAt? (utf8 (xs ++ ys)) (byteLength xs)).any p = ys.head?.any p := by
  have hskip : byteAt? (utf8 (xs ++ ys)) (byteLength xs) = byteAt? (utf8 ys) 0 := by
    rw [byteAt?, byteAt?, utf8_append, ← length_utf8,
      List.getElem?_append_right (Nat.le_refl _), Nat.sub_self]
  rw [hskip]
  cases ys with
  | nil => rfl
  | cons c cs =>
    obtain ⟨d, hd, rfl | hmore⟩ := byteAt?_cons c cs
    · rw [hd]
      rfl
    · -- neither the byte nor the character passes
      have hfails (e : Char) (he : 128 ≤ e.toNat) : p e = false :=
        Bool.eq_false_iff.2 fun hpass => Nat.not_lt_of_le he (hp e hpass)
      rw [hd, List.head?_cons, Option.any_some, Option.any_some, hfails d (by omega),
        hfails c hmore.2]

/-! ### Cuts -/

/-- Cuts a text at a position in its bytes; fails past the end and inside a character. -/
def cutBytes? : Nat → List Char → Option (List Char × List Char)
  | 0, cs => some ([], cs)
  | _ + 1, [] => none
  | n + 1, c :: cs =>
    if c.utf8Size ≤ n + 1 then
      (cutBytes? (n + 1 - c.utf8Size) cs).map fun (front, rest) => (c :: front, rest)
    else none

/-- The text from one position in its bytes to another; fails if they cross, and where a cut fails.
-/
def textBetween? (cs : List Char) (start stop : Nat) : Option (List Char) :=
  if start ≤ stop then do
    let (_, rest) ← cutBytes? start cs
    let (piece, _) ← cutBytes? (stop - start) rest
    return piece
  else none

/-- A cut between characters. -/
theorem cutBytes?_append (xs ys : List Char) :
    cutBytes? (byteLength xs) (xs ++ ys) = some (xs, ys) := by
  induction xs with
  | nil => cases ys <;> rfl
  | cons x xs ih =>
    have hpos : 0 < x.utf8Size := x.utf8Size_pos
    obtain ⟨n, hn⟩ : ∃ n, x.utf8Size + byteLength xs = n + 1 := ⟨_, (Nat.succ_pred (by omega)).symm⟩
    rw [byteLength_cons, hn, List.cons_append, cutBytes?, if_pos (by omega),
      show n + 1 - x.utf8Size = byteLength xs by omega, ih]
    rfl

theorem textBetween?_append (xs ys zs : List Char) :
    textBetween? (xs ++ (ys ++ zs)) (byteLength xs) (byteLength xs + byteLength ys) = some ys := by
  simp [textBetween?, cutBytes?_append]

end Text

namespace Number

open Text

/-! ### The scan -/

/-- A sign before a number. -/
def isSign (c : Char) : Bool := c == '+' || c == '-'

/-- The mark of an exponent. -/
def isExponentMark (c : Char) : Bool := c == 'e' || c == 'E'

theorem isAscii_isDigit : IsAscii isDigit := by
  intro c hc
  have hle : c ≤ '9' := of_decide_eq_true (Bool.and_eq_true_iff.1 hc).2
  have hnat : c.toNat ≤ '9'.toNat := hle
  exact Nat.lt_of_le_of_lt hnat (by decide)

theorem isAscii_isSign : IsAscii isSign := by
  intro c hc
  rcases Bool.or_eq_true_iff.1 hc with hc | hc <;> rw [beq_iff_eq.1 hc] <;> decide

theorem isAscii_isExponentMark : IsAscii isExponentMark := by
  intro c hc
  rcases Bool.or_eq_true_iff.1 hc with hc | hc <;> rw [beq_iff_eq.1 hc] <;> decide

theorem isAscii_point : IsAscii (· == '.') := by
  intro c hc
  rw [beq_iff_eq.1 hc]
  decide

/-- The position after the digits from a position on. -/
def pastDigits (bytes : List UInt8) (i : Nat) : Nat :=
  if (byteAt? bytes i).any isDigit then pastDigits bytes (i + 1) else i
termination_by bytes.length - i
decreasing_by
  rename_i hdigit
  have hlt : i < bytes.length := by
    by_contra hle
    rw [byteAt?, List.getElem?_eq_none (Nat.le_of_not_lt hle)] at hdigit
    cases hdigit
  omega

/-- The position after an exponent part, if there is a complete one. -/
def exponentEnd (bytes : List UInt8) (i : Nat) : Nat :=
  if (byteAt? bytes i).any isExponentMark then
    let start := if (byteAt? bytes (i + 1)).any isSign then i + 2 else i + 1
    let stop := pastDigits bytes start
    if start < stop then stop else i
  else i

/-- The position after digits, and a point with the digits after it. -/
def mantissaEnd (bytes : List UInt8) (i : Nat) : Nat :=
  let stop := pastDigits bytes i
  if (byteAt? bytes stop).any (· == '.') then pastDigits bytes (stop + 1) else stop

/-- The longest number a text starts with, by positions in its bytes.  There is no number if nothing
has been passed, or nothing but a point. -/
def scannedNumber? (cs : List Char) : Option Float :=
  let bytes := utf8 cs
  let start := if (byteAt? bytes 0).any isSign then 1 else 0
  let stop := mantissaEnd bytes start
  if stop = start then some nan
  else do
    let digits ← textBetween? cs start stop
    if digits = ['.'] then return nan
    let text ← textBetween? cs 0 (exponentEnd bytes stop)
    return (decimalLiteral? text).getD nan

/-- The piece of a text that the scan has read as a number, if there is a number; fails where a cut
fails. -/
def chosenPiece? (cs : List Char) : Option (Option (List Char)) :=
  let bytes := utf8 cs
  let start := if (byteAt? bytes 0).any isSign then 1 else 0
  let stop := mantissaEnd bytes start
  if stop = start then some none
  else do
    let digits ← textBetween? cs start stop
    if digits = ['.'] then return none
    let text ← textBetween? cs 0 (exponentEnd bytes stop)
    return some text

/-- The number that is scanned is the one of the piece. -/
theorem scannedNumber?_eq_map (cs : List Char) : scannedNumber? cs =
    (chosenPiece? cs).map fun piece => (piece.bind decimalLiteral?).getD nan := by
  unfold scannedNumber? chosenPiece?
  dsimp only
  generalize (if (byteAt? (utf8 cs) 0).any isSign then 1 else 0) = start
  split
  · rfl
  · cases textBetween? cs start (mantissaEnd (utf8 cs) start) with
    | none => rfl
    | some digits =>
      show (if digits = ['.'] then _ else _) = Option.map _ (if digits = ['.'] then _ else _)
      split
      · rfl
      · cases textBetween? cs 0 (exponentEnd (utf8 cs) (mantissaEnd (utf8 cs) start)) <;> rfl

/-! ### Where the position comes to stand -/

theorem utf8Size_eq_one {c : Char} (h : c.toNat < 128) : c.utf8Size = 1 := by
  rw [Char.utf8Size_eq_one_iff, UInt32.le_iff_toNat_le]
  exact Nat.le_of_lt_succ h

/-- Past digits, the position stands after them. -/
theorem pastDigits_utf8 (xs ys : List Char) :
    pastDigits (utf8 (xs ++ ys)) (byteLength xs) =
      byteLength xs + byteLength (ys.takeWhile isDigit) := by
  induction ys generalizing xs with
  | nil =>
    rw [pastDigits, any_byteAt? isAscii_isDigit]
    rfl
  | cons y ys ih =>
    rw [pastDigits, any_byteAt? isAscii_isDigit, List.head?_cons, Option.any_some]
    cases hy : isDigit y with
    | false => simp [hy]
    | true =>
      have hnext : byteLength xs + 1 = byteLength (xs ++ [y]) := by
        simp [utf8Size_eq_one (isAscii_isDigit y hy)]
      have hmore := ih (xs ++ [y])
      rw [List.append_assoc, List.singleton_append] at hmore
      rw [if_pos rfl, hnext, hmore, List.takeWhile_cons, if_pos hy, byteLength_append,
        byteLength_cons, byteLength_cons, byteLength_nil]
      omega

theorem splitSign_of_not_isSign {cs : List Char} (h : cs.head?.any isSign = false) :
    splitSign cs = (false, cs) := by
  unfold splitSign
  split
  · cases h
  · cases h
  · rfl

/-- The sign that a text starts with, if any, is read before whatever is no sign. -/
theorem exists_sign (cs : List Char) :
    ∃ sign negative rest, cs = sign ++ rest ∧ splitSign cs = (negative, rest) ∧
      byteLength sign = (if cs.head?.any isSign then 1 else 0) ∧
      ∀ front, front.head?.any isSign = false → splitSign (sign ++ front) = (negative, front) := by
  cases hsign : cs.head?.any isSign with
  | false =>
    exact ⟨[], false, cs, rfl, splitSign_of_not_isSign hsign, rfl,
      fun _ => splitSign_of_not_isSign⟩
  | true =>
    cases cs with
    | nil => cases hsign
    | cons c rest =>
      rcases Bool.or_eq_true_iff.1 hsign with hc | hc <;> obtain rfl := beq_iff_eq.1 hc
      · exact ⟨['+'], false, rest, rfl, rfl, rfl, fun _ _ => rfl⟩
      · exact ⟨['-'], true, rest, rfl, rfl, rfl, fun _ _ => rfl⟩

theorem not_isSign_of_isDigit {c : Char} (h : isDigit c = true) : isSign c = false := by
  refine Bool.eq_false_iff.2 fun hsign => ?_
  rcases Bool.or_eq_true_iff.1 hsign with hc | hc <;> rw [beq_iff_eq.1 hc] at h <;> cases h

/-- Digits, and then something else. -/
theorem takeWhile_isDigit_append {ds cs : List Char} (hds : ∀ c ∈ ds, isDigit c = true)
    (hcs : cs.head?.any isDigit = false) :
    (ds ++ cs).takeWhile isDigit = ds ∧ (ds ++ cs).dropWhile isDigit = cs := by
  have hrest : cs.takeWhile isDigit = [] ∧ cs.dropWhile isDigit = cs := by
    cases cs with
    | nil => exact ⟨rfl, rfl⟩
    | cons c cs =>
      have hc : ¬isDigit c = true := Bool.eq_false_iff.1 hcs
      exact ⟨List.takeWhile_cons_of_neg hc, List.dropWhile_cons_of_neg hc⟩
  rw [List.takeWhile_append_of_pos hds, List.dropWhile_append_of_pos hds, hrest.1, hrest.2,
    List.append_nil]
  exact ⟨rfl, rfl⟩

theorem byteLength_eq_zero {cs : List Char} : byteLength cs = 0 ↔ cs = [] := by
  cases cs with
  | nil => exact iff_of_true rfl rfl
  | cons c cs =>
    have hpos := c.utf8Size_pos
    simp only [byteLength_cons, reduceCtorEq, iff_false]
    omega

/-- The position stands after a mark, a sign and digits, or before all of them if there are no
digits. -/
theorem exponentEnd_of_mark {c : Char} (hc : isExponentMark c = true) {sign digits : List Char}
    (hlength : byteLength sign = if (sign ++ digits).head?.any isSign then 1 else 0)
    (xs : List Char) :
    exponentEnd (utf8 (xs ++ c :: (sign ++ digits))) (byteLength xs) =
      if digits.takeWhile isDigit = [] then byteLength xs
      else byteLength xs + byteLength (c :: (sign ++ digits.takeWhile isDigit)) := by
  have hsize : c.utf8Size = 1 := utf8Size_eq_one (isAscii_isExponentMark c hc)
  have hsigned := any_byteAt? isAscii_isSign (xs ++ [c]) (sign ++ digits)
  have hdigits := pastDigits_utf8 (xs ++ [c] ++ sign) digits
  simp only [List.append_assoc, List.cons_append, List.nil_append, byteLength_append,
    byteLength_cons, byteLength_nil, hsize, Nat.add_zero] at hsigned hdigits
  have hstart : (if (sign ++ digits).head?.any isSign then byteLength xs + 2
      else byteLength xs + 1) = byteLength xs + (1 + byteLength sign) := by
    rw [hlength]
    split <;> rfl
  unfold exponentEnd
  rw [any_byteAt? isAscii_isExponentMark, List.head?_cons, Option.any_some, hc, if_pos rfl]
  dsimp only
  rw [hsigned, hstart, hdigits, byteLength_cons, byteLength_append, hsize]
  by_cases hnone : digits.takeWhile isDigit = []
  · rw [if_pos hnone, hnone, byteLength_nil, if_neg (by omega)]
  · have hpos : byteLength (digits.takeWhile isDigit) ≠ 0 := mt byteLength_eq_zero.1 hnone
    rw [if_neg hnone, if_pos (by omega)]
    omega

/-- A text starts with an exponent part, or with nothing that is read as one.  The part is read on
its own as it is read there, and passed. -/
structure ExponentPart (cs used : List Char) (exponent : Int) (rest : List Char) : Prop where
  append : cs = used ++ rest
  read : splitExponent cs = (exponent, rest)
  alone : splitExponent used = (exponent, [])
  mark : ∀ c ∈ used.head?, isExponentMark c = true
  passed (xs : List Char) :
    exponentEnd (utf8 (xs ++ cs)) (byteLength xs) = byteLength xs + byteLength used

theorem ExponentPart.nothing {cs : List Char} (hread : splitExponent cs = (0, cs))
    (hend : ∀ xs, exponentEnd (utf8 (xs ++ cs)) (byteLength xs) = byteLength xs) :
    ExponentPart cs [] 0 cs :=
  ⟨rfl, hread, rfl, nofun, hend⟩

/-- A mark begins an exponent part if digits follow it, with a sign between them or without. -/
theorem exists_exponentPart_of_mark {c : Char} (hc : isExponentMark c = true) (tail : List Char) :
    ∃ used exponent rest, ExponentPart (c :: tail) used exponent rest := by
  have hmark : c = 'e' ∨ c = 'E' := by simpa [isExponentMark] using hc
  obtain ⟨sign, negative, digits, rfl, hsign, hlength, hread⟩ := exists_sign tail
  have hend := exponentEnd_of_mark hc hlength
  by_cases hnone : digits.takeWhile isDigit = []
  · refine ⟨_, _, _, .nothing ?_ fun xs => (hend xs).trans (if_pos hnone)⟩
    simp only [splitExponent, if_pos hmark, hsign, hnone]
  · obtain ⟨d, ds, hds⟩ := List.exists_cons_of_ne_nil hnone
    have hall : ∀ e ∈ d :: ds, isDigit e = true := fun e he => List.mem_takeWhile_imp (hds ▸ he)
    have hfront : splitSign (sign ++ (d :: ds)) = (negative, d :: ds) :=
      hread _ (not_isSign_of_isDigit (hall d List.mem_cons_self))
    obtain ⟨htake, hdrop⟩ := @takeWhile_isDigit_append _ [] hall rfl
    rw [List.append_nil] at htake hdrop
    refine ⟨c :: (sign ++ digits.takeWhile isDigit),
      if negative then -(valueOfDigits (d :: ds) : Int) else valueOfDigits (d :: ds),
      digits.dropWhile isDigit, ?_, ?_, ?_, ?_, fun xs => (hend xs).trans (if_neg hnone)⟩
    · rw [List.cons_append, List.append_assoc, List.takeWhile_append_dropWhile]
    · simp only [splitExponent, if_pos hmark, hsign, hds]
    · simp only [splitExponent, if_pos hmark, hds, hfront, htake, hdrop]
    · rintro e ⟨⟩
      exact hc

theorem exists_exponentPart (cs : List Char) :
    ∃ used exponent rest, ExponentPart cs used exponent rest := by
  cases cs with
  | nil =>
    refine ⟨_, _, _, .nothing rfl fun xs => ?_⟩
    rw [exponentEnd, any_byteAt? isAscii_isExponentMark]
    rfl
  | cons c tail =>
    cases hc : isExponentMark c with
    | false =>
      have hother : ¬(c = 'e' ∨ c = 'E') := by simpa [isExponentMark] using hc
      refine ⟨_, _, _, .nothing (if_neg hother) fun xs => ?_⟩
      rw [exponentEnd, any_byteAt? isAscii_isExponentMark, List.head?_cons, Option.any_some, hc]
      rfl
    | true => exact exists_exponentPart_of_mark hc tail

/-- Digits, a point with more digits if there is one, and what follows. -/
structure DecimalParts (whole point fraction tail : List Char) : Prop where
  digits : ∀ c ∈ whole, isDigit c = true
  places : ∀ c ∈ fraction, isDigit c = true
  mark : point = ['.'] ∨ point = [] ∧ fraction = [] ∧ tail.head?.any (· == '.') = false
  rest : tail.head?.any isDigit = false

theorem head?_dropWhile_isDigit (cs : List Char) :
    (cs.dropWhile isDigit).head?.any isDigit = false := by
  induction cs with
  | nil => rfl
  | cons c cs ih =>
    rw [List.dropWhile_cons]
    split
    · exact ih
    · next hc => exact Bool.eq_false_iff.2 hc

theorem exists_decimalParts (cs : List Char) :
    ∃ whole point fraction tail, cs = whole ++ (point ++ (fraction ++ tail)) ∧
      DecimalParts whole point fraction tail := by
  have hdigits (cs : List Char) : ∀ c ∈ cs.takeWhile isDigit, isDigit c = true :=
    fun _ => List.mem_takeWhile_imp
  have hcs := List.takeWhile_append_dropWhile (p := isDigit) (l := cs)
  have hhead := head?_dropWhile_isDigit cs
  by_cases hpoint : (cs.dropWhile isDigit).head? = some '.'
  · obtain ⟨rest, hrest⟩ := List.head?_eq_some_iff.1 hpoint
    refine ⟨cs.takeWhile isDigit, ['.'], rest.takeWhile isDigit, rest.dropWhile isDigit, ?_,
      hdigits cs, hdigits rest, .inl rfl, head?_dropWhile_isDigit rest⟩
    rw [List.takeWhile_append_dropWhile, List.singleton_append, ← hrest, hcs]
  · refine ⟨cs.takeWhile isDigit, [], [], cs.dropWhile isDigit, hcs.symm, hdigits cs, nofun,
      .inr ⟨rfl, rfl, ?_⟩, hhead⟩
    cases hc : (cs.dropWhile isDigit).head? with
    | none => rfl
    | some c => exact beq_false_of_ne fun heq => hpoint (heq ▸ hc)

namespace DecimalParts

variable {whole point fraction tail : List Char} (h : DecimalParts whole point fraction tail)

include h

theorem head?_any : (point ++ (fraction ++ tail)).head?.any isDigit = false := by
  rcases h.mark with rfl | ⟨rfl, rfl, -⟩
  · rfl
  · exact h.rest

/-- The parts are what is read. -/
theorem splitDecimal_eq : splitDecimal (whole ++ (point ++ (fraction ++ tail))) =
    if whole.isEmpty && fraction.isEmpty then none
    else some (⟨valueOfDigits (whole ++ fraction),
      (splitExponent tail).1 - fraction.length⟩, (splitExponent tail).2) := by
  obtain ⟨htake, hdrop⟩ := takeWhile_isDigit_append h.digits h.head?_any
  unfold splitDecimal
  rw [htake, hdrop]
  rcases h.mark with rfl | ⟨rfl, rfl, hmark⟩
  · obtain ⟨htake, hdrop⟩ := takeWhile_isDigit_append h.places h.rest
    simp only [List.singleton_append, htake, hdrop]
  · rw [List.nil_append, List.nil_append]
    split
    · next rest hrest =>
      split at hrest
      · cases hmark
      · cases hrest
        rfl

/-- The position stands after the point and the digits. -/
theorem mantissaEnd_eq (xs : List Char) :
    mantissaEnd (utf8 (xs ++ (whole ++ (point ++ (fraction ++ tail))))) (byteLength xs) =
      byteLength xs + byteLength (whole ++ (point ++ fraction)) := by
  obtain ⟨htake, -⟩ := takeWhile_isDigit_append h.digits h.head?_any
  have hpoint := any_byteAt? isAscii_point (xs ++ whole) (point ++ (fraction ++ tail))
  rw [List.append_assoc, byteLength_append] at hpoint
  unfold mantissaEnd
  rw [pastDigits_utf8, htake]
  dsimp only
  rw [hpoint]
  rcases h.mark with rfl | ⟨rfl, rfl, hmark⟩
  · have hplaces := pastDigits_utf8 (xs ++ (whole ++ ['.'])) (fraction ++ tail)
    rw [(takeWhile_isDigit_append h.places h.rest).1] at hplaces
    simp only [List.append_assoc, byteLength_append] at hplaces ⊢
    rw [← Nat.add_assoc] at hplaces
    exact hplaces.trans (by omega)
  · simp [hmark]

end DecimalParts

/-! ### The number -/

section Parts

variable {whole point fraction tail : List Char} (h : DecimalParts whole point fraction tail)

include h

/-- There is no number exactly if nothing has been passed, or nothing but a point. -/
theorem mantissa_eq_iff : whole ++ (point ++ fraction) = [] ∨ whole ++ (point ++ fraction) = ['.'] ↔
    (whole.isEmpty && fraction.isEmpty) = true := by
  cases whole with
  | nil =>
    rcases h.mark with rfl | ⟨rfl, rfl, -⟩
    · cases fraction <;> simp
    · simp
  | cons d ds =>
    have hd : d ≠ '.' := by
      rintro rfl
      exact absurd (h.digits '.' List.mem_cons_self) (by decide)
    simp [hd]

/-- What has been passed does not begin with a sign. -/
theorem head?_mantissa (hsome : (whole.isEmpty && fraction.isEmpty) = false) (used : List Char) :
    (whole ++ (point ++ (fraction ++ used))).head?.any isSign = false := by
  cases whole with
  | nil =>
    rcases h.mark with rfl | ⟨-, rfl, -⟩
    · rfl
    · cases hsome
  | cons d ds => exact not_isSign_of_isDigit (h.digits d List.mem_cons_self)

/-- The cuts are made between characters, and give the digits and the whole number. -/
theorem chosenPiece?_parts {sign used rest : List Char} (htail : tail = used ++ rest)
    (hlength : byteLength sign =
      if (sign ++ (whole ++ (point ++ (fraction ++ tail)))).head?.any isSign then 1 else 0)
    (hend : ∀ xs, exponentEnd (utf8 (xs ++ tail)) (byteLength xs) =
      byteLength xs + byteLength used) :
    chosenPiece? (sign ++ (whole ++ (point ++ (fraction ++ tail)))) =
      if whole ++ (point ++ fraction) = [] ∨ whole ++ (point ++ fraction) = ['.'] then some none
      else some (some (sign ++ (whole ++ (point ++ (fraction ++ used))))) := by
  have hstop := h.mantissaEnd_eq sign
  have hpassed := hend (sign ++ (whole ++ (point ++ fraction)))
  have hdigits := textBetween?_append sign (whole ++ (point ++ fraction)) tail
  have htext := textBetween?_append [] (sign ++ (whole ++ (point ++ fraction)) ++ used) rest
  rw [byteLength_nil, Nat.zero_add, byteLength_append _ used] at htext
  simp only [htail, List.append_assoc, List.nil_append] at hstop hpassed hdigits htext hlength ⊢
  have hstart := any_byteAt? isAscii_isSign []
    (sign ++ (whole ++ (point ++ (fraction ++ (used ++ rest)))))
  rw [List.nil_append, byteLength_nil] at hstart
  rw [byteLength_append] at hpassed htext
  unfold chosenPiece?
  dsimp only
  rw [hstart, ← hlength, hstop, hdigits]
  by_cases hnone : whole ++ (point ++ fraction) = []
  · rw [hnone, if_pos (by rw [byteLength_nil, Nat.add_zero]), if_pos (.inl rfl)]
  · have hpos : byteLength (whole ++ (point ++ fraction)) ≠ 0 := mt byteLength_eq_zero.1 hnone
    rw [if_neg (by omega)]
    by_cases hpoint : whole ++ (point ++ fraction) = ['.']
    · rw [if_pos (.inr hpoint), hpoint]
      rfl
    · rw [if_neg (not_or.2 ⟨hnone, hpoint⟩), hpassed]
      show (if whole ++ (point ++ fraction) = ['.'] then _ else _) = _
      rw [if_neg hpoint, htext]
      rfl

end Parts

/-- No cut fails.  Either there is no number, or a piece at the front of the text is chosen, and on
its own it is the number that is read. -/
theorem chosenPiece?_cases (cs : List Char) :
    chosenPiece? cs = some none ∧ splitSignedDecimal cs = none ∨
      ∃ piece x rest, chosenPiece? cs = some (some piece) ∧ decimalLiteral? piece = some x ∧
        cs = piece ++ rest ∧ splitSignedDecimal cs = some (x, rest) := by
  obtain ⟨sign, negative, front, rfl, hsign, hlength, hread⟩ := exists_sign cs
  obtain ⟨whole, point, fraction, tail, rfl, hparts⟩ := exists_decimalParts front
  obtain ⟨used, exponent, rest, htail, hexponent, hused, hhead, hend⟩ :=
    exists_exponentPart tail
  have hsplit : splitSignedDecimal (sign ++ (whole ++ (point ++ (fraction ++ tail)))) =
      if whole.isEmpty && fraction.isEmpty then none
      else some (nearest negative ⟨valueOfDigits (whole ++ fraction), exponent - fraction.length⟩,
        rest) := by
    rw [splitSignedDecimal, hsign]
    dsimp only
    rw [hparts.splitDecimal_eq, hexponent]
    split <;> rfl
  rw [chosenPiece?_parts hparts htail hlength hend, hsplit,
    if_congr (mantissa_eq_iff hparts) rfl rfl]
  cases hsome : whole.isEmpty && fraction.isEmpty with
  | true => exact .inl ⟨rfl, rfl⟩
  | false =>
    -- the exponent part is read on its own, so all that has been passed is the number
    have hother : ∀ c ∈ used.head?, isDigit c = false ∧ (c == '.') = false := fun c hc => by
      rcases Bool.or_eq_true_iff.1 (hhead c hc) with hc | hc <;> rw [beq_iff_eq.1 hc] <;> decide
    have hread' : DecimalParts whole point fraction used := by
      refine ⟨hparts.digits, hparts.places, hparts.mark.imp_right fun hnone => ?_, ?_⟩
      · refine ⟨hnone.1, hnone.2.1, ?_⟩
        cases hused : used.head? with
        | none => rfl
        | some c => exact (hother c hused).2
      · cases hused : used.head? with
        | none => rfl
        | some c => exact (hother c hused).1
    refine .inr ⟨_, _, rest, if_neg Bool.false_ne_true, ?_, ?_, if_neg Bool.false_ne_true⟩
    · rw [decimalLiteral?, splitSignedDecimal, hread _ (head?_mantissa hparts hsome used)]
      dsimp only
      rw [hread'.splitDecimal_eq, hsome, hused, if_neg Bool.false_ne_true]
      rfl
    · simp only [htail, List.append_assoc]

/-- No cut fails, and the number is the one that is read. -/
theorem scannedNumber?_eq (cs : List Char) :
    scannedNumber? cs = some (((splitSignedDecimal cs).map (·.1)).getD nan) := by
  rw [scannedNumber?_eq_map]
  obtain ⟨hnone, hsplit⟩ | ⟨piece, x, rest, hpiece, hliteral, -, hsplit⟩ := chosenPiece?_cases cs
  · rw [hnone, hsplit]
    rfl
  · rw [hpiece, hsplit, Option.map_some, Option.bind_some, hliteral]
    rfl

/-- The number a text starts with, after white space, by positions. -/
def leadingNumber? (s : String) : Option Float :=
  let cs := trimStart s.toList
  if infinityWord.isPrefixOf cs || ('+' :: infinityWord).isPrefixOf cs then some infinity
  else if ('-' :: infinityWord).isPrefixOf cs then some (-infinity)
  else scannedNumber? cs

theorem leadingNumber?_eq (s : String) : leadingNumber? s = some (leadingNumber s) := by
  unfold leadingNumber? leadingNumber
  dsimp only
  split
  · rfl
  · split
    · rfl
    · exact scannedNumber?_eq _

end Number

end LiveMarkup
