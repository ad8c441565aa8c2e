import LiveMarkup.Proofs.Lexemes
import LiveMarkup.Proofs.ParserResults

/-!
# Trees written out

A tree is written with as few parentheses as the grammar allows.  Every construct has a rank, which
says how tightly it holds together; an operand is put in parentheses only where it holds together
less tightly than its place asks for.  Tokens are separated by blanks.

## Main definitions

* `Expr.rank` — how tightly an expression holds together.
* `Style` — what is left open in writing.
* `Expr.tokens`, `Expr.text` — an expression written out.
* `Expr.Expressible` — the expressions that the language has a way to write.
* `TokenKind.Readable` — the tokens that are read back from their characters.

## Main results

* `readable_tokens` — the tokens of an expressible tree are all read back.
-/

namespace LiveMarkup.Syntax

open Text Number

/-! ### Ranks -/

/-- How tightly the operator holds together. -/
def BinaryOp.rank : BinaryOp → Nat
  | .pow => 9
  | .mul | .div | .rem => 8
  | .add | .sub => 7
  | .less | .lessEqual | .greater | .greaterEqual => 6
  | .equal | .notEqual | .strictEqual | .strictNotEqual => 5

/-- How tightly the operator holds together. -/
def LogicalOp.rank : LogicalOp → Nat
  | .and => 4
  | .or => 3
  | .nullish => 2

/-- How tightly an expression holds together: the higher, the tighter. -/
def Expr.rank : Expr → Nat
  | .assign .. => 0
  | .conditional .. => 1
  | .logical op .. => op.rank
  | .binary op .. => op.rank
  | .unary .. | .update _ .new _ => 10
  | .update _ .old _ => 11
  | .optionalChain _ => 12
  | .member .. | .index .. | .call .. => 13
  | _ => 14

/-- The rank that the left operand needs.  All operators but `**` associate to the left; `**` takes
a whole operand with its unary operators on its left. -/
def BinaryOp.leftRank : BinaryOp → Nat
  | .pow => 10
  | op => op.rank

/-- The rank that the right operand needs. -/
def BinaryOp.rightRank : BinaryOp → Nat
  | .pow => 9
  | op => op.rank + 1

/-! ### Operators -/

/-- The token of the operator. -/
def UnaryOp.token : UnaryOp → TokenKind
  | .not => .symbol .bang
  | .negate => .symbol .minus
  | .plus => .symbol .plus
  | .typeOf => .name "typeof"

/-- The symbol of the operator. -/
def BinaryOp.symbol : BinaryOp → Symbol
  | .add => .plus
  | .sub => .minus
  | .mul => .star
  | .div => .slash
  | .rem => .percent
  | .pow => .starStar
  | .less => .less
  | .lessEqual => .lessEqual
  | .greater => .greater
  | .greaterEqual => .greaterEqual
  | .equal => .equal
  | .notEqual => .notEqual
  | .strictEqual => .strictEqual
  | .strictNotEqual => .strictNotEqual

/-- The symbol of the operator. -/
def LogicalOp.symbol : LogicalOp → Symbol
  | .and => .andAnd
  | .or => .orOr
  | .nullish => .questionQuestion

/-- The symbol of the operator. -/
def UpdateOp.symbol : UpdateOp → Symbol
  | .increment => .plusPlus
  | .decrement => .minusMinus

/-- The symbol of the operator, if it has one. -/
def AssignOp.symbol? : AssignOp → Option Symbol
  | .assign => some .assign
  | .compound .add => some .plusAssign
  | .compound .sub => some .minusAssign
  | .compound .mul => some .starAssign
  | .compound .div => some .slashAssign
  | .compound .rem => some .percentAssign
  | .compound _ => none

/-! ### Tokens of trees -/

/-- What is left open in writing. -/
structure Style where
  /-- How a number is written. -/
  numeral : Float → List Char
  /-- Whether an array element that is `undefined` is left out, with only its comma written. -/
  holes : Bool

/-- Tokens in parentheses, if they need any. -/
def enclosed (least rank : Nat) (tokens : List TokenKind) : List TokenKind :=
  if rank < least then .symbol .leftParen :: tokens ++ [.symbol .rightParen] else tokens

/-- Tokens of items with commas between them. -/
def commaSeparatedTokens (items : List (List TokenKind)) : List TokenKind :=
  [.symbol .comma].intercalate items

/-- Tokens of array elements with commas between them; an element without tokens has a comma of its
own, also at the end. -/
def elementTokens : List (List TokenKind) → List TokenKind
  | [] => []
  | [] :: rest => .symbol .comma :: elementTokens rest
  | [item] => item
  | item :: rest => item ++ .symbol .comma :: elementTokens rest

/-- The token of a property name. -/
def keyToken (key : String) : TokenKind := if isName key then .name key else .string key

/-- The mark before a link in brackets or parentheses. -/
def optionalMark (optional : Bool) : List TokenKind :=
  if optional then [.symbol .questionDot] else []

/-- Whether the expression is an array element that is left out. -/
def Style.leavesOut (σ : Style) : Expr → Bool
  | .literal .undefined => σ.holes
  | _ => false

mutual

/-- The tokens of an expression. -/
def Expr.tokens (σ : Style) : Expr → List TokenKind
  | .literal .undefined => [.name "undefined"]
  | .literal .null => [.name "null"]
  | .literal (.bool b) => [.name (if b then "true" else "false")]
  | .literal (.number x) => [.number x]
  | .literal (.string s) => [.string s]
  | .array items =>
    .symbol .leftBracket :: elementTokens (elementsTokens σ items) ++ [.symbol .rightBracket]
  | .object properties =>
    .symbol .leftBrace :: commaSeparatedTokens (propertiesTokens σ properties) ++
      [.symbol .rightBrace]
  | .param _ name | .declared _ name | .unbound name => [.name name]
  | .global g => [.name g.name]
  | .member object property optional =>
    enclosed 13 object.rank (object.tokens σ) ++
      [.symbol (if optional then .questionDot else .dot), .name property]
  | .index object key optional =>
    enclosed 13 object.rank (object.tokens σ) ++ optionalMark optional ++
      .symbol .leftBracket :: key.tokens σ ++ [.symbol .rightBracket]
  | .call callee args optional =>
    enclosed 13 callee.rank (callee.tokens σ) ++ optionalMark optional ++
      .symbol .leftParen :: commaSeparatedTokens (listTokens σ args) ++ [.symbol .rightParen]
  | .optionalChain chain => chain.tokens σ
  | .unary op operand => op.token :: enclosed 10 operand.rank (operand.tokens σ)
  | .binary op left right =>
    enclosed op.leftRank left.rank (left.tokens σ) ++
      .symbol op.symbol :: enclosed op.rightRank right.rank (right.tokens σ)
  | .logical op left right =>
    enclosed op.rank left.rank (left.tokens σ) ++
      .symbol op.symbol :: enclosed (op.rank + 1) right.rank (right.tokens σ)
  | .conditional test consequent alternate =>
    enclosed 2 test.rank (test.tokens σ) ++ .symbol .question :: consequent.tokens σ ++
      .symbol .colon :: alternate.tokens σ
  | .assign op target value =>
    enclosed 1 target.rank (target.tokens σ) ++
      .symbol (op.symbol?.getD .assign) :: value.tokens σ
  | .update op .new target => .symbol op.symbol :: enclosed 10 target.rank (target.tokens σ)
  | .update op .old target => enclosed 12 target.rank (target.tokens σ) ++ [.symbol op.symbol]

/-- The tokens of each expression. -/
def listTokens (σ : Style) : List Expr → List (List TokenKind)
  | [] => []
  | e :: rest => e.tokens σ :: listTokens σ rest

/-- The tokens of each array element. -/
def elementsTokens (σ : Style) : List Expr → List (List TokenKind)
  | [] => []
  | e :: rest => (if σ.leavesOut e then [] else e.tokens σ) :: elementsTokens σ rest

/-- The tokens of each property. -/
def propertiesTokens (σ : Style) : List (String × Expr) → List (List TokenKind)
  | [] => []
  | (key, value) :: rest =>
    (keyToken key :: .symbol .colon :: value.tokens σ) :: propertiesTokens σ rest

end

/-- The tokens of an expression where a rank is needed. -/
def Expr.tokensAt (σ : Style) (least : Nat) (e : Expr) : List TokenKind :=
  enclosed least e.rank (e.tokens σ)

/-! ### Characters of tokens -/

/-- A character of a string literal. -/
def escaped (c : Char) : List Char :=
  if c = '"' ∨ c = '\\' then ['\\', c] else if c = '\n' then ['\\', 'n'] else [c]

/-- The characters of a token. -/
def TokenKind.text (σ : Style) : TokenKind → List Char
  | .number x => σ.numeral x
  | .string s => '"' :: s.toList.flatMap escaped ++ ['"']
  | .name s => s.toList
  | .symbol s => s.text.toList
  | .finish => []

/-- The text of tokens with blanks between them. -/
def blankSeparated (σ : Style) (kinds : List TokenKind) : List Char :=
  [' '].intercalate (kinds.map (TokenKind.text σ))

/-- An expression written out. -/
def Expr.text (σ : Style) (e : Expr) : String := String.ofList (blankSeparated σ (e.tokens σ))

/-! ### What can be written -/

/-- The characters are read as one token, the number. -/
def IsNumeral (cs : List Char) (x : Float) : Prop :=
  ∃ c rest, cs = c :: rest ∧ splitLexeme c rest = .ok (.number x, [])

/-- Whether a chain of members and calls has an optional link. -/
def Expr.isOpen : Expr → Bool
  | .member e _ optional | .index e _ optional | .call e _ optional => optional || e.isOpen
  | _ => false

/-- A name that can stand for something. -/
structure IsFree (name : String) : Prop where
  isName : isName name = true
  not_reserved : isReserved name = false

/-- The expressions that the language has a way to write, with names resolved against `params`.  The
flag says whether links may be optional, which they may within an optional chain only. -/
inductive Expr.Expressible (σ : Style) (params : List String) : Bool → Expr → Prop
  | null {chain : Bool} : Expressible σ params chain (.literal .null)
  | bool {chain : Bool} (b : Bool) : Expressible σ params chain (.literal (.bool b))
  | number {chain : Bool} {x : Float} (hnumeral : IsNumeral (σ.numeral x) x) :
    Expressible σ params chain (.literal (.number x))
  | string {chain : Bool} (s : String) : Expressible σ params chain (.literal (.string s))
  | param {chain : Bool} {slot : Nat} {name : String} (hname : IsFree name)
    (hslot : lastPosition? params name = some slot) :
    Expressible σ params chain (.param slot name)
  | undefined {chain : Bool} (hslot : lastPosition? params "undefined" = none) :
    Expressible σ params chain (.literal .undefined)
  | global {chain : Bool} {g : Global} (hslot : lastPosition? params g.name = none)
    (hglobal : Global.ofName? g.name = some g) : Expressible σ params chain (.global g)
  | unbound {chain : Bool} {name : String} (hname : IsFree name)
    (hslot : lastPosition? params name = none) (hundefined : name ≠ "undefined")
    (hglobal : Global.ofName? name = none) : Expressible σ params chain (.unbound name)
  | array {chain : Bool} {items : List Expr}
    (hitems : ∀ e ∈ items, σ.leavesOut e = false → Expressible σ params false e) :
    Expressible σ params chain (.array items)
  | object {chain : Bool} {properties : List (String × Expr)}
    (hvalues : ∀ p ∈ properties, Expressible σ params false p.2) :
    Expressible σ params chain (.object properties)
  | member {chain optional : Bool} {object : Expr} {property : String}
    (hobject : Expressible σ params chain object) (hproperty : isName property = true)
    (hlink : optional = true → chain = true) :
    Expressible σ params chain (.member object property optional)
  | index {chain optional : Bool} {object key : Expr}
    (hobject : Expressible σ params chain object) (hkey : Expressible σ params false key)
    (hlink : optional = true → chain = true) :
    Expressible σ params chain (.index object key optional)
  | call {chain optional : Bool} {callee : Expr} {args : List Expr}
    (hcallee : Expressible σ params chain callee)
    (hargs : ∀ e ∈ args, Expressible σ params false e) (hlink : optional = true → chain = true) :
    Expressible σ params chain (.call callee args optional)
  | optionalChain {chain : Bool} {e : Expr} (hlinks : Expressible σ params true e)
    (hopen : e.isOpen = true) : Expressible σ params chain (.optionalChain e)
  | unary {chain : Bool} {op : UnaryOp} {operand : Expr}
    (hoperand : Expressible σ params false operand) :
    Expressible σ params chain (.unary op operand)
  | binary {chain : Bool} {op : BinaryOp} {left right : Expr}
    (hleft : Expressible σ params false left) (hright : Expressible σ params false right)
    (hpow : op = .pow → left.isUnary = false) : Expressible σ params chain (.binary op left right)
  | logical {chain : Bool} {op : LogicalOp} {left right : Expr}
    (hleft : Expressible σ params false left) (hright : Expressible σ params false right) :
    Expressible σ params chain (.logical op left right)
  | conditional {chain : Bool} {test consequent alternate : Expr}
    (htest : Expressible σ params false test) (hconsequent : Expressible σ params false consequent)
    (halternate : Expressible σ params false alternate) :
    Expressible σ params chain (.conditional test consequent alternate)
  | assign {chain : Bool} {op : AssignOp} {target value : Expr} (hop : op.symbol?.isSome = true)
    (htarget : Expressible σ params false target) (hassignable : target.isAssignable = true)
    (hvalue : Expressible σ params false value) :
    Expressible σ params chain (.assign op target value)
  | update {chain : Bool} {op : UpdateOp} {result : UpdateResult} {target : Expr}
    (htarget : Expressible σ params false target) (hassignable : target.isAssignable = true) :
    Expressible σ params chain (.update op result target)

/-- The token is read back from its characters. -/
def TokenKind.Readable (σ : Style) : TokenKind → Prop
  | .number x => IsNumeral (σ.numeral x) x
  | .name s => isName s = true
  | .string _ | .symbol _ => True
  | .finish => False

/-! ### Tokens of expressible trees -/

section Trees

variable {σ : Style}

/-- All tokens are read back from their characters. -/
def AllReadable (σ : Style) (tokens : List TokenKind) : Prop := ∀ kind ∈ tokens, kind.Readable σ

namespace AllReadable

theorem append {before after : List TokenKind} :
    AllReadable σ (before ++ after) ↔ AllReadable σ before ∧ AllReadable σ after :=
  List.forall_mem_append

theorem cons {kind : TokenKind} {rest : List TokenKind} :
    AllReadable σ (kind :: rest) ↔ kind.Readable σ ∧ AllReadable σ rest :=
  List.forall_mem_cons

theorem nil : AllReadable σ [] := by simp [AllReadable]

theorem symbol {s : Symbol} {rest : List TokenKind} :
    AllReadable σ (.symbol s :: rest) ↔ AllReadable σ rest :=
  cons.trans (and_iff_right trivial)

theorem name {s : String} (h : isName s = true) : AllReadable σ [.name s] := cons.2 ⟨h, nil⟩

theorem enclosed {least rank : Nat} {tokens : List TokenKind} (h : AllReadable σ tokens) :
    AllReadable σ (Syntax.enclosed least rank tokens) := by
  unfold Syntax.enclosed
  split
  · exact append.2 ⟨symbol.2 h, symbol.2 nil⟩
  · exact h

theorem optionalMark (optional : Bool) : AllReadable σ (Syntax.optionalMark optional) := by
  cases optional
  · exact nil
  · exact symbol.2 nil

theorem commaSeparated {items : List (List TokenKind)} (h : ∀ item ∈ items, AllReadable σ item) :
    AllReadable σ (commaSeparatedTokens items) := by
  unfold commaSeparatedTokens
  induction items with
  | nil => exact nil
  | cons item rest ih =>
    obtain ⟨hitem, hrest⟩ := List.forall_mem_cons.1 h
    cases rest with
    | nil => simpa using hitem
    | cons next rest =>
      rw [List.intercalate_cons_cons]
      exact append.2 ⟨append.2 ⟨hitem, symbol.2 nil⟩, ih hrest⟩

theorem elements {items : List (List TokenKind)} (h : ∀ item ∈ items, AllReadable σ item) :
    AllReadable σ (elementTokens items) := by
  fun_induction elementTokens items with
  | case1 => exact nil
  | case2 rest ih => exact symbol.2 (ih (List.forall_mem_cons.1 h).2)
  | case3 item => exact h item List.mem_cons_self
  | case4 item rest _ _ ih =>
    obtain ⟨hitem, hrest⟩ := List.forall_mem_cons.1 h
    exact append.2 ⟨hitem, symbol.2 (ih hrest)⟩

end AllReadable

theorem listTokens_eq_map (items : List Expr) :
    listTokens σ items = items.map (Expr.tokens σ) := by
  induction items with
  | nil => rfl
  | cons e items ih => rw [listTokens, ih, List.map_cons]

theorem propertiesTokens_eq_map (properties : List (String × Expr)) :
    propertiesTokens σ properties =
      properties.map fun p => keyToken p.1 :: .symbol .colon :: p.2.tokens σ := by
  induction properties with
  | nil => rfl
  | cons p properties ih => rw [propertiesTokens, ih, List.map_cons]

theorem forall_mem_elementsTokens {P : List TokenKind → Prop} {items : List Expr} (hnil : P []) :
    (∀ item ∈ elementsTokens σ items, P item) ↔
      ∀ e ∈ items, σ.leavesOut e = false → P (e.tokens σ) := by
  induction items with
  | nil => simp [elementsTokens]
  | cons e items ih =>
    rw [elementsTokens, List.forall_mem_cons, List.forall_mem_cons, ih]
    cases σ.leavesOut e <;> simp [hnil]

theorem isName_of_ofName? {name : String} {g : Global} (h : Global.ofName? name = some g) :
    isName g.name = true ∧ isReserved g.name = false := by
  have hall : Global.all.all (fun g => isName g.name && !isReserved g.name) = true := by decide
  have hg := List.all_eq_true.1 hall g (List.mem_of_find?_eq_some h)
  simpa using hg

theorem readable_keyToken (key : String) : (keyToken key).Readable σ := by
  unfold keyToken
  split
  · next h => exact h
  · trivial

theorem readable_unaryToken (op : UnaryOp) : op.token.Readable σ := by
  cases op with
  | typeOf => exact (by decide : isName "typeof" = true)
  | not | negate | plus => trivial

/-- The tokens of an expressible tree can all be written. -/
theorem readable_tokens {params : List String} {chain : Bool} {e : Expr}
    (h : e.Expressible σ params chain) : AllReadable σ (e.tokens σ) := by
  induction h with
  | null => exact .name (by decide)
  | bool b => cases b <;> exact .name (by decide)
  | number hnumeral => exact AllReadable.cons.2 ⟨hnumeral, .nil⟩
  | string s => exact AllReadable.cons.2 ⟨trivial, .nil⟩
  | param hname | unbound hname => exact .name hname.isName
  | undefined => exact .name (by decide)
  | global _ hglobal => exact .name (isName_of_ofName? hglobal).1
  | array hitems ih =>
    have hitems := (forall_mem_elementsTokens AllReadable.nil).2 ih
    exact AllReadable.append.2 ⟨AllReadable.symbol.2 (.elements hitems), AllReadable.symbol.2 .nil⟩
  | @object _ properties hvalues ih =>
    have hproperty : ∀ p ∈ properties,
        AllReadable σ (keyToken p.1 :: .symbol .colon :: p.2.tokens σ) := fun p hp =>
      AllReadable.cons.2 ⟨readable_keyToken p.1, AllReadable.symbol.2 (ih p hp)⟩
    rw [Expr.tokens, propertiesTokens_eq_map]
    exact AllReadable.append.2 ⟨AllReadable.symbol.2 (.commaSeparated
      (List.forall_mem_map.2 hproperty)), AllReadable.symbol.2 .nil⟩
  | @member _ optional _ _ hobject hproperty hlink ih =>
    cases optional <;>
      exact AllReadable.append.2 ⟨.enclosed ih, AllReadable.symbol.2 (.name hproperty)⟩
  | @index _ optional _ _ hobject hkey hlink ihobject ihkey =>
    simp only [Expr.tokens, AllReadable.append, AllReadable.symbol]
    exact ⟨⟨⟨.enclosed ihobject, .optionalMark optional⟩, ihkey⟩, .nil⟩
  | @call _ optional _ _ hcallee hargs hlink ihcallee ihargs =>
    simp only [Expr.tokens, AllReadable.append, AllReadable.symbol, listTokens_eq_map]
    exact ⟨⟨⟨.enclosed ihcallee, .optionalMark optional⟩,
      .commaSeparated (List.forall_mem_map.2 ihargs)⟩, .nil⟩
  | optionalChain _ _ ih => exact ih
  | @unary _ op _ hoperand ih => exact AllReadable.cons.2 ⟨readable_unaryToken op, .enclosed ih⟩
  | binary _ _ _ ihleft ihright =>
    exact AllReadable.append.2 ⟨.enclosed ihleft, AllReadable.symbol.2 (.enclosed ihright)⟩
  | logical _ _ ihleft ihright =>
    exact AllReadable.append.2 ⟨.enclosed ihleft, AllReadable.symbol.2 (.enclosed ihright)⟩
  | conditional _ _ _ ihtest ihconsequent ihalternate =>
    simp only [Expr.tokens, AllReadable.append, AllReadable.symbol]
    exact ⟨⟨.enclosed ihtest, ihconsequent⟩, ihalternate⟩
  | assign _ _ _ _ ihtarget ihvalue =>
    exact AllReadable.append.2 ⟨.enclosed ihtarget, AllReadable.symbol.2 ihvalue⟩
  | @update _ _ result _ _ _ ih =>
    cases result with
    | new => exact AllReadable.symbol.2 (.enclosed ih)
    | old => exact AllReadable.append.2 ⟨.enclosed ih, AllReadable.symbol.2 .nil⟩

end Trees

end LiveMarkup.Syntax
