import StreamFraming.Json.Value

/-!
# Layouts of JSON values

The texts of a value, said without reading them: the value's tokens in order, each spelled
in one of its ways, with any white space around them.
-/

namespace StreamFraming.Json

/-! ## Tokens of a value -/

/-- Lists of tokens with a comma between each two. -/
def separate : List (List Token) → List Token
  | [] => []
  | [ts] => ts
  | ts :: more => ts ++ .comma :: separate more

mutual

/-- The tokens of a value. -/
def Value.tokens : Value → List Token
  | .null => [.null]
  | .bool b => [.bool b]
  | .number value => [.number value]
  | .string text => [.string text]
  | .array items => .openArray :: separate (Value.tokensOfItems items) ++ [.closeArray]
  | .object members => .openObject :: separate (Value.tokensOfMembers members) ++ [.closeObject]

/-- The tokens of each item of an array. -/
def Value.tokensOfItems : List Value → List (List Token)
  | [] => []
  | v :: items => v.tokens :: Value.tokensOfItems items

/-- The tokens of each member of an object. -/
def Value.tokensOfMembers : List (Option String × Value) → List (List Token)
  | [] => []
  | (key, v) :: members => (.string key :: .colon :: v.tokens) :: Value.tokensOfMembers members

end

/-! ## Spellings of a token -/

/-- One or more digits. -/
def AreDigits (text : List Char) : Prop := text ≠ [] ∧ ∀ c ∈ text, c.isDigit = true

/-- The sign of a number. -/
inductive Sign : List Char → Prop where
  | plus : Sign []
  | minus : Sign ['-']

/-- The fraction of a number. -/
inductive Fraction : List Char → Prop where
  | absent : Fraction []
  | present {digits : List Char} : AreDigits digits → Fraction ('.' :: digits)

/-- The exponent of a number. -/
inductive Exponent : List Char → Prop where
  | absent : Exponent []
  | unsigned {e : Char} {digits : List Char} :
    e = 'e' ∨ e = 'E' → AreDigits digits → Exponent (e :: digits)
  | signed {e sign : Char} {digits : List Char} :
    e = 'e' ∨ e = 'E' → sign = '+' ∨ sign = '-' → AreDigits digits → Exponent (e :: sign :: digits)

/-- The spellings of a piece of a string. -/
inductive SpellsPiece : Piece → List Char → Prop where
  | plain {c : Char} : c ≠ '"' → c ≠ '\\' → 0x20 ≤ c.toNat → SpellsPiece (.char c) [c]
  | escape {letter c : Char} : escaped? letter = some c → SpellsPiece (.char c) ['\\', letter]
  | unit {a b c d : Char} {n : Nat} :
    unitValue? a b c d = some n → SpellsPiece (.unit n) ['\\', 'u', a, b, c, d]

/-- The spellings of the pieces of a string. -/
inductive SpellsPieces : List Piece → List Char → Prop where
  | nil : SpellsPieces [] []
  | cons {piece : Piece} {pieces : List Piece} {text more : List Char} :
    SpellsPiece piece text → SpellsPieces pieces more →
      SpellsPieces (piece :: pieces) (text ++ more)

/-- The spellings of a token. -/
inductive Spells : Token → List Char → Prop where
  | openObject : Spells .openObject ['{']
  | closeObject : Spells .closeObject ['}']
  | openArray : Spells .openArray ['[']
  | closeArray : Spells .closeArray [']']
  | comma : Spells .comma [',']
  | colon : Spells .colon [':']
  | null : Spells .null ['n', 'u', 'l', 'l']
  | true : Spells (.bool true) ['t', 'r', 'u', 'e']
  | false : Spells (.bool false) ['f', 'a', 'l', 's', 'e']
  /-- A natural number below the word limit, written as such. -/
  | natural {n : Nat} : n < Decimal.wordLimit → Spells (.number (some n)) (Decimal.chars n)
  /-- Any other number. -/
  | number {sign fraction exponent : List Char} {whole : Nat} :
    Sign sign → Fraction fraction → Exponent exponent →
      sign ≠ [] ∨ fraction ≠ [] ∨ exponent ≠ [] ∨ Decimal.wordLimit ≤ whole →
        Spells (.number none) (sign ++ Decimal.chars whole ++ fraction ++ exponent)
  | string {pieces : List Piece} {text : List Char} :
    SpellsPieces pieces text →
      Spells (.string ((charsOf? [] pieces).map String.ofList)) ('"' :: text ++ ['"'])

/-! ## Layouts -/

/-- White space, possibly none. -/
def AreBlank (text : List Char) : Prop := ∀ c ∈ text, isBlank c = true

/-- The texts of a list of tokens. -/
inductive Layout : List Token → List Char → Prop where
  | nil {blanks : List Char} : AreBlank blanks → Layout [] blanks
  | cons {t : Token} {ts : List Token} {blanks text more : List Char} :
    AreBlank blanks → Spells t text → Layout ts more → Layout (t :: ts) (blanks ++ text ++ more)

/-- A text of a value. -/
def Value.IsText (v : Value) (text : String) : Prop := Layout v.tokens text.toList

end StreamFraming.Json
