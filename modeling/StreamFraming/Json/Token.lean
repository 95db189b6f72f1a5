import StreamFraming.Decimal

/-!
# JSON tokens

The smallest parts of a JSON text that mean something, white space between them left out. A token
keeps of its text what a reader of records can ask for: of a string the text it denotes, and of a
number its value if that is a natural number below the word limit, written as one.

A string denotes no text if one of its escapes is half of a surrogate pair without the other
half. Such a string is a token all the same.
-/

namespace StreamFraming.Json

/-- The smallest parts of a JSON text that mean something. -/
inductive Token where
  | openObject
  | closeObject
  | openArray
  | closeArray
  | comma
  | colon
  | null
  | bool (b : Bool)
  /-- A number, and its value if it is a natural number written as such. -/
  | number (value : Option Nat)
  /-- A string, and the text that it denotes if it denotes one. -/
  | string (text : Option String)
deriving DecidableEq

/-- The white space that may stand between tokens. -/
def isBlank (c : Char) : Bool := c = ' ' || c = '\t' || c = '\n' || c = '\r'

/-! ## Strings -/

/-- A character of a string: written as itself or as a named escape, or as the number of a
UTF-16 unit. -/
inductive Piece where
  | char (c : Char)
  | unit (n : Nat)
deriving DecidableEq

/-- The value of a hexadecimal digit. -/
def hexValue? (c : Char) : Option Nat :=
  if '0' ≤ c ∧ c ≤ '9' then some (c.toNat - 48)
  else if 'A' ≤ c ∧ c ≤ 'F' then some (c.toNat - 55)
  else if 'a' ≤ c ∧ c ≤ 'f' then some (c.toNat - 87)
  else none

/-- The value of four hexadecimal digits. -/
def unitValue? (a b c d : Char) : Option Nat :=
  match hexValue? a, hexValue? b, hexValue? c, hexValue? d with
  | some a, some b, some c, some d => some (4096 * a + 256 * b + 16 * c + d)
  | _, _, _, _ => none

/-- The character that a backslash and a letter stand for. -/
def escaped? : Char → Option Char
  | '"' => some '"'
  | '\\' => some '\\'
  | '/' => some '/'
  | 'b' => some '\x08'
  | 'f' => some '\x0c'
  | 'n' => some '\n'
  | 'r' => some '\r'
  | 't' => some '\t'
  | _ => none

/-- Whether a UTF-16 unit is the first half of a surrogate pair. -/
def isHighSurrogate (n : Nat) : Bool := 0xD800 ≤ n && n < 0xDC00

/-- Whether a UTF-16 unit is the second half of a surrogate pair. -/
def isLowSurrogate (n : Nat) : Bool := 0xDC00 ≤ n && n < 0xE000

/-- The character of a surrogate pair. -/
def ofSurrogates (high low : Nat) : Char :=
  Char.ofNat (0x10000 + 0x400 * (high - 0xD800) + (low - 0xDC00))

/-- The characters that pieces denote, after those already found, the latest first. Each half
of a surrogate pair must stand next to the other. -/
def charsOf? (found : List Char) : List Piece → Option (List Char)
  | [] => some found.reverse
  | .char c :: pieces => charsOf? (c :: found) pieces
  | .unit high :: .unit low :: pieces =>
    if isHighSurrogate high && isLowSurrogate low then
      charsOf? (ofSurrogates high low :: found) pieces
    else if isHighSurrogate high || isLowSurrogate high then none
    else charsOf? (Char.ofNat high :: found) (.unit low :: pieces)
  | .unit n :: pieces =>
    if isHighSurrogate n || isLowSurrogate n then none else charsOf? (Char.ofNat n :: found) pieces

end StreamFraming.Json
