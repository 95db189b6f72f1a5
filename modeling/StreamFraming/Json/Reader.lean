import StreamFraming.Json.Value

/-!
# Reading JSON texts

A reader of JSON texts: a text is taken apart into tokens, and these are put together to a value.
The reader takes one token at a time and keeps the containers that are open around the place where
it stands, so that a text may nest them to any depth.
-/

namespace StreamFraming.Json

/-! ## Strings -/

/-- Reads the pieces of a string up to its closing quote, with those already read, the latest
first. The text after the quote comes with them. -/
def readPieces? (pieces : List Piece) : List Char → Option (List Piece × List Char)
  | [] => none
  | '"' :: rest => some (pieces.reverse, rest)
  | '\\' :: 'u' :: a :: b :: c :: d :: rest =>
    match unitValue? a b c d with
    | some n => readPieces? (.unit n :: pieces) rest
    | none => none
  | '\\' :: c :: rest =>
    match escaped? c with
    | some c => readPieces? (.char c :: pieces) rest
    | none => none
  | c :: rest => if c = '\\' ∨ c.toNat < 0x20 then none else readPieces? (.char c :: pieces) rest

/-- Reads a string after its opening quote. -/
def readString? (text : List Char) : Option (Token × List Char) :=
  match readPieces? [] text with
  | some (pieces, rest) => some (.string ((charsOf? [] pieces).map String.ofList), rest)
  | none => none

/-! ## Numbers -/

/-- The text after one or more digits. -/
def skipDigits? (text : List Char) : Option (List Char) :=
  if text.takeWhile Char.isDigit = [] then none else some (text.dropWhile Char.isDigit)

/-- The text after a fraction, if there is one. -/
def skipFraction? : List Char → Option (List Char)
  | [] => some []
  | c :: rest => if c = '.' then skipDigits? rest else some (c :: rest)

/-- The text after a sign, if there is one. -/
def skipSign : List Char → List Char
  | [] => []
  | c :: rest => if c = '+' ∨ c = '-' then rest else c :: rest

/-- The text after an exponent, if there is one. -/
def skipExponent? : List Char → Option (List Char)
  | [] => some []
  | c :: rest => if c = 'e' ∨ c = 'E' then skipDigits? (skipSign rest) else some (c :: rest)

/-- Whether a fraction or an exponent follows. -/
def isContinued (text : List Char) : Bool :=
  text.head? = some '.' || text.head? = some 'e' || text.head? = some 'E'

/-- Reads a number without its sign. A number of more than one digit does not start with zero. -/
def readUnsigned? (negative : Bool) (text : List Char) : Option (Token × List Char) :=
  let whole := text.takeWhile Char.isDigit
  let rest := text.dropWhile Char.isDigit
  if whole = [] ∨ (whole.head? = some '0' ∧ whole ≠ ['0']) then none
  else
    let value :=
      if negative || isContinued rest then none
      else Decimal.readBelow? Decimal.wordLimit (whole.map fun c => c.toNat - 48)
    ((skipFraction? rest).bind skipExponent?).map fun rest => (.number value, rest)

/-! ## Tokens -/

/-- Reads a word of which `letters` are still to come. -/
def readWord? (t : Token) : List Char → List Char → Option (Token × List Char)
  | [], text => some (t, text)
  | _ :: _, [] => none
  | letter :: letters, c :: text => if c = letter then readWord? t letters text else none

/-- The token that a character is by itself. -/
def punctuation? : Char → Option Token
  | '{' => some .openObject
  | '}' => some .closeObject
  | '[' => some .openArray
  | ']' => some .closeArray
  | ',' => some .comma
  | ':' => some .colon
  | _ => none

/-- Reads the token that `text` starts with. The text after it comes with it. -/
def readToken? : List Char → Option (Token × List Char)
  | [] => none
  | c :: rest =>
    match punctuation? c with
    | some t => some (t, rest)
    | none =>
      if c = '"' then readString? rest
      else if c = 'n' then readWord? .null ['u', 'l', 'l'] rest
      else if c = 't' then readWord? (.bool true) ['r', 'u', 'e'] rest
      else if c = 'f' then readWord? (.bool false) ['a', 'l', 's', 'e'] rest
      else if c = '-' then readUnsigned? true rest
      else readUnsigned? false (c :: rest)

/-! ## The text left

Each reader leaves a shorter text than it was given, or one as long if it may read nothing.
-/

/-- The pieces of a string leave no more text than they were read from. -/
theorem length_le_of_readPieces? {done pieces : List Piece} {text rest : List Char}
    (h : readPieces? done text = some (pieces, rest)) : rest.length ≤ text.length := by
  fun_induction readPieces? done text with
  | case1 => exact nomatch h
  | case2 =>
    simp only [Option.some.injEq, Prod.mk.injEq] at h
    simp [h.2]
  | case3 _ _ _ _ _ _ _ _ ih => have := ih h; simp; omega
  | case4 => exact nomatch h
  | case5 _ _ _ _ _ _ ih => have := ih h; simp; omega
  | case6 => exact nomatch h
  | case7 => exact nomatch h
  | case8 _ _ _ _ _ _ _ ih => have := ih h; simp; omega

theorem length_le_of_skipDigits? {text rest : List Char} (h : skipDigits? text = some rest) :
    rest.length ≤ text.length := by
  rw [skipDigits?] at h
  split at h
  · exact nomatch h
  · simp only [Option.some.injEq] at h
    exact h ▸ (List.dropWhile_sublist _).length_le

theorem length_le_of_skipFraction? {text rest : List Char} (h : skipFraction? text = some rest) :
    rest.length ≤ text.length := by
  cases text with
  | nil => simp_all [skipFraction?]
  | cons c text =>
    rw [skipFraction?] at h
    split at h
    · have := length_le_of_skipDigits? h
      simp only [List.length_cons]
      omega
    · simp only [Option.some.injEq] at h
      exact h ▸ Nat.le_refl _

theorem length_skipSign_le (text : List Char) : (skipSign text).length ≤ text.length := by
  cases text with
  | nil => simp [skipSign]
  | cons c text =>
    rw [skipSign]
    split <;> simp

theorem length_le_of_skipExponent? {text rest : List Char} (h : skipExponent? text = some rest) :
    rest.length ≤ text.length := by
  cases text with
  | nil => simp_all [skipExponent?]
  | cons c text =>
    rw [skipExponent?] at h
    split at h
    · have := length_le_of_skipDigits? h
      have := length_skipSign_le text
      simp only [List.length_cons]
      omega
    · simp only [Option.some.injEq] at h
      exact h ▸ Nat.le_refl _

/-- A number without its sign takes at least one character. -/
theorem length_lt_of_readUnsigned? {negative : Bool} {text rest : List Char} {t : Token}
    (h : readUnsigned? negative text = some (t, rest)) : rest.length < text.length := by
  have whole := congrArg List.length
    (List.takeWhile_append_dropWhile (p := Char.isDigit) (l := text))
  rw [List.length_append] at whole
  rw [readUnsigned?] at h
  dsimp only at h
  split at h
  · exact nomatch h
  · next hw =>
    have := List.length_pos_iff.2 fun hn => hw (.inl hn)
    obtain ⟨rest', h, he⟩ := Option.map_eq_some_iff.1 h
    obtain ⟨middle, hf, hx⟩ := Option.bind_eq_some_iff.1 h
    have := length_le_of_skipFraction? hf
    have := length_le_of_skipExponent? hx
    simp only [Prod.mk.injEq] at he
    rw [← he.2]
    omega

theorem length_le_of_readWord? {t t' : Token} {letters text rest : List Char}
    (h : readWord? t letters text = some (t', rest)) : rest.length ≤ text.length := by
  fun_induction readWord? t letters text with
  | case1 =>
    simp only [Option.some.injEq, Prod.mk.injEq] at h
    exact h.2 ▸ Nat.le_refl _
  | case2 => exact nomatch h
  | case3 _ _ _ ih =>
    have := ih h
    simp only [List.length_cons]
    omega
  | case4 => exact nomatch h

theorem length_le_of_readString? {t : Token} {text rest : List Char}
    (h : readString? text = some (t, rest)) : rest.length ≤ text.length := by
  rw [readString?] at h
  split at h
  · next hp =>
    simp only [Option.some.injEq, Prod.mk.injEq] at h
    exact h.2 ▸ length_le_of_readPieces? hp
  · exact nomatch h

/-- Each token takes at least one character. -/
theorem length_lt_of_readToken? {text rest : List Char} {t : Token}
    (h : readToken? text = some (t, rest)) : rest.length < text.length := by
  cases text with
  | nil => exact nomatch h
  | cons c text =>
    have le_lt {n : Nat} (h : n ≤ text.length) : n < (c :: text).length := Nat.lt_succ_of_le h
    rw [readToken?] at h
    split at h
    · simp only [Option.some.injEq, Prod.mk.injEq] at h
      exact le_lt (h.2 ▸ Nat.le_refl _)
    · split at h
      · exact le_lt (length_le_of_readString? h)
      split at h
      · exact le_lt (length_le_of_readWord? h)
      split at h
      · exact le_lt (length_le_of_readWord? h)
      split at h
      · exact le_lt (length_le_of_readWord? h)
      split at h
      · exact le_lt (Nat.le_of_lt (length_lt_of_readUnsigned? h))
      · exact length_lt_of_readUnsigned? h

/-! ## Texts -/

/-- Reads all tokens of a text, with those already read, the latest first. -/
def readTokens? (tokens : List Token) (text : List Char) : Option (List Token) :=
  if (text.dropWhile isBlank).isEmpty then some tokens.reverse
  else
    match _ : readToken? (text.dropWhile isBlank) with
    | none => none
    | some (t, rest) => readTokens? (t :: tokens) rest
termination_by text.length
decreasing_by
  exact Nat.lt_of_lt_of_le (length_lt_of_readToken? ‹_›) (List.dropWhile_sublist _).length_le

/-- The tokens of a text. -/
def tokens? (text : String) : Option (List Token) := readTokens? [] text.toList

/-! ## Values -/

/-- A place in a text where a value is to stand: the containers around it, the innermost
first, each with what it holds so far, the latest first. -/
inductive Place where
  /-- The whole text. -/
  | top
  /-- The next item of an array. -/
  | item (items : List Value) (outer : Place)
  /-- The value of `key` in an object. -/
  | member (members : List (Option String × Value)) (key : Option String) (outer : Place)

/-- What a reader expects next. -/
inductive Reader where
  /-- A value. -/
  | value (place : Place)
  /-- The first item of an array, or the array's end. -/
  | firstItem (outer : Place)
  /-- The first key of an object, or the object's end. -/
  | firstKey (outer : Place)
  /-- Another key of an object. -/
  | nextKey (members : List (Option String × Value)) (outer : Place)
  /-- The colon after a key. -/
  | colon (members : List (Option String × Value)) (key : Option String) (outer : Place)
  /-- The comma after an item, or the array's end. -/
  | afterItem (items : List Value) (outer : Place)
  /-- The comma after a member, or the object's end. -/
  | afterMember (members : List (Option String × Value)) (outer : Place)
  /-- Nothing: the text is complete. -/
  | complete (v : Value)

namespace Reader

/-- Puts a value in its place. -/
def fill (v : Value) : Place → Reader
  | .top => .complete v
  | .item items outer => .afterItem (v :: items) outer
  | .member members key outer => .afterMember ((key, v) :: members) outer

/-- Takes the first token of a value. -/
def begin (place : Place) : Token → Option Reader
  | .openArray => some (.firstItem place)
  | .openObject => some (.firstKey place)
  | .null => some (fill .null place)
  | .bool b => some (fill (.bool b) place)
  | .number n => some (fill (.number n) place)
  | .string text => some (fill (.string text) place)
  | _ => none

/-- Takes one token, if it is one that is expected. -/
def step : Reader → Token → Option Reader
  | .value place, t => begin place t
  | .firstItem outer, .closeArray => some (fill (.array []) outer)
  | .firstItem outer, t => begin (.item [] outer) t
  | .firstKey outer, .closeObject => some (fill (.object []) outer)
  | .firstKey outer, .string key => some (.colon [] key outer)
  | .nextKey members outer, .string key => some (.colon members key outer)
  | .colon members key outer, .colon => some (.value (.member members key outer))
  | .afterItem items outer, .comma => some (.value (.item items outer))
  | .afterItem items outer, .closeArray => some (fill (.array items.reverse) outer)
  | .afterMember members outer, .comma => some (.nextKey members outer)
  | .afterMember members outer, .closeObject => some (fill (.object members.reverse) outer)
  | _, _ => none

/-- Takes tokens as long as each is one that is expected. -/
def steps : Reader → List Token → Option Reader
  | r, [] => some r
  | r, t :: ts =>
    match r.step t with
    | some r => r.steps ts
    | none => none

end Reader

/-- The value that tokens are, all of them together. -/
def Value.ofTokens? (ts : List Token) : Option Value :=
  match (Reader.value .top).steps ts with
  | some (.complete v) => some v
  | _ => none

/-- The value that a text is. -/
def Value.parse? (text : String) : Option Value := (tokens? text).bind Value.ofTokens?

end StreamFraming.Json
