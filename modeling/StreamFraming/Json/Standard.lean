import StreamFraming.Json.Library
import StreamFraming.Json.Reader

/-!
# A library of JSON

`Library.standard` is a library whose operations can be run: it reads texts by the reader of
`StreamFraming.Json.Reader`, and takes the fields of a record out of the value that was read.
-/

namespace StreamFraming.Json

/-! ## Reading -/

/-- The values that an object gives to a key. -/
def valuesOf (members : List (Option String × Value)) (key : String) : List Value :=
  (members.filter (hasKey key)).map Prod.snd

/-- The value that an object gives to a key, if it gives it one and not more. -/
def uniqueValue? (members : List (Option String × Value)) (key : String) : Option Value :=
  match valuesOf members key with
  | [v] => some v
  | _ => none

/-- The values of the named fields of a record, in order. The keys of an object must all be
text. -/
def fields? (names : List String) : Value → Option (List Value)
  | .array items => if items.length = names.length then some items else none
  | .object members =>
    if members.all fun member => member.1.isSome then names.mapM (uniqueValue? members) else none
  | _ => none

/-- The name, if it is one of those. -/
def oneOf? (names : List String) (name : String) : Option String :=
  if name ∈ names then some name else none

/-- The variant that a value names. -/
def variant? (names : List String) : Value → Option String
  | .string (some name) => oneOf? names name
  | .object [(some name, .null)] => oneOf? names name
  | _ => none

/-- The truth value that a value is. -/
def bool? : Value → Option Bool
  | .bool b => some b
  | _ => none

/-- The natural number that a value is. -/
def natural? : Value → Option Nat
  | .number value => value
  | _ => none

/-! ## Writing -/

/-- The text of an object, from keys that need no escape and the texts of their values. -/
def object (members : List (String × String)) : String :=
  "\x7b" ++ ",".intercalate (members.map fun m => quote m.1 ++ ":" ++ m.2) ++ "\x7d"

/-- The text of a truth value. -/
def bool (b : Bool) : String := if b then "true" else "false"

/-- The library of these operations. -/
def Library.standard : Library where
  parse? := Value.parse?
  bool? := Json.bool?
  natural? := Json.natural?
  variant? := Json.variant?
  fields? := Json.fields?
  writeBool := Json.bool
  writeNatural := Decimal.text
  writeVariant := Json.quote
  writeFields := Json.object

end StreamFraming.Json
