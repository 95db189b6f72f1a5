import StreamFraming.Json.Value

/-!
# Libraries of JSON

Records and enumerations are read from JSON texts and written to them by a library. It is told no
more of a record than the names of its fields, in the order in which they are declared, and no more
of an enumeration than the names of its variants; for the fields themselves it has readers and
writers of truth values and numbers. What reads and writes is not a part of this development, so
it is a parameter: `Library` lists its operations. The module `StreamFraming.Json.Lawful` says,
operation by operation, what is relied on, and `StreamFraming.Json.Standard` has a library that can
be run.

A library reads in two steps. It takes a text for the value that the text denotes, and the value,
or a part of it, for what is asked for. It writes in one step, from the texts of the parts.
-/

namespace StreamFraming.Json

/-- The operations of a library of JSON. -/
structure Library where
  /-- The value that a text denotes. -/
  parse? : String → Option Value
  /-- The truth value that a value is. -/
  bool? : Value → Option Bool
  /-- The natural number below the word limit that a value is. -/
  natural? : Value → Option Nat
  /-- The variant that a value is, of an enumeration with variants of these names. -/
  variant? : List String → Value → Option String
  /-- The values of the fields, in order, of a record with fields of these names. -/
  fields? : List String → Value → Option (List Value)
  /-- The text of a truth value. -/
  writeBool : Bool → String
  /-- The text of a natural number below the word limit. -/
  writeNatural : Nat → String
  /-- The text of a variant, from its name. -/
  writeVariant : String → String
  /-- The text of a record, from the names of its fields and the texts of their values. -/
  writeFields : List (String × String) → String

/-- Whether a member has a key. -/
def hasKey (key : String) (m : Option String × Value) : Bool := m.1 = some key

/-- A text that needs no escape as a string. -/
def quote (text : String) : String := "\"" ++ text ++ "\""

end StreamFraming.Json
