import Mathlib.Data.List.Forall2
import StreamFraming.Json.Layout
import StreamFraming.Json.Library

/-!
# What is relied on of a library of JSON

`Library.Lawful` says of each operation of a library by itself what it does: which texts are read,
which value is taken for what, and what is written. Nothing is said there of what the operations
come to when one is applied to the outcome of another.
-/

namespace StreamFraming.Json

/-- Whether a character is written as itself in a string. -/
def isPlain (c : Char) : Bool := c != '"' && c != '\\' && 0x20 ≤ c.toNat

/-- Whether a text has nothing in it that a string must escape. -/
def IsPlain (text : String) : Prop := text.toList.all isPlain = true

instance (text : String) : Decidable (IsPlain text) := instDecidableEqBool _ _

/-- What is relied on of a library of JSON. -/
structure Library.Lawful (L : Library) : Prop where
  /-- Nothing is read but texts of values. -/
  isText_of_parse? : ∀ {text v}, L.parse? text = some v → v.IsText text
  /-- Every text of a value is read. -/
  parse?_of_isText : ∀ {text v}, v.IsText text → L.parse? text = some v
  /-- A truth value is read from `true` and `false`. -/
  bool?_iff : ∀ {v b}, L.bool? v = some b ↔ v = .bool b
  /-- A natural number is read from a number that is written as one. -/
  natural?_iff : ∀ {v n}, L.natural? v = some n ↔ v = .number (some n)
  /-- A variant without data is read from its name, or from an object whose only member has that
  name and the value null. -/
  variant?_iff : ∀ {names v name}, L.variant? names v = some name ↔
    name ∈ names ∧ (v = .string (some name) ∨ v = .object [(some name, .null)])
  /-- A record is read from an array of as many values as it has fields: they are those of its
  fields, in the order of the declaration. -/
  fields?_array : ∀ {names items values}, L.fields? names (.array items) = some values ↔
    values = items ∧ items.length = names.length
  /-- A record is read from an object of which all keys denote text and in which each of its fields
  occurs once. Members that are none of its fields are passed over. -/
  fields?_object : ∀ {names members values}, names.Nodup →
    (L.fields? names (.object members) = some values ↔
      (∀ m ∈ members, m.1 ≠ none) ∧
      List.Forall₂ (fun name v => members.filter (hasKey name) = [(some name, v)]) names values)
  /-- A record is read from nothing else. -/
  fields?_other : ∀ {names v}, (∀ items, v ≠ .array items) → (∀ members, v ≠ .object members) →
    L.fields? names v = none
  /-- A truth value is written as `true` or `false`. -/
  writeBool_eq : ∀ b, L.writeBool b = if b then "true" else "false"
  /-- A natural number is written in decimal digits. -/
  writeNatural_eq : ∀ {n}, n < Decimal.wordLimit → L.writeNatural n = Decimal.text n
  /-- A variant without data is written as its name. -/
  writeVariant_eq : ∀ {name}, IsPlain name → L.writeVariant name = quote name
  /-- A record is written as an object of its fields in the order in which they come, without white
  space. -/
  writeFields_eq : ∀ {fields : List (String × String)}, (∀ field ∈ fields, IsPlain field.1) →
    L.writeFields fields =
      "\x7b" ++ ",".intercalate (fields.map fun m => quote m.1 ++ ":" ++ m.2) ++ "\x7d"

end StreamFraming.Json
