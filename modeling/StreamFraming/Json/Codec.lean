import StreamFraming.Json.Form
import StreamFraming.Json.Layout

/-!
# JSON codecs

The JSON values that stand for options, a progress, a kind or a declaration, said without reading
them. A record stands in an object that gives each of its fields its value, the members in any
order and others among them, or in the array of the values. `Codec.RoundTrips` says of a reader and
a writer that they agree with the values said so to stand for something.
-/

namespace StreamFraming

namespace Json

/-- A reader of a type from JSON texts and a writer of it. -/
structure Codec (α : Type) where
  /-- What a text is read as. -/
  read? : String → Option α
  /-- The text that is written. -/
  write : α → String

/-- The codec of a type from what a library has to read and write of it. -/
def Library.codec {α : Type} (L : Library) (ofJson? : Value → Option α) (toJson : α → String) :
    Codec α where
  read? text := (L.parse? text).bind ofJson?
  write := toJson

namespace Codec

variable {α : Type}

/-- What is read from a text, written anew. -/
def rewrite? (c : Codec α) (text : String) : Option String := (c.read? text).map c.write

/-- Whether a codec reads what has one of its forms, and nothing else, and writes all that is in
range in one of them. -/
structure RoundTrips (c : Codec α) (InRange : α → Prop) (IsForm : α → Value → Prop) : Prop where
  /-- What is written has a form. -/
  written : ∀ a, InRange a → ∃ v, IsForm a v ∧ v.IsText (c.write a)
  /-- What is written is read back. -/
  read_written : ∀ a, InRange a → c.read? (c.write a) = some a
  /-- A text is read as what it has a form of. -/
  read_iff : ∀ a text, c.read? text = some a ↔ ∃ v, IsForm a v ∧ v.IsText text
  /-- What has been read is written anew as a text that is read as the same, and that is written
  anew as it is. -/
  normalises : ∀ text a, c.read? text = some a →
    c.read? (c.write a) = some a ∧ c.rewrite? (c.write a) = some (c.write a)

end Codec

/-! ## Records -/

/-- The member that gives a field its value. -/
def member (field : String × Value) : Option String × Value := (some field.1, field.2)

/-- The values that list the fields of a record. -/
inductive Lists (fields : List (String × Value)) : Value → Prop where
  /-- The values of the fields in order. -/
  | array : Lists fields (.array (fields.map Prod.snd))
  /-- The fields in any order and among members with other keys. -/
  | object {members unknown : List (Option String × Value)} :
    (∀ m ∈ unknown, ∃ key, m.1 = some key ∧ key ∉ fields.map Prod.fst) →
      members.Perm (fields.map member ++ unknown) → Lists fields (.object members)

end Json

/-! ## Options -/

/-- The fields of options. -/
def Options.fields (o : Options) : List (String × Json.Value) :=
  [("strict_crlf", .bool o.strictCrlf)]

/-- The values that stand for options. -/
def Options.IsForm (o : Options) (v : Json.Value) : Prop := Json.Lists o.fields v

/-- Options in the form that a library gives them. -/
def Options.codec (L : Json.Library) : Json.Codec Options :=
  L.codec (Options.ofJson? L) (Options.toJson L)

/-! ## Progress -/

/-- Whether a progress counts what can be counted in words. -/
def Progress.FitsWords (p : Progress) : Prop :=
  p.valid < Decimal.wordLimit ∧ p.synchronizing < Decimal.wordLimit

/-- The fields of a progress. -/
def Progress.fields (p : Progress) : List (String × Json.Value) :=
  [("maximum_valid_bytes", .number (some p.valid)),
    ("synchronizing_literal_count", .number (some p.synchronizing))]

/-- The values that stand for a progress. -/
def Progress.IsForm (p : Progress) (v : Json.Value) : Prop := Json.Lists p.fields v

/-- A progress in the form that a library gives it. -/
def Progress.codec (L : Json.Library) : Json.Codec Progress :=
  L.codec (Progress.ofJson? L) (Progress.toJson L)

/-! ## Kinds -/

/-- The values that stand for a kind. -/
inductive Kind.IsForm (k : Kind) : Json.Value → Prop where
  | name : Kind.IsForm k (.string (some k.name))
  | member : Kind.IsForm k (.object [(some k.name, .null)])

/-- A kind in the form that a library gives it. -/
def Kind.codec (L : Json.Library) : Json.Codec Kind := L.codec (Kind.ofJson? L) (Kind.toJson L)

/-! ## Declarations -/

/-- The fields of a declaration, with a value that stands for its kind. -/
def Declaration.fields (d : Declaration) (kind : Json.Value) : List (String × Json.Value) :=
  [("length", .number (some d.length.toNat)), ("kind", kind), ("binary", .bool d.binary)]

/-- The values that stand for a declaration. -/
def Declaration.IsForm (d : Declaration) (v : Json.Value) : Prop :=
  ∃ kind, d.kind.IsForm kind ∧ Json.Lists (d.fields kind) v

/-- A declaration in the form that a library gives it. -/
def Declaration.codec (L : Json.Library) : Json.Codec Declaration :=
  L.codec (Declaration.ofJson? L) (Declaration.toJson L)

end StreamFraming
