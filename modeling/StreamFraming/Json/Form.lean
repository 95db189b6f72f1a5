import StreamFraming.Framer
import StreamFraming.Json.Library

/-!
# The JSON form of records

Options, progress, kinds and declarations as a library of JSON reads and writes them. Each is
declared to the library: a record by the names of its fields in order, with what each field is read
and written as, and the enumeration of kinds by their names.
-/

namespace StreamFraming

/-- The names of the kinds. -/
def Kind.names : List String := [Kind.synchronizing.name, Kind.nonSynchronizing.name]

variable (L : Json.Library)

/-- The kind that a JSON value is read as. -/
def Kind.ofJson? (v : Json.Value) : Option Kind := (L.variant? Kind.names v).bind Kind.ofName?

/-- The options that a JSON value is read as. -/
def Options.ofJson? (v : Json.Value) : Option Options :=
  match L.fields? ["strict_crlf"] v with
  | some [strict] => do pure { strictCrlf := ← L.bool? strict }
  | _ => none

/-- The progress that a JSON value is read as. -/
def Progress.ofJson? (v : Json.Value) : Option Progress :=
  match L.fields? ["maximum_valid_bytes", "synchronizing_literal_count"] v with
  | some [valid, count] =>
    do pure { valid := ← L.natural? valid, synchronizing := ← L.natural? count }
  | _ => none

/-- The declaration that a JSON value is read as. -/
def Declaration.ofJson? (v : Json.Value) : Option Declaration :=
  match L.fields? ["length", "kind", "binary"] v with
  | some [length, kind, binary] => do
    pure
      { length := UInt64.ofNat (← L.natural? length)
        kind := ← Kind.ofJson? L kind
        binary := ← L.bool? binary }
  | _ => none

/-- The JSON text of a kind. -/
def Kind.toJson (k : Kind) : String := L.writeVariant k.name

/-- The JSON text of options. -/
def Options.toJson (o : Options) : String :=
  L.writeFields [("strict_crlf", L.writeBool o.strictCrlf)]

/-- The JSON text of a progress. -/
def Progress.toJson (p : Progress) : String :=
  L.writeFields
    [("maximum_valid_bytes", L.writeNatural p.valid),
      ("synchronizing_literal_count", L.writeNatural p.synchronizing)]

/-- The JSON text of a declaration. -/
def Declaration.toJson (d : Declaration) : String :=
  L.writeFields
    [("length", L.writeNatural d.length.toNat), ("kind", d.kind.toJson L),
      ("binary", L.writeBool d.binary)]

end StreamFraming
