import StreamFraming.Decimal
import StreamFraming.Session

/-!
# Descriptions

The values of this library as text for whoever looks for a fault. A structure is described
by its name and its fields, in braces; a list is described in brackets.
-/

namespace StreamFraming

namespace Describe

/-- The description of a structure from the descriptions of its fields. -/
def record (name : String) (fields : List (String × String)) : String :=
  name ++ " \x7b " ++ ", ".intercalate (fields.map fun f => f.1 ++ ": " ++ f.2) ++ " \x7d"

/-- The description of a list from the descriptions of its elements. -/
def list (elements : List String) : String := "[" ++ ", ".intercalate elements ++ "]"

/-- The description of a truth value. -/
def bool (b : Bool) : String := if b then "true" else "false"

end Describe

open Describe

/-- The description of the options. -/
def Options.describe (o : Options) : String :=
  record "FramingOptions" [("strict_crlf", bool o.strictCrlf)]

/-- The description of a declaration. -/
def Declaration.describe (d : Declaration) : String :=
  record "LiteralDecl"
    [("length", Decimal.text d.length.toNat), ("kind", d.kind.name), ("binary", bool d.binary)]

/-- The description of a progress. -/
def Progress.describe (p : Progress) : String :=
  record "FramingResult"
    [("maximum_valid_bytes", Decimal.text p.valid),
      ("synchronizing_literal_count", Decimal.text p.synchronizing)]

/-- The description of a framer. -/
def Framer.describe (f : Framer) : String :=
  record "LiteralFramer"
    [("options", f.options.describe), ("cursor", Decimal.text f.cursor),
      ("literal_remaining", Decimal.text f.pending), ("line_probe", Decimal.text f.probed)]

/-- The description of a session. -/
def Session.describe (s : Session) : String :=
  record "FramedBuffer"
    [("bytes", list (s.bytes.map fun b => Decimal.text b.toNat)), ("framer", s.framer.describe),
      ("continuations_owed", Decimal.text s.owed)]

/-- The description of a misuse. -/
def Misuse.describe : Misuse → String
  | .consumeBeyondFrame requested framed =>
    record "ConsumeBeyondFrame"
      [("requested", Decimal.text requested), ("framed", Decimal.text framed)]
  | .noContinuationOwed => "NoContinuationOwed"

end StreamFraming
