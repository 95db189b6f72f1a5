import StreamFraming.Declaration

/-!
# Events

What framing reports as it goes: the declarations it recognises, the payloads it has seen
the end of, the ordinary lines, and what a receiver has consumed of its buffer. Positions
are counted from the start of the buffer as it is when the event happens.

`Event.record` is the form in which an event is written to a log.
-/

namespace StreamFraming

/-- Something that framing reports. -/
inductive Event where
  /-- A line that ends at `stop` declares a literal. -/
  | declaration (d : Declaration) (stop : Nat)
  /-- The payload of a literal ends at `stop`. -/
  | payloadComplete (stop : Nat)
  /-- An ordinary line, with the display of its content. -/
  | line (start stop : Nat) (text : String)
  /-- The first `count` octets were removed and `buffered` are left. -/
  | consumed (count buffered : Nat)
deriving DecidableEq

/-- How much a log record matters. -/
inductive Level where
  | debug
  | trace
deriving DecidableEq

/-- The name of a level. -/
def Level.name : Level → String
  | .debug => "DEBUG"
  | .trace => "TRACE"

/-- The value of a field of a log record. -/
inductive Field where
  | number (n : Nat)
  | flag (b : Bool)
  | text (s : String)

/-- A log record. -/
structure Record where
  level : Level
  message : String
  fields : List (String × Field)

namespace Event

/-- The event in a buffer with `n` more octets before it. -/
def shift (n : Nat) : Event → Event
  | .declaration d stop => .declaration d (stop + n)
  | .payloadComplete stop => .payloadComplete (stop + n)
  | .line start stop text => .line (start + n) (stop + n) text
  | .consumed count buffered => .consumed count buffered

/-- The log record of an event. -/
def record : Event → Record
  | .declaration d stop =>
    { level := .debug
      message := "literal declaration"
      fields := [("length", .number d.length.toNat), ("kind", .text d.kind.name),
        ("binary", .flag d.binary), ("end", .number stop)] }
  | .payloadComplete stop =>
    { level := .trace
      message := "literal payload complete"
      fields := [("end", .number stop)] }
  | .line start stop text =>
    { level := .trace
      message := "line"
      fields := [("start", .number start), ("end", .number stop), ("line", .text text)] }
  | .consumed count buffered =>
    { level := .trace
      message := "consumed"
      fields := [("consumed", .number count), ("buffered", .number buffered)] }

end Event

end StreamFraming
