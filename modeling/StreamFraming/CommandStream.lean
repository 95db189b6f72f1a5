import StreamFraming.Declaration.Spelling
import StreamFraming.Event
import StreamFraming.Options
import StreamFraming.Utf8

/-!
# Command streams

What a sender writes: ordinary lines, and lines that announce a literal with its payload.
`encode` gives the octets of a stream and `log` the events that framing them is to report.

Not every segment can be told from its octets. A text with a line's end in it is cut there,
a text that ends in a declaration announces a literal, and a carriage return before a bare
line feed is taken for a part of the line's end. `Segment.IsClear` says that none of this
happens.
-/

namespace StreamFraming

/-- The end of a line. -/
inductive Ending where
  | lf
  | crlf
deriving DecidableEq

/-- The octets of a line's end. -/
def Ending.octets : Ending → Octets
  | .lf => [Octet.lf]
  | .crlf => [Octet.cr, Octet.lf]

/-- A part of a command stream. -/
inductive Segment where
  /-- An ordinary line. -/
  | line (text : Octets) (ending : Ending)
  /-- A line that declares a literal after `text`, with the literal's payload. -/
  | literal (text : Octets) (kind : Kind) (binary : Bool) (ending : Ending) (payload : Octets)
deriving DecidableEq

namespace Segment

/-- The declaration of a literal with this payload. -/
def declare (kind : Kind) (binary : Bool) (payload : Octets) : Declaration where
  length := UInt64.ofNat payload.length
  kind := kind
  binary := binary

/-- The line of a segment with its end. -/
def header : Segment → Octets
  | .line text ending => text ++ ending.octets
  | .literal text kind binary ending payload =>
    text ++ (declare kind binary payload).write ++ ending.octets

/-- The payload of a segment. -/
def payload : Segment → Octets
  | .line _ _ => []
  | .literal _ _ _ _ payload => payload

/-- The octets of a segment. -/
def encode (s : Segment) : Octets := s.header ++ s.payload

/-- The number of continuations that a segment makes its receiver owe. -/
def continuations : Segment → Nat
  | .line _ _ => 0
  | .literal _ kind binary _ payload => (declare kind binary payload).continuations

/-- Whether a text holds no end of a line. -/
def Unbroken (o : Options) (text : Octets) : Prop :=
  if o.strictCrlf then ¬[Octet.cr, Octet.lf] <:+: text else Octet.lf ∉ text

/-- Whether a line's end is one, and none of the text goes with it. -/
def Ends (o : Options) (text : Octets) : Ending → Prop
  | .lf => o.strictCrlf = false ∧ text.getLast? ≠ some Octet.cr
  | .crlf => True

/-- Whether a segment can be told from its octets. -/
def IsClear (o : Options) : Segment → Prop
  | .line text ending =>
    Unbroken o text ∧ Ends o text ending ∧ Declaration.parse? text = none
  | .literal text _ binary ending _ =>
    Unbroken o text ∧ Ends o [] ending ∧ (binary = false → text.getLast? ≠ some Octet.tilde)

/-- The events of framing a segment that starts at `start`. -/
def log (start : Nat) (s : Segment) : List Event :=
  let stop := start + s.header.length
  match s with
  | .line text _ => [.line start stop (Utf8.display text)]
  | .literal _ kind binary _ payload =>
    .declaration (declare kind binary payload) stop ::
      (if payload = [] then [] else [.payloadComplete (stop + payload.length)])

end Segment

namespace CommandStream

/-- The octets of a stream. -/
def encode (segments : List Segment) : Octets := segments.flatMap Segment.encode

/-- The number of continuations that a stream makes its receiver owe. -/
def continuations : List Segment → Nat
  | [] => 0
  | s :: segments => s.continuations + continuations segments

/-- The events of framing a stream that starts at `start`. -/
def log (start : Nat) : List Segment → List Event
  | [] => []
  | s :: segments => s.log start ++ log (start + s.encode.length) segments

end CommandStream

end StreamFraming
