import StreamFraming.Session

/-!
# Histories of sessions

What a session has gone through, said of its requests: the stream that was fed, how much of
it was consumed, and how many continuations were acknowledged. Refused requests count for
nothing.

The events of a session are counted from the start of a buffer that loses its first octets
whenever some are consumed. `absolute` counts them from the start of the stream instead.
-/

namespace StreamFraming

/-- The events of a session counted from the start of the stream, of which `removed` octets
were consumed before. The consuming itself is left out. -/
def Event.absolute (removed : Nat) : List Event → List Event
  | [] => []
  | .consumed count _ :: log => absolute (removed + count) log
  | e :: log => e.shift removed :: absolute removed log

namespace Session

/-- The octets that a request brings. -/
def Request.received : Request → Octets
  | .feed received => received
  | .consume _ => []
  | .acknowledge => []

/-- The stream that requests bring. -/
def stream (requests : List Request) : Octets := requests.flatMap Request.received

/-- The number of octets that a request consumes. -/
def removal (s : Session) : Request → Nat
  | .consume n => if n ≤ s.framer.cursor then n else 0
  | _ => 0

/-- The number of octets that requests consume. -/
def removals (s : Session) : List Request → Nat
  | [] => 0
  | r :: requests => s.removal r + (s.handle r).session.removals requests

/-- The number of continuations that a request acknowledges. -/
def acknowledgement (s : Session) : Request → Nat
  | .acknowledge => if 0 < s.owed then 1 else 0
  | _ => 0

/-- The number of continuations that requests acknowledge. -/
def acknowledgements (s : Session) : List Request → Nat
  | [] => 0
  | r :: requests => s.acknowledgement r + (s.handle r).session.acknowledgements requests

/-- The events of requests, in order. -/
def log (s : Session) (requests : List Request) : List Event :=
  (s.outcomes requests).flatMap Outcome.log

end Session

end StreamFraming
