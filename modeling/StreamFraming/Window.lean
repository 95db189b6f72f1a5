import StreamFraming.Framer

/-!
# Windows

A framer together with the buffer that its owner keeps for it, as the owner is to keep it:
what is received is appended, and what is removed from the buffer's start is consumed by the
framer.
-/

namespace StreamFraming

/-- A framer and its buffer. -/
structure Window where
  framer : Framer
  /-- The octets received and not yet removed. -/
  held : Octets := []
deriving DecidableEq

namespace Window

/-- The window at the start of a stream. -/
def start (o : Options) : Window := { framer := Framer.start o }

/-- Receives octets without framing them. -/
def append (w : Window) (received : Octets) : Window := { w with held := w.held ++ received }

/-- Frames what is held. -/
def scan (w : Window) : Window × Scan :=
  let s := w.framer.scan w.held
  ({ w with framer := s.framer }, s)

/-- Receives octets and frames what is held. -/
def receive (w : Window) (received : Octets) : Window × Scan := (w.append received).scan

/-- Receives chunks one after the other and frames what is held after each. -/
def receiveAll (w : Window) : List Octets → Window × List Scan
  | [] => (w, [])
  | chunk :: chunks =>
    let (first, scan) := w.receive chunk
    let (last, scans) := first.receiveAll chunks
    (last, scan :: scans)

/-- Removes the first `n` octets, framed or not. -/
def remove (w : Window) (n : Nat) : Window where
  framer := w.framer.consume n
  held := w.held.drop n

/-- Forgets the stream. -/
def reset (w : Window) : Window := { framer := w.framer.reset }

/-- The windows that an owner can come to have. -/
inductive Reachable (o : Options) : Window → Prop where
  | start : Reachable o (start o)
  | append {w : Window} (received : Octets) : Reachable o w → Reachable o (w.append received)
  | scan {w : Window} : Reachable o w → Reachable o w.scan.1
  | remove {w : Window} (n : Nat) : Reachable o w → Reachable o (w.remove n)
  | reset {w : Window} : Reachable o w → Reachable o w.reset

end Window

end StreamFraming
