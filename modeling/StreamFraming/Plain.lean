import StreamFraming.Window

/-!
# Framing without a probe

A plain framer does what a framer does but does not remember how much of the unfinished line it
has searched: every scan searches that line from its start again. It says what the probe of a
`Framer` must not change.

Both are driven by the operations of an owner who keeps the buffer as it is to be kept
(`Operation`), and both report what the owner gets to see of each of them (`Report`).
-/

namespace StreamFraming

/-- What a framer without a probe knows of a stream between two scans. -/
structure PlainFramer where
  /-- What ends a line. -/
  options : Options := {}
  /-- The number of octets from the buffer's start that are framed. -/
  cursor : Nat := 0
  /-- The number of payload octets of the current literal that are still to come. -/
  pending : Nat := 0
deriving DecidableEq, Inhabited

/-- The outcome of a scan without a probe. -/
structure PlainScan where
  /-- The framer after the scan. -/
  framer : PlainFramer
  /-- The number of synchronizing literals found. -/
  synchronizing : Nat
  /-- What was recognised, in order. -/
  log : List Event
deriving DecidableEq

namespace PlainScan

/-- What a scan tells the owner of the buffer. -/
def progress (s : PlainScan) : Progress where
  valid := s.framer.cursor
  synchronizing := s.synchronizing

/-- A scan together with what was found before it. -/
def following (s : PlainScan) (synchronizing : Nat) (log : List Event) : PlainScan where
  framer := s.framer
  synchronizing := synchronizing + s.synchronizing
  log := log ++ s.log

end PlainScan

namespace PlainFramer

/-- A framer at the start of a stream. -/
def start (o : Options) : PlainFramer := { options := o }

/-- Forgets the stream and keeps the options. -/
def reset (f : PlainFramer) : PlainFramer := start f.options

/-- Frames as much of the pending payload as `rest` holds. -/
def takePayload (f : PlainFramer) (rest : Octets) : PlainFramer :=
  let taken := (rest.take f.pending).length
  { f with cursor := f.cursor + taken, pending := f.pending - taken }

/-- What the line that `rest` starts with comes to: the framer behind it, the number of
continuations that it makes the receiver owe, and its report. -/
def takeLine (f : PlainFramer) (rest : Octets) (extent : Line.Extent) :
    PlainFramer × Nat × Event :=
  let stop := f.cursor + extent.length
  let content := rest.take extent.content
  match Declaration.parse? content with
  | some d =>
    ({ f with cursor := stop, pending := d.length.toNat }, d.continuations, .declaration d stop)
  | none => ({ f with cursor := stop }, 0, .line f.cursor stop (Utf8.display content))

/-- Frames as much of `rest`, the octets from the cursor on, as can be framed: the pending
payload, then one line, then what follows the line in the same way. Each line is searched from
its start. -/
def scanFrom (f : PlainFramer) (rest : Octets) : PlainScan :=
  let g := f.takePayload rest
  if 0 < g.pending then { framer := g, synchronizing := 0, log := [] }
  else
    let line := rest.drop f.pending
    let completed := if 0 < f.pending then [.payloadComplete g.cursor] else []
    match _ : Line.search f.options 0 none line with
    | none => { framer := g, synchronizing := 0, log := completed }
    | some extent =>
      let (behind, continuations, event) := g.takeLine line extent
      (scanFrom behind (line.drop extent.length)).following continuations (completed ++ [event])
termination_by rest.length
decreasing_by
  have := Line.search_bounds ‹_›
  simp only [line, List.length_drop] at this ⊢
  omega

theorem scanFrom_of_search_eq_none {f : PlainFramer} {rest : Octets}
    (hp : (f.takePayload rest).pending = 0)
    (hs : Line.search f.options 0 none (rest.drop f.pending) = none) :
    f.scanFrom rest =
      { framer := f.takePayload rest
        synchronizing := 0
        log := if 0 < f.pending then [.payloadComplete (f.takePayload rest).cursor] else [] } := by
  rw [scanFrom]
  simp only [hp, Nat.lt_irrefl, if_false]
  split
  · rfl
  · next hs' =>
    rw [hs] at hs'
    exact nomatch hs'

/-- A plain scan that finds a terminator takes the line and scans on behind it. -/
theorem scanFrom_of_search_eq_some {f behind : PlainFramer} {rest : Octets} {e : Line.Extent}
    {continuations : Nat} {event : Event} (hp : (f.takePayload rest).pending = 0)
    (hs : Line.search f.options 0 none (rest.drop f.pending) = some e)
    (hl : (f.takePayload rest).takeLine (rest.drop f.pending) e = (behind, continuations, event)) :
    f.scanFrom rest =
      (behind.scanFrom ((rest.drop f.pending).drop e.length)).following continuations
        ((if 0 < f.pending then [.payloadComplete (f.takePayload rest).cursor] else []) ++
          [event]) := by
  rw [scanFrom]
  simp only [hp, Nat.lt_irrefl, if_false]
  split
  · next hs' =>
    rw [hs] at hs'
    exact nomatch hs'
  · next hs' =>
    rw [hs] at hs'
    injection hs' with he
    rw [← he, hl]

/-- Frames as much of `buffer` as can be framed. -/
def scan (f : PlainFramer) (buffer : Octets) : PlainScan := f.scanFrom (buffer.drop f.cursor)

/-- The framer of the buffer without its first `n` octets. -/
def consume (f : PlainFramer) (n : Nat) : PlainFramer := { f with cursor := f.cursor - n }

end PlainFramer

/-- A plain framer and its buffer. -/
structure PlainWindow where
  framer : PlainFramer
  /-- The octets received and not yet removed. -/
  held : Octets := []
deriving DecidableEq

/-! ## Operations -/

/-- What the owner of a buffer does. -/
inductive Operation where
  /-- Appends octets and has the buffer scanned. -/
  | receive (received : Octets)
  /-- Removes the first `n` octets, framed or not, and has them consumed. -/
  | remove (n : Nat)
  /-- Empties the buffer and has the stream forgotten. -/
  | reset
deriving DecidableEq

/-- What an owner gets to see of an operation. -/
structure Report where
  /-- What a scan tells. -/
  progress : Option Progress := none
  /-- What was recognised, in order. -/
  log : List Event := []
deriving DecidableEq

/-- Performs an operation on a window. -/
def Window.perform (w : Window) : Operation → Window × Report
  | .receive received =>
    let (after, scan) := w.receive received
    (after, { progress := some scan.progress, log := scan.log })
  | .remove n => (w.remove n, {})
  | .reset => (w.reset, {})

namespace PlainWindow

/-- The window at the start of a stream. -/
def start (o : Options) : PlainWindow := { framer := PlainFramer.start o }

/-- Performs an operation on a window without a probe. -/
def perform (w : PlainWindow) : Operation → PlainWindow × Report
  | .receive received =>
    let held := w.held ++ received
    let scan := w.framer.scan held
    ({ framer := scan.framer, held }, { progress := some scan.progress, log := scan.log })
  | .remove n => ({ framer := w.framer.consume n, held := w.held.drop n }, {})
  | .reset => ({ framer := w.framer.reset }, {})

end PlainWindow

/-- Performs operations one after the other. -/
def Operation.performAll {σ : Type} (perform : σ → Operation → σ × Report) (s : σ) :
    List Operation → σ × List Report
  | [] => (s, [])
  | operation :: operations =>
    let (next, report) := perform s operation
    let (last, reports) := performAll perform next operations
    (last, report :: reports)

end StreamFraming
