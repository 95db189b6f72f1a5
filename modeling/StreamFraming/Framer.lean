import StreamFraming.Declaration
import StreamFraming.Event
import StreamFraming.Line
import StreamFraming.Misuse
import StreamFraming.Utf8

/-!
# Framer

A framer divides a stream into lines and literal payloads while the stream is still
arriving. It reads a buffer that its owner keeps: the octets received and not yet removed.
From one scan to the next it remembers how far the buffer is framed, how much payload is
still to come, and how much of the unfinished line it has searched already.

* `scan` frames all of the buffer that can be framed, and says how far that is, how many
  literals in it wait for a continuation, and what was recognised;
* `consume` tells the framer that its owner has removed octets from the buffer's start, and
  `tryConsume` refuses to if they are not framed.

A scan is made of turns, each of which frames the payload that is still to come and then one
line. A turn works on the octets from the cursor on, so that nothing before the cursor can
have a part in it.

Positions and counts are natural numbers. A declared length is below the word limit, and all
else is bounded by the length of the buffer, so that nothing here would need more than a word.
-/

namespace StreamFraming

/-- What is known of a stream between two scans. -/
structure Framer where
  /-- What ends a line. -/
  options : Options := {}
  /-- The number of octets from the buffer's start that are framed. -/
  cursor : Nat := 0
  /-- The number of payload octets of the current literal that are still to come. -/
  pending : Nat := 0
  /-- The number of octets from the cursor on that are known to hold no line end. -/
  probed : Nat := 0
deriving DecidableEq, Inhabited

/-- How far a buffer is framed, and how many synchronizing literals a scan has found. -/
structure Progress where
  /-- The number of octets from the buffer's start that are framed. -/
  valid : Nat
  /-- The number of synchronizing literals declared in what the scan has framed. -/
  synchronizing : Nat
deriving DecidableEq, Inhabited

/-- The outcome of a scan. -/
structure Scan where
  /-- The framer after the scan. -/
  framer : Framer
  /-- The number of synchronizing literals found. -/
  synchronizing : Nat
  /-- What was recognised, in order. -/
  log : List Event
deriving DecidableEq

/-- What a scan tells the owner of the buffer. -/
def Scan.progress (s : Scan) : Progress where
  valid := s.framer.cursor
  synchronizing := s.synchronizing

namespace Framer

/-- A framer at the start of a stream. -/
def start (o : Options) : Framer := { options := o }

/-- Forgets the stream and keeps the options. -/
def reset (f : Framer) : Framer := start f.options

/-- Whether payload is still to come. -/
def inLiteral (f : Framer) : Bool := 0 < f.pending

/-! ## Scanning -/

/-- The outcome of one turn of a scan. -/
inductive Turn where
  /-- Nothing more can be framed. -/
  | stop (f : Framer) (log : List Event)
  /-- A line is framed, and `rest` follows it. -/
  | next (f : Framer) (rest : Octets) (synchronizing : Nat) (log : List Event)

/-- Frames as much of the pending payload as `rest` holds. -/
def takePayload (f : Framer) (rest : Octets) : Framer :=
  let taken := (rest.take f.pending).length
  { f with cursor := f.cursor + taken, pending := f.pending - taken }

/-- Frames the line that `rest` starts with, after the events of `log`. -/
def takeLine (f : Framer) (rest : Octets) (log : List Event) : Turn :=
  match Line.find? f.options f.probed rest with
  | none => .stop { f with probed := rest.length } log
  | some extent =>
    let stop := f.cursor + extent.length
    let content := rest.take extent.content
    let after := rest.drop extent.length
    match Declaration.parse? content with
    | some d =>
      .next { f with cursor := stop, pending := d.length.toNat, probed := 0 } after
        d.continuations (log ++ [.declaration d stop])
    | none =>
      .next { f with cursor := stop, probed := 0 } after 0
        (log ++ [.line f.cursor stop (Utf8.display content)])

/-- Frames the pending payload and then one line of `rest`, the octets from the cursor on. -/
def turn (f : Framer) (rest : Octets) : Turn :=
  let g := f.takePayload rest
  if g.inLiteral then .stop g []
  else
    g.takeLine (rest.drop f.pending) (if f.inLiteral then [.payloadComplete g.cursor] else [])

/-- A line that is taken shortens what is left to scan. -/
theorem length_lt_of_takeLine {f g : Framer} {rest after : Octets} {n : Nat}
    {log log' : List Event} (h : f.takeLine rest log = .next g after n log') :
    after.length < rest.length := by
  rw [takeLine] at h
  split at h
  · exact nomatch h
  · next extent he =>
    have := Line.find?_bounds he
    dsimp only at h
    split at h <;>
    · injection h with _ ha
      rw [← ha, List.length_drop]
      omega

/-- Each turn that does not end the scan frames at least one octet. -/
theorem length_lt_of_turn {f g : Framer} {rest after : Octets} {n : Nat} {log : List Event}
    (h : f.turn rest = .next g after n log) : after.length < rest.length := by
  rw [turn] at h
  split at h
  · exact nomatch h
  · have := length_lt_of_takeLine h
    rw [List.length_drop] at this
    omega

/-- Takes turns on `rest` until nothing more can be framed. What the turns before have found
comes along, the latest event first. -/
def scanFrom (f : Framer) (rest : Octets) (synchronizing : Nat) (log : List Event) : Scan :=
  match _ : f.turn rest with
  | .stop g new => { framer := g, synchronizing, log := (new.reverse ++ log).reverse }
  | .next g after n new => scanFrom g after (synchronizing + n) (new.reverse ++ log)
termination_by rest.length
decreasing_by exact length_lt_of_turn ‹_›

/-- A turn that stops ends the scan with what the turn logged. -/
theorem scanFrom_of_stop {f g : Framer} {rest : Octets} {new : List Event}
    (h : f.turn rest = .stop g new) (n : Nat) (log : List Event) :
    f.scanFrom rest n log = { framer := g, synchronizing := n, log := log.reverse ++ new } := by
  rw [scanFrom]
  split
  · next h' =>
    rw [h] at h'
    injection h' with hg hn
    simp [hg, hn]
  · next h' => rw [h] at h'; exact nomatch h'

/-- A turn that goes on hands what is left, the count and the log to the next one. -/
theorem scanFrom_of_next {f g : Framer} {rest after : Octets} {k : Nat} {new : List Event}
    (h : f.turn rest = .next g after k new) (n : Nat) (log : List Event) :
    f.scanFrom rest n log = g.scanFrom after (n + k) (new.reverse ++ log) := by
  rw [scanFrom]
  split
  · next h' => rw [h] at h'; exact nomatch h'
  · next h' =>
    rw [h] at h'
    injection h' with hg ha hk hn
    rw [hg, ha, hk, hn]

/-- What the turns before have found only comes along. -/
theorem scanFrom_eq (f : Framer) (rest : Octets) (n : Nat) (log : List Event) :
    f.scanFrom rest n log =
      { framer := (f.scanFrom rest 0 []).framer
        synchronizing := n + (f.scanFrom rest 0 []).synchronizing
        log := log.reverse ++ (f.scanFrom rest 0 []).log } := by
  cases h : f.turn rest with
  | stop g new => simp [scanFrom_of_stop h]
  | next g after k new =>
    rw [scanFrom_of_next h n, scanFrom_of_next h 0, scanFrom_eq g after (n + k),
      scanFrom_eq g after (0 + k)]
    simp [Nat.add_assoc]
termination_by rest.length
decreasing_by all_goals exact length_lt_of_turn h

/-- Frames as much of `buffer` as can be framed. The buffer must hold, in order, all octets
received and not yet removed. -/
def scan (f : Framer) (buffer : Octets) : Scan := f.scanFrom (buffer.drop f.cursor) 0 []

/-! ## Consuming -/

/-- The framer of the buffer without its first `n` octets. Those beyond the cursor are taken
off the searched part of the line, as far as it goes. -/
def consume (f : Framer) (n : Nat) : Framer :=
  { f with cursor := f.cursor - n, probed := f.probed - (n - f.cursor) }

/-- As `consume`, for framed octets only. -/
def tryConsume (f : Framer) (n : Nat) : Attempt Framer :=
  if f.cursor < n then
    { result := .error (.consumeBeyondFrame n f.cursor), after := f, log := [] }
  else { result := .ok (), after := f.consume n, log := [] }

end Framer

end StreamFraming
