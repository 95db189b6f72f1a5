import StreamFraming.Machine.Operation
import StreamFraming.Partition
import StreamFraming.Session

/-!
# Cross-check

The same data is framed in three ways: by one scan of the whole, by a framer that scans the
data as it grows chunk by chunk, and by a session that is fed the chunks and consumes a part
of what is framed after each of them. The three must agree on how far the data is framed and
on how many synchronizing literals it holds.

`CrossCheck.run` returns the events of all three, or the first disagreement it meets.
-/

namespace StreamFraming.CrossCheck

/-- The data of a cross-check and the way it is taken in. -/
structure Input where
  /-- What ends a line. -/
  options : Options
  /-- The stream. -/
  data : Octets
  /-- The sizes of the chunks. -/
  splits : List UInt16
  /-- How much to consume after each chunk, from the start again when they run out. Each
  number is taken modulo one more than what can be consumed. -/
  consumes : List UInt16

/-- The chunks that the data arrives in. -/
def Input.chunks (i : Input) : List Octets := Partition.chunks i.data (i.splits.map UInt16.toNat)

/-- The number that says how much to consume after chunk `k`, counted from zero. -/
def Input.consumeAfter (i : Input) (k : Nat) : Nat :=
  (i.consumes[k % i.consumes.length]?.getD 0).toNat

/-- Two ways of framing that do not agree. -/
inductive Disagreement where
  /-- The scan of the whole frames more than there is. -/
  | wholeBeyondData
  /-- The growing part cannot be taken from the data. -/
  | partFails (fault : Fault)
  /-- A scan of a growing part frames more than the part. -/
  | partBeyondItself
  /-- The session and the framer of the growing part stand at different places. -/
  | sessionElsewhere
  /-- The session refuses to consume what it has framed. -/
  | consumeRefused (m : Misuse)
  /-- The growing part, now whole, is framed up to another place than the whole. -/
  | endElsewhere
  /-- The parts hold another number of synchronizing literals than the whole. -/
  | countsDiffer
  /-- The last scan of the growing part finds more than the whole holds. -/
  | lastCountsMore
  /-- The session owes another number of continuations. -/
  | owedDiffers
deriving DecidableEq

/-- A cross-check under way. -/
structure State where
  /-- The framer of the growing part. -/
  framer : Framer
  /-- The session that is fed the chunks. -/
  session : Session
  /-- The number of octets that arrived. -/
  arrived : Nat := 0
  /-- The number of chunks that arrived. -/
  turns : Nat := 0
  /-- The number of octets that the session has consumed. -/
  consumed : Nat := 0
  /-- The number of synchronizing literals found in the growing part. -/
  found : Nat := 0
  /-- The events, the latest first. -/
  log : List Event := []

/-- Takes in one chunk. -/
def State.step (i : Input) (s : State) (chunk : Octets) : Except Disagreement State :=
  let arrived := s.arrived + chunk.length
  match Machine.slice i.data 0 arrived with
  | .error fault => .error (.partFails fault)
  | .ok part =>
    let scan := s.framer.scan part
    let (fed, feeding) := s.session.feed chunk
    let n := i.consumeAfter s.turns % (feeding.progress.valid + 1)
    let consuming := fed.consume n
    if arrived < scan.progress.valid then .error .partBeyondItself
    else if s.consumed + feeding.progress.valid ≠ scan.progress.valid then .error .sessionElsewhere
    else
      match consuming.result with
      | .error m => .error (.consumeRefused m)
      | .ok () =>
        .ok
          { framer := scan.framer
            session := consuming.after
            arrived
            turns := s.turns + 1
            consumed := s.consumed + n
            found := s.found + scan.progress.synchronizing
            log := (scan.log ++ feeding.log ++ consuming.log).reverse ++ s.log }

/-- Compares the growing part, once it is all there, with the scan of the whole. -/
def State.finish (i : Input) (whole : Scan) (s : State) : Except Disagreement (List Event) :=
  let last := s.framer.scan i.data
  if last.progress.valid ≠ whole.progress.valid then .error .endElsewhere
  else if s.found + last.progress.synchronizing ≠ whole.progress.synchronizing then
    .error .countsDiffer
  else if whole.progress.synchronizing < last.progress.synchronizing then .error .lastCountsMore
  else if s.session.owed ≠ whole.progress.synchronizing - last.progress.synchronizing then
    .error .owedDiffers
  else .ok (s.log.reverse ++ last.log)

/-- Frames the data in all three ways and compares. -/
def run (i : Input) : Except Disagreement (List Event) :=
  let whole := (Framer.start i.options).scan i.data
  if i.data.length < whole.progress.valid then .error .wholeBeyondData
  else
    match i.chunks.foldlM (State.step i)
        { framer := Framer.start i.options
          session := Session.start i.options
          log := whole.log.reverse } with
    | .error d => .error d
    | .ok s => s.finish i whole

end StreamFraming.CrossCheck
