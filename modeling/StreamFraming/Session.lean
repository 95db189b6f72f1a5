import StreamFraming.Framer

/-!
# Sessions

A session owns the buffer that a framer reads. It appends what is received, removes what a
decoder is done with, and counts the continuations that the receiver owes: one for each
synchronizing literal that was framed, less those acknowledged.

Each operation is a function on sessions; `Session.handle` answers requests in order, with a
reply and the events that happened. A request that is refused gives the session after it and the
events as any other does.
-/

namespace StreamFraming

/-- A receiver's buffer, framed as it fills. -/
structure Session where
  /-- The octets received and not yet consumed. -/
  bytes : Octets := []
  /-- The framer of `bytes`. -/
  framer : Framer := {}
  /-- The number of continuations owed and not yet acknowledged. -/
  owed : Nat := 0
deriving DecidableEq, Inhabited

namespace Session

/-- A session before anything is received. -/
def start (o : Options) : Session := { framer := Framer.start o }

/-- The octets that a decoder may read: all that are framed. -/
def decodable (s : Session) : Octets := s.bytes.take s.framer.cursor

/-- Receives octets. The outcome of the scan comes with the session after it. -/
def feed (s : Session) (received : Octets) : Session × Scan :=
  let bytes := s.bytes ++ received
  let scan := s.framer.scan bytes
  ({ bytes, framer := scan.framer, owed := s.owed + scan.progress.synchronizing }, scan)

/-- Receives chunks one after the other. -/
def feedAll (s : Session) : List Octets → Session × List Scan
  | [] => (s, [])
  | chunk :: chunks =>
    let (first, scan) := s.feed chunk
    let (last, scans) := first.feedAll chunks
    (last, scan :: scans)

/-- Removes the first `n` octets, which must be framed: first from what the framer counts, and
then, if the framer grants it, from the buffer. -/
def consume (s : Session) (n : Nat) : Attempt Session :=
  let attempt := s.framer.tryConsume n
  let s := { s with framer := attempt.after }
  match attempt.result with
  | .error m => { result := .error m, after := s, log := attempt.log }
  | .ok () =>
    let bytes := s.bytes.drop n
    { result := .ok ()
      after := { s with bytes }
      log := attempt.log ++ [.consumed n bytes.length] }

/-- Counts one continuation as sent. -/
def acknowledge (s : Session) : Attempt Session :=
  match s.owed with
  | 0 => { result := .error .noContinuationOwed, after := s, log := [] }
  | owed + 1 => { result := .ok (), after := { s with owed }, log := [] }

/-! ## Requests -/

/-- What the owner of a session can ask for. -/
inductive Request where
  | feed (received : Octets)
  | consume (n : Nat)
  | acknowledge
deriving DecidableEq

/-- What a session answers. -/
inductive Reply where
  | progress (p : Progress)
  | done
  | refused (m : Misuse)
deriving DecidableEq

/-- What a request comes to. -/
structure Outcome where
  session : Session
  reply : Reply
  log : List Event
deriving DecidableEq

/-- What an attempt is answered with. -/
def Reply.ofResult : Except Misuse Unit → Reply
  | .error m => .refused m
  | .ok () => .done

/-- What a request comes to that can be refused. -/
def Outcome.ofAttempt (a : Attempt Session) : Outcome :=
  { session := a.after, reply := .ofResult a.result, log := a.log }

/-- Answers one request. -/
def handle (s : Session) : Request → Outcome
  | .feed received =>
    let (session, scan) := s.feed received
    { session, reply := .progress scan.progress, log := scan.log }
  | .consume n => .ofAttempt (s.consume n)
  | .acknowledge => .ofAttempt s.acknowledge

/-- The session after some requests. -/
def after (s : Session) (requests : List Request) : Session :=
  requests.foldl (fun s r => (s.handle r).session) s

/-- The outcomes of some requests, in order. -/
def outcomes (s : Session) : List Request → List Outcome
  | [] => []
  | r :: requests => s.handle r :: (s.handle r).session.outcomes requests

end Session

end StreamFraming
