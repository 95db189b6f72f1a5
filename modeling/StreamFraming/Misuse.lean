import StreamFraming.Event

/-!
# Misuse

What a receiver can do wrong. Framing itself never fails: octets that follow no rule are the
content of an ordinary line.

A request that can be refused comes to an `Attempt`. It says what the state is afterwards and what
was reported in any case, so that a refusal that changes nothing is something to prove.
-/

namespace StreamFraming

/-- A request that the state of the receiver does not allow. -/
inductive Misuse where
  /-- More octets were to be consumed than are framed. -/
  | consumeBeyondFrame (requested framed : Nat)
  /-- A continuation was acknowledged and none was owed. -/
  | noContinuationOwed
deriving DecidableEq

/-- What the requester is told. -/
def Misuse.message : Misuse → String
  | .consumeBeyondFrame requested framed =>
    "cannot consume " ++ Decimal.text requested ++ " bytes, only " ++ Decimal.text framed ++
      " are framed"
  | .noContinuationOwed => "no continuation is owed"

/-- What a request comes to that can be refused. -/
structure Attempt (σ : Type) where
  /-- Whether it was granted. -/
  result : Except Misuse Unit
  /-- The state after it, granted or refused. -/
  after : σ
  /-- What was reported, in order. -/
  log : List Event

end StreamFraming
