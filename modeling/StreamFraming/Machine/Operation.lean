import StreamFraming.Decimal
import StreamFraming.Octet

/-!
# Operations that can fail

A machine that has words of 64 bits and reads octets by positions cannot go on when a number
does not fit a word, when more is taken off a number than there is, when an octet is read that
is not there, or when bounds leave no number between them. The operations here have a result, or
else the `Fault` that stops the machine.
-/

namespace StreamFraming

/-- Why a machine cannot go on. -/
inductive Fault where
  /-- A number does not fit a word. -/
  | overflow
  /-- More is taken off a number than there is. -/
  | underflow
  /-- Octets are read that are not there. -/
  | outOfRange
  /-- The buffer does not reach as far as the cursor. -/
  | shrunk
  /-- The lower of two bounds is above the upper one. -/
  | crossed
deriving DecidableEq

namespace Machine

/-- The sum of two words. -/
def add (a b : Nat) : Except Fault Nat :=
  if a + b < Decimal.wordLimit then .ok (a + b) else .error .overflow

/-- The difference of two words. -/
def sub (a b : Nat) : Except Fault Nat := if b ≤ a then .ok (a - b) else .error .underflow

/-- The word that a number is. -/
def word (n : Nat) : Except Fault Nat :=
  if n < Decimal.wordLimit then .ok n else .error .overflow

/-- The octet at a position. -/
def octetAt (octets : Octets) (i : Nat) : Except Fault UInt8 :=
  match octets[i]? with
  | some b => .ok b
  | none => .error .outOfRange

/-- The octets between two positions. -/
def slice (octets : Octets) (start stop : Nat) : Except Fault Octets :=
  if start ≤ stop ∧ stop ≤ octets.length then .ok ((octets.take stop).drop start)
  else .error .outOfRange

/-- The octets before a position and those from it on. -/
def splitAt (octets : Octets) (i : Nat) : Except Fault (Octets × Octets) :=
  if i ≤ octets.length then .ok (octets.take i, octets.drop i) else .error .outOfRange

/-- The number closest to `n` that is between two bounds. -/
def clamp (n low high : Nat) : Except Fault Nat :=
  if high < low then .error .crossed
  else if n < low then .ok low
  else if high < n then .ok high
  else .ok n

@[simp] theorem ok_bind {α β : Type} (a : α) (f : α → Except Fault β) :
    Except.ok a >>= f = f a := rfl

/-- A sequence that succeeds is two steps that succeed. -/
theorem exists_of_bind_eq_ok {α β : Type} {x : Except Fault α} {f : α → Except Fault β} {b : β}
    (h : x >>= f = .ok b) : ∃ a, x = .ok a ∧ f a = .ok b := by
  cases x with
  | error fault => exact nomatch h
  | ok a => exact ⟨a, rfl, h⟩

theorem add_of_lt {a b : Nat} (h : a + b < Decimal.wordLimit) : add a b = .ok (a + b) := if_pos h

theorem eq_of_add_eq_ok {a b n : Nat} (h : add a b = .ok n) : n = a + b := by
  unfold add at h
  split at h
  · exact (Except.ok.inj h).symm
  · exact nomatch h

theorem sub_of_le {a b : Nat} (h : b ≤ a) : sub a b = .ok (a - b) := if_pos h

theorem word_of_lt {n : Nat} (h : n < Decimal.wordLimit) : word n = .ok n := if_pos h

theorem octetAt_of_getElem? {octets : Octets} {i : Nat} {b : UInt8} (h : octets[i]? = some b) :
    octetAt octets i = .ok b := by
  unfold octetAt
  rw [h]

/-- A slice whose bounds are in order and inside the octets is `take` and `drop`. -/
theorem slice_of_le {octets : Octets} {start stop : Nat} (h : start ≤ stop)
    (hs : stop ≤ octets.length) : slice octets start stop = .ok ((octets.take stop).drop start) :=
  if_pos ⟨h, hs⟩

/-- A cut inside the octets is `take` and `drop`. -/
theorem splitAt_of_le {octets : Octets} {i : Nat} (h : i ≤ octets.length) :
    splitAt octets i = .ok (octets.take i, octets.drop i) := if_pos h

/-- Clamping succeeds where the two limits are in order. -/
theorem clamp_of_le {low high : Nat} (h : low ≤ high) (n : Nat) :
    clamp n low high = .ok (min (max n low) high) := by
  unfold clamp
  rw [if_neg (Nat.not_lt_of_le h)]
  split
  · congr 1
    omega
  · split <;>
    · congr 1
      omega

/-- Whether `b` stands right before position `i`, looking no further back than `start`. -/
def follows (b : UInt8) (octets : Octets) (start i : Nat) : Except Fault Bool :=
  if start < i then do
    let before ← sub i 1
    let c ← octetAt octets before
    .ok (c == b)
  else .ok false

end Machine

end StreamFraming
