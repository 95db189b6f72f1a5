import StreamFraming.Octet
import StreamFraming.Decimal

/-!
# Literal declarations

A line may announce that the octets after it are the payload of a literal. It then ends in
a declaration: an opening brace, the payload's length in decimal digits, a plus sign if the
sender does not wait for leave to go on, and a closing brace. A tilde before the opening
brace marks the payload as binary. Whatever stands before that is not looked at.

`Declaration.parse?` reads the declaration off the end of a line. The module
`StreamFraming.Declaration.Spelling` says which lines end in which declaration.
-/

namespace StreamFraming

/-- Whether the sender of a literal waits for leave to send its payload. -/
inductive Kind where
  /-- The sender waits, so the receiver owes it a continuation. -/
  | synchronizing
  /-- The payload follows at once. -/
  | nonSynchronizing
deriving DecidableEq, Inhabited

/-- The name that texts about a literal give to its kind. -/
def Kind.name : Kind → String
  | .synchronizing => "Synchronizing"
  | .nonSynchronizing => "NonSynchronizing"

/-- The kind that has a name. -/
def Kind.ofName? (name : String) : Option Kind :=
  if name = Kind.synchronizing.name then some .synchronizing
  else if name = Kind.nonSynchronizing.name then some .nonSynchronizing
  else none

/-- A name belongs to one kind only, the kind it is written for. -/
theorem Kind.ofName?_eq_some_iff {name : String} {k : Kind} :
    Kind.ofName? name = some k ↔ name = k.name := by
  rw [Kind.ofName?]
  split
  · next h => cases k <;> simp [h, Kind.name]
  · next h =>
    split
    · next h' => cases k <;> simp [h', Kind.name]
    · next h' => cases k <;> simp_all

/-- An announced literal. -/
structure Declaration where
  /-- The number of octets of the payload. -/
  length : UInt64
  /-- Whether the sender waits before it sends the payload. -/
  kind : Kind
  /-- Whether the payload may hold any octet. -/
  binary : Bool
deriving DecidableEq, Inhabited

namespace Declaration

/-- Whether the sender waits for a continuation before it sends the payload. -/
def isSynchronizing (d : Declaration) : Bool := d.kind = .synchronizing

/-- The number of continuations that a declaration makes the receiver owe. -/
def continuations (d : Declaration) : Nat := if d.isSynchronizing then 1 else 0

/-! ## Reading

The text before a declaration is arbitrary and may hold braces itself, so a declaration is
read from the right. The functions here take the octets of the line last first.
-/

/-- Takes the mark of the kind off, and returns the kind with the octets before the mark. -/
def splitKind : Octets → Kind × Octets
  | [] => (.synchronizing, [])
  | b :: before =>
    if b = Octet.plus then (.nonSynchronizing, before) else (.synchronizing, b :: before)

/-- Reads a length with its opening brace, and all that stands before them. -/
def readLength? (kind : Kind) (reversed : Octets) : Option Declaration :=
  let digits := (reversed.takeWhile Octet.isDigit).reverse
  match reversed.dropWhile Octet.isDigit with
  | [] => none
  | b :: before =>
    if b = Octet.openBrace ∧ digits ≠ [] then
      (Decimal.readBelow? Decimal.wordLimit (digits.map Octet.digitValue)).map fun n =>
        { length := UInt64.ofNat n, kind, binary := before.head? = some Octet.tilde }
    else none

/-- Reads a declaration, the octets coming last first. -/
def readReversed? : Octets → Option Declaration
  | [] => none
  | b :: body =>
    if b = Octet.closeBrace then readLength? (splitKind body).1 (splitKind body).2 else none

/-- The declaration that a line ends in. -/
def parse? (line : Octets) : Option Declaration := readReversed? line.reverse

/-- The number of different declarations among those that lines end in. -/
def countDistinct (lines : List Octets) : Nat := (lines.filterMap parse?).eraseDups.length

end Declaration

end StreamFraming
