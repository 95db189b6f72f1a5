import StreamFraming.Declaration

/-!
# How declarations are spelled

The lines that end in a declaration, said without reading them. A line is taken apart into
what it holds before the opening brace, the digits of the length, and the mark of the kind;
`Spelling.octets` puts the line together again and `Spelling.Denotes` says which declaration
it is. The length may have leading zeros and any number of digits, and is below the word
limit.
-/

namespace StreamFraming

/-- What a declaration holds between its length and its closing brace. -/
def Kind.mark : Kind → Octets
  | .synchronizing => []
  | .nonSynchronizing => [Octet.plus]

namespace Declaration

/-- The parts of a line that ends in a declaration. -/
structure Spelling where
  /-- What stands before the opening brace. -/
  lead : Octets
  /-- The digits of the length. -/
  digits : Octets
  /-- The kind that the mark stands for. -/
  kind : Kind
  digits_ne_nil : digits ≠ []
  isDigit_of_mem : ∀ b ∈ digits, Octet.isDigit b = true

namespace Spelling

/-- The line. -/
def octets (s : Spelling) : Octets :=
  s.lead ++ Octet.openBrace :: (s.digits ++ s.kind.mark ++ [Octet.closeBrace])

/-- The number that the digits denote. -/
def length (s : Spelling) : Nat := Decimal.value (s.digits.map Octet.digitValue)

/-- The declaration that a spelling stands for. -/
def Denotes (s : Spelling) (d : Declaration) : Prop :=
  s.length < Decimal.wordLimit ∧ d.length.toNat = s.length ∧ d.kind = s.kind ∧
    (d.binary = true ↔ s.lead.getLast? = some Octet.tilde)

end Spelling

/-- The end of a line that declares `d`, from the tilde of a binary literal on. -/
def write (d : Declaration) : Octets :=
  (if d.binary then [Octet.tilde] else []) ++ Octet.openBrace ::
    ((Decimal.digits d.length.toNat).map Octet.ofDigit ++ d.kind.mark ++ [Octet.closeBrace])

end Declaration

end StreamFraming
