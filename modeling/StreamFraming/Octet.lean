/-!
# Octets

A stream is a list of octets, and so are a line's content, a literal's payload and a window
of received data. Framing gives a meaning to very few octets; this module names them and
says which ones are decimal digits. Every other octet stands for itself.
-/

namespace StreamFraming

/-- A string of octets, the earliest first. -/
abbrev Octets := List UInt8

namespace Octet

/-- The line feed, which ends a line. -/
def lf : UInt8 := 10

/-- The carriage return, which may stand before the line feed of a line's end. -/
def cr : UInt8 := 13

/-- The plus sign, which marks a literal sent without waiting. -/
def plus : UInt8 := 43

/-- The opening brace of a literal declaration. -/
def openBrace : UInt8 := 123

/-- The closing brace of a literal declaration. -/
def closeBrace : UInt8 := 125

/-- The tilde, which marks a literal as binary. -/
def tilde : UInt8 := 126

/-- The octets `0` to `9`. -/
def isDigit (b : UInt8) : Bool := 48 ≤ b && b ≤ 57

/-- The number that a digit stands for. -/
def digitValue (b : UInt8) : Nat := b.toNat - 48

/-- The octet that stands for a number below ten. -/
def ofDigit (d : Nat) : UInt8 := UInt8.ofNat (48 + d)

/-- The digits stand one after the other in ASCII, from 48 on. -/
theorem toNat_ofDigit {d : Nat} (h : d < 10) : (ofDigit d).toNat = 48 + d := by
  simp only [ofDigit, UInt8.toNat_ofNat']
  omega

@[simp] theorem digitValue_ofDigit {d : Nat} (h : d < 10) : digitValue (ofDigit d) = d := by
  simp [digitValue, toNat_ofDigit h]

theorem isDigit_iff {b : UInt8} : isDigit b = true ↔ 48 ≤ b.toNat ∧ b.toNat ≤ 57 := by
  simp [isDigit, UInt8.le_iff_toNat_le]

theorem isDigit_ofDigit {d : Nat} (h : d < 10) : isDigit (ofDigit d) = true := by
  rw [isDigit_iff, toNat_ofDigit h]
  omega

end Octet

end StreamFraming
