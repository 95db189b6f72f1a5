import StreamFraming.Octet

/-!
# Displaying octets as text

Octets are displayed as the UTF-8 text they hold. Where they hold none, each maximal part
that begins a character without completing it, and each octet that begins none, is displayed
as one replacement character.

The octets that may follow a leading octet are a range for the second one, which excludes
overlong forms, surrogates and numbers that are too large, and the range of all continuation
octets for the others.
-/

namespace StreamFraming.Utf8

/-- A range of octets, with both ends. -/
structure Range where
  first : UInt8
  last : UInt8
deriving DecidableEq

/-- Whether an octet lies in a range. -/
def Range.contains (r : Range) (b : UInt8) : Bool := r.first ≤ b && b ≤ r.last

/-- The octets that continue a character. -/
def continuation : Range := ⟨0x80, 0xBF⟩

/-- The ranges of the octets that complete the character which `lead` begins, if it begins one. -/
def followers? (lead : UInt8) : Option (List Range) :=
  if lead ≤ 0x7F then some []
  else if lead ≤ 0xC1 then none
  else if lead ≤ 0xDF then some [continuation]
  else if lead = 0xE0 then some [⟨0xA0, 0xBF⟩, continuation]
  else if lead = 0xED then some [⟨0x80, 0x9F⟩, continuation]
  else if lead ≤ 0xEF then some [continuation, continuation]
  else if lead = 0xF0 then some [⟨0x90, 0xBF⟩, continuation, continuation]
  else if lead ≤ 0xF3 then some [continuation, continuation, continuation]
  else if lead = 0xF4 then some [⟨0x80, 0x8F⟩, continuation, continuation]
  else none

/-- The bits that a leading octet gives to its character, which takes `count` more octets. -/
def leadBits (lead : UInt8) (count : Nat) : Nat := lead.toNat % (64 >>> count)

/-- What is displayed for octets that are no text. -/
def replacement : Char := '\uFFFD'

/-- A display under way: the ranges of the octets that the character begun still lacks, the
bits it has so far, and the characters displayed, the latest first. -/
structure Display where
  lacking : List Range := []
  bits : Nat := 0
  shown : List Char := []

namespace Display

/-- Displays one more character. -/
def put (d : Display) (c : Char) : Display := { shown := c :: d.shown }

/-- Takes an octet that continues no character. -/
def begin (d : Display) (b : UInt8) : Display :=
  match followers? b with
  | none => d.put replacement
  | some [] => d.put (Char.ofNat b.toNat)
  | some ranges => { lacking := ranges, bits := leadBits b ranges.length, shown := d.shown }

/-- Takes the next octet. -/
def step (d : Display) (b : UInt8) : Display :=
  match d.lacking with
  | [] => d.begin b
  | range :: ranges =>
    if range.contains b then
      let bits := 64 * d.bits + b.toNat % 64
      if ranges.isEmpty then d.put (Char.ofNat bits) else { d with lacking := ranges, bits }
    else (d.put replacement).begin b

/-- The characters displayed when no more octets come. -/
def finish (d : Display) : List Char :=
  (if d.lacking.isEmpty then d.shown else replacement :: d.shown).reverse

end Display

/-- Octets as text, with replacement characters where they are none. -/
def display (octets : Octets) : String :=
  String.ofList (octets.foldl Display.step {}).finish

end StreamFraming.Utf8
