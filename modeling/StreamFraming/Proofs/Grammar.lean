import StreamFraming.Proofs.Spelling

/-!
# Which lines declare a literal

A line ends in a declaration exactly if it can be spelled as one. `StreamFraming.Proofs.Spelling`
says what a spelled line is read as; this file shows that nothing else is read:

* a line that is read has a spelling, which the reader itself has found
  (`exists_spelling_of_parse?`);
* no line has two (`Spelling.octets_injective`), since the mark, the digits and what stands
  before them are cut off where the octets on both sides of the cut cannot be confused.

So the declaration of a line is settled by its only spelling
(`parse?_reads_exactly_what_is_spelled`).
-/

namespace StreamFraming.Declaration

variable {line : Octets} {d : Declaration}

/-! ## Taking a line apart -/

/-- What is taken off is the mark of the kind. -/
theorem mark_append_splitKind (reversed : Octets) :
    (splitKind reversed).1.mark.reverse ++ (splitKind reversed).2 = reversed := by
  cases reversed with
  | nil => rfl
  | cons b before =>
    rw [splitKind]
    split
    · next hb =>
      rw [hb]
      rfl
    · rfl

/-- A length that is read has digits, and the opening brace is right before them. -/
theorem exists_digits_of_readLength? {kind : Kind} {reversed : Octets}
    (h : readLength? kind reversed = some d) :
    ∃ digits before : Octets, digits ≠ [] ∧ (∀ b ∈ digits, Octet.isDigit b = true) ∧
      reversed = digits.reverse ++ Octet.openBrace :: before := by
  have hwhole := List.takeWhile_append_dropWhile (p := Octet.isDigit) (l := reversed)
  rw [readLength?] at h
  split at h
  · contradiction
  · next b before hdrop =>
    split at h
    · next hbrace =>
      refine ⟨(reversed.takeWhile Octet.isDigit).reverse, before, hbrace.2, ?_, ?_⟩
      · intro c hc
        exact List.all_eq_true.1 List.all_takeWhile c (List.mem_reverse.1 hc)
      · rw [List.reverse_reverse, ← hbrace.1, ← hdrop, hwhole]
    · contradiction

/-- A line that is read was spelled. -/
theorem exists_spelling_of_parse? (h : parse? line = some d) :
    ∃ s : Spelling, s.octets = line := by
  rw [parse?] at h
  cases hline : line.reverse with
  | nil =>
    rw [hline, readReversed?] at h
    contradiction
  | cons b body =>
    rw [hline, readReversed?] at h
    split at h
    · next hb =>
      obtain ⟨digits, before, hne, hdigits, hrest⟩ := exists_digits_of_readLength? h
      have hbody := mark_append_splitKind body
      let s : Spelling :=
        { lead := before.reverse
          digits := digits
          kind := (splitKind body).1
          digits_ne_nil := hne
          isDigit_of_mem := hdigits }
      refine ⟨s, ?_⟩
      -- the reader goes through the line backwards
      apply List.reverse_inj.1
      rw [s.reverse_octets, hline, hb, ← hbody, hrest]
      show _ :: (_ ++ (_ ++ _ :: before.reverse.reverse)) = _
      rw [List.reverse_reverse]
    · contradiction

/-! ## Only one spelling -/

/-- A line is spelled in one way only. -/
theorem Spelling.octets_injective {s t : Spelling} (h : s.octets = t.octets) : s = t := by
  have hreverse := congrArg List.reverse h
  rw [reverse_octets, reverse_octets, List.cons.injEq] at hreverse
  have hsplit := congrArg splitKind hreverse.2
  rw [splitKind_spelled, splitKind_spelled, Prod.mk.injEq] at hsplit
  obtain ⟨hkind, hrest⟩ := hsplit
  have hdigits := congrArg (List.takeWhile Octet.isDigit) hrest
  have hlead := congrArg (List.dropWhile Octet.isDigit) hrest
  rw [takeWhile_isDigit_spelled, takeWhile_isDigit_spelled, List.reverse_inj] at hdigits
  rw [dropWhile_isDigit_spelled, dropWhile_isDigit_spelled, List.cons.injEq,
    List.reverse_inj] at hlead
  cases s
  cases t
  simp_all

/-- Spelled lines declare the same if length, kind and the tilde are the same. -/
theorem Spelling.Denotes.eq_iff {s t : Spelling} {e : Declaration} (hd : s.Denotes d)
    (he : t.Denotes e) :
    d = e ↔ s.length = t.length ∧ s.kind = t.kind ∧
      (s.lead.getLast? = some Octet.tilde ↔ t.lead.getLast? = some Octet.tilde) := by
  obtain ⟨-, hlength, hkind, hbinary⟩ := hd
  obtain ⟨-, hlength', hkind', hbinary'⟩ := he
  rw [← hlength, ← hlength', ← hkind, ← hkind', ← hbinary, ← hbinary', Bool.coe_iff_coe,
    UInt64.toNat_inj]
  cases d
  cases e
  rw [Declaration.mk.injEq]

/-- A line declares a literal exactly if it is spelled so: after any octets an opening brace, one
or more digits, a plus sign or none, and a closing brace. It then declares what the spelling
denotes, and it has no other. A length is refused exactly if its value does not fit a word,
whatever the number of its digits. Two lines declare the same literal exactly if length, mark
and tilde are the same. -/
theorem parse?_reads_exactly_what_is_spelled (line : Octets) :
    (∀ d, parse? line = some d ↔ ∃ s : Spelling, s.octets = line ∧ s.Denotes d) ∧
    (∀ s t : Spelling, s.octets = line → t.octets = line → s = t) ∧
    (∀ s : Spelling, s.octets = line →
      (Decimal.readBelow? Decimal.wordLimit (s.digits.map Octet.digitValue) = none ↔
        Decimal.wordLimit ≤ s.length) ∧
      (parse? line = none ↔ Decimal.wordLimit ≤ s.length)) ∧
    (∀ (s t : Spelling) (d e : Declaration), s.octets = line → parse? line = some d →
      parse? t.octets = some e →
      (d = e ↔ s.length = t.length ∧ s.kind = t.kind ∧
        (s.lead.getLast? = some Octet.tilde ↔ t.lead.getLast? = some Octet.tilde))) := by
  refine ⟨?_, ?_, ?_, ?_⟩
  · intro d
    constructor
    · intro h
      obtain ⟨s, rfl⟩ := exists_spelling_of_parse? h
      exact ⟨s, rfl, Spelling.parse?_octets_eq_some_iff.1 h⟩
    · rintro ⟨s, rfl, hd⟩
      exact Spelling.parse?_octets_eq_some_iff.2 hd
  · intro s t hs ht
    exact Spelling.octets_injective (hs.trans ht.symm)
  · rintro s rfl
    exact ⟨Decimal.readBelow?_eq_none_iff (by decide), Spelling.parse?_octets_eq_none_iff⟩
  · rintro s t d e rfl hd he
    exact (Spelling.parse?_octets_eq_some_iff.1 hd).eq_iff (Spelling.parse?_octets_eq_some_iff.1 he)

/-- The last opening brace counts, leading zeros do not, and the length may be as large as a word
can be. -/
theorem parse?_reads_exactly_what_is_spelled_up_to_the_word_limit :
    let written : Spelling :=
      { lead := [126]
        digits :=
          [49, 56, 52, 52, 54, 55, 52, 52, 48, 55, 51, 55, 48, 57, 53, 53, 49, 54, 49, 53]
        kind := .nonSynchronizing
        digits_ne_nil := by decide
        isDigit_of_mem := by decide +kernel }
    let padded : Spelling :=
      { lead := [123, 49, 43, 125, 126]
        digits := 48 :: 48 :: written.digits
        kind := .nonSynchronizing
        digits_ne_nil := by decide
        isDigit_of_mem := by decide +kernel }
    let beyond : Spelling :=
      { lead := [126]
        digits :=
          [48, 49, 56, 52, 52, 54, 55, 52, 52, 48, 55, 51, 55, 48, 57, 53, 53, 49, 54, 49, 54]
        kind := .synchronizing
        digits_ne_nil := by decide
        isDigit_of_mem := by decide +kernel }
    (∃ d, parse? written.octets = some d ∧ parse? padded.octets = some d ∧
      d.length.toNat + 1 = Decimal.wordLimit) ∧
    (∀ s : Spelling, s.octets = padded.octets → s = padded) ∧ parse? beyond.octets = none := by
  intro written padded beyond
  let declared (s : Spelling) : Declaration :=
    { length := UInt64.ofNat s.length, kind := s.kind, binary := true }
  have hwritten : written.Denotes (declared written) := by
    refine ⟨?_, ?_, rfl, ?_⟩ <;> decide +kernel
  have hpadded : padded.Denotes (declared padded) := by
    refine ⟨?_, ?_, rfl, ?_⟩ <;> decide +kernel
  obtain ⟨hpaddedread, hunique, -⟩ := parse?_reads_exactly_what_is_spelled padded.octets
  obtain ⟨hread, -, -, hsame⟩ := parse?_reads_exactly_what_is_spelled written.octets
  obtain ⟨-, -, hrefused, -⟩ := parse?_reads_exactly_what_is_spelled beyond.octets
  have hd := (hread _).2 ⟨written, rfl, hwritten⟩
  have he := (hpaddedread _).2 ⟨padded, rfl, hpadded⟩
  have heq : declared written = declared padded := by
    apply (hsame written padded _ _ rfl hd he).2
    refine ⟨?_, rfl, ?_⟩ <;> decide +kernel
  refine ⟨⟨declared written, hd, ?_, ?_⟩, ?_, ?_⟩
  · rw [heq]
    exact he
  · decide +kernel
  · intro s hs
    exact hunique s padded hs rfl
  · apply (hrefused beyond rfl).2.2
    decide +kernel

end StreamFraming.Declaration
