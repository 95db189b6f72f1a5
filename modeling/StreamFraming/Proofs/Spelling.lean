import StreamFraming.Declaration.Spelling

/-!
# Reading declarations that were spelled

A line that is put together from the parts of a declaration is read as that declaration,
whatever it holds before the opening brace, and it is refused only if the length does not fit
(`Spelling.parse?_octets_eq_some_iff`, `Spelling.parse?_octets_eq_none_iff`). What `write`
appends to a text is such a line, unless the text ends in a tilde that the reader would take
for the mark of a binary literal (`parse?_append_write`).
-/

namespace StreamFraming.Declaration

/-! ## The parts of a line, the last octet first -/

/-- Where the digits of a length start, there is no mark of a kind. -/
theorem head?_reverse_digits_ne_plus (s : Spelling) (before : Octets) :
    (s.digits.reverse ++ before).head? ≠ some Octet.plus := by
  intro h
  rw [List.head?_append, List.head?_reverse] at h
  cases hd : s.digits.getLast? with
  | none => exact s.digits_ne_nil (List.getLast?_eq_none_iff.1 hd)
  | some b =>
    rw [hd, Option.some_or, Option.some.injEq] at h
    have hdigit := s.isDigit_of_mem b (List.mem_of_getLast? hd)
    rw [h] at hdigit
    exact absurd hdigit (by decide)

theorem splitKind_eq_of_head? {reversed : Octets} (h : reversed.head? ≠ some Octet.plus) :
    splitKind reversed = (.synchronizing, reversed) := by
  cases reversed with
  | nil => rfl
  | cons b before =>
    have hb : b ≠ Octet.plus := by
      intro hb
      exact h (congrArg some hb)
    simp only [splitKind, hb, if_false]

/-- The kind is found again by its mark, or by the lack of one. -/
theorem splitKind_spelled (s : Spelling) (before : Octets) :
    splitKind (s.kind.mark.reverse ++ (s.digits.reverse ++ before)) =
      (s.kind, s.digits.reverse ++ before) := by
  cases hk : s.kind with
  | synchronizing => exact splitKind_eq_of_head? (head?_reverse_digits_ne_plus s before)
  | nonSynchronizing => rfl

theorem isDigit_of_mem_reverse_digits (s : Spelling) :
    ∀ b ∈ s.digits.reverse, Octet.isDigit b = true := by
  intro b hb
  apply s.isDigit_of_mem b
  exact List.mem_reverse.1 hb

/-- Read from the right, the digits of a length end at the opening brace. -/
theorem takeWhile_isDigit_spelled (s : Spelling) :
    (s.digits.reverse ++ Octet.openBrace :: s.lead.reverse).takeWhile Octet.isDigit =
      s.digits.reverse := by
  rw [List.takeWhile_append_of_pos (isDigit_of_mem_reverse_digits s),
    List.takeWhile_cons_of_neg (by decide), List.append_nil]

theorem dropWhile_isDigit_spelled (s : Spelling) :
    (s.digits.reverse ++ Octet.openBrace :: s.lead.reverse).dropWhile Octet.isDigit =
      Octet.openBrace :: s.lead.reverse := by
  rw [List.dropWhile_append_of_pos (isDigit_of_mem_reverse_digits s),
    List.dropWhile_cons_of_neg (by decide)]

/-- The digits of a spelling are read as its length, if it fits a word. -/
theorem readLength?_spelled (s : Spelling) (kind : Kind) :
    readLength? kind (s.digits.reverse ++ Octet.openBrace :: s.lead.reverse) =
      (Decimal.readBelow? Decimal.wordLimit (s.digits.map Octet.digitValue)).map fun n =>
        { length := UInt64.ofNat n, kind, binary := s.lead.getLast? = some Octet.tilde } := by
  simp only [readLength?, takeWhile_isDigit_spelled, dropWhile_isDigit_spelled,
    List.reverse_reverse, s.digits_ne_nil, ne_eq, not_false_eq_true, and_self, if_true,
    List.head?_reverse]

/-! ## The line -/

namespace Spelling

variable {s : Spelling} {d : Declaration}

theorem reverse_octets (s : Spelling) :
    s.octets.reverse = Octet.closeBrace ::
      (s.kind.mark.reverse ++ (s.digits.reverse ++ Octet.openBrace :: s.lead.reverse)) := by
  simp [octets]

/-- Of a line that is put together from the parts of a declaration all parts are read. -/
theorem parse?_octets (s : Spelling) :
    parse? s.octets =
      (Decimal.readBelow? Decimal.wordLimit (s.digits.map Octet.digitValue)).map fun n =>
        { length := UInt64.ofNat n
          kind := s.kind
          binary := s.lead.getLast? = some Octet.tilde } := by
  rw [parse?, reverse_octets, readReversed?, if_pos rfl, splitKind_spelled, readLength?_spelled]

/-- Such a line ends in the declaration that it spells out. -/
theorem parse?_octets_eq_some_iff : parse? s.octets = some d ↔ s.Denotes d := by
  rw [parse?_octets, Option.map_eq_some_iff]
  simp only [Decimal.readBelow?_eq_some_iff (show 0 < Decimal.wordLimit by decide)]
  constructor
  · rintro ⟨n, ⟨hvalue, hlt⟩, rfl⟩
    have hlength : s.length = n := hvalue
    refine ⟨?_, ?_, rfl, decide_eq_true_iff⟩
    · rw [hlength]
      exact hlt
    · rw [hlength]
      exact UInt64.toNat_ofNat_of_lt' hlt
  · rintro ⟨hlt, hlength, hkind, hbinary⟩
    refine ⟨s.length, ⟨rfl, hlt⟩, ?_⟩
    have hlength' : UInt64.ofNat s.length = d.length := by
      rw [← hlength]
      exact UInt64.ofNat_toNat
    have hbinary' : decide (s.lead.getLast? = some Octet.tilde) = d.binary := by
      rw [← Bool.coe_iff_coe, decide_eq_true_iff]
      exact hbinary.symm
    rw [hlength', hbinary', ← hkind]

/-- It ends in none if the length does not fit. -/
theorem parse?_octets_eq_none_iff :
    parse? s.octets = none ↔ Decimal.wordLimit ≤ s.length := by
  rw [parse?_octets, Option.map_eq_none_iff]
  exact Decimal.readBelow?_eq_none_iff (by decide)

end Spelling

/-! ## Written declarations -/

/-- The spelling of a declaration behind a text, without leading zeros. -/
def spelling (text : Octets) (d : Declaration) : Spelling where
  lead := text ++ if d.binary then [Octet.tilde] else []
  digits := (Decimal.digits d.length.toNat).map Octet.ofDigit
  kind := d.kind
  digits_ne_nil := by
    intro h
    exact Decimal.digits_ne_nil _ (List.map_eq_nil_iff.1 h)
  isDigit_of_mem := by
    intro b hb
    obtain ⟨n, hn, rfl⟩ := List.mem_map.1 hb
    exact Octet.isDigit_ofDigit (Decimal.lt_ten_of_mem_digits hn)

theorem octets_spelling (text : Octets) (d : Declaration) :
    (spelling text d).octets = text ++ d.write := by
  simp [Spelling.octets, spelling, write]

theorem length_spelling (text : Octets) (d : Declaration) :
    (spelling text d).length = d.length.toNat := by
  have hdigits : ((Decimal.digits d.length.toNat).map Octet.ofDigit).map Octet.digitValue =
      Decimal.digits d.length.toNat := by
    have hdigit : ∀ n ∈ Decimal.digits d.length.toNat,
        (Octet.digitValue ∘ Octet.ofDigit) n = id n := by
      intro n hn
      exact Octet.digitValue_ofDigit (Decimal.lt_ten_of_mem_digits hn)
    rw [List.map_map, List.map_congr_left hdigit, List.map_id]
  show Decimal.value _ = _
  rw [spelling, hdigits, Decimal.value_digits]

/-- The spelling of a declaration denotes it, unless a tilde of the text would be taken for its own.
-/
theorem spelling_denotes {text : Octets} {d : Declaration}
    (h : d.binary = false → text.getLast? ≠ some Octet.tilde) : (spelling text d).Denotes d := by
  refine ⟨?_, ?_, rfl, ?_⟩
  · rw [length_spelling]
    exact d.length.toNat_lt
  · exact (length_spelling text d).symm
  · show d.binary = true ↔ (text ++ if d.binary then [Octet.tilde] else []).getLast? = _
    cases hb : d.binary with
    | true => simp
    | false => simpa using h hb

/-- A declaration that is written behind a text is read from there. -/
theorem parse?_append_write {text : Octets} {d : Declaration}
    (h : d.binary = false → text.getLast? ≠ some Octet.tilde) :
    parse? (text ++ d.write) = some d := by
  rw [← octets_spelling]
  exact Spelling.parse?_octets_eq_some_iff.2 (spelling_denotes h)

/-- A line that does not end in a closing brace declares nothing. -/
theorem parse?_eq_none_of_getLast? {line : Octets} (h : line.getLast? ≠ some Octet.closeBrace) :
    parse? line = none := by
  rw [← List.head?_reverse] at h
  rw [parse?]
  cases hr : line.reverse with
  | nil => rfl
  | cons b body =>
    rw [hr] at h
    have hb : b ≠ Octet.closeBrace := by
      intro hb
      exact h (congrArg some hb)
    rw [readReversed?, if_neg hb]

theorem getLast?_write (d : Declaration) : d.write.getLast? = some Octet.closeBrace := by
  have hwrite := octets_spelling [] d
  rw [List.nil_append] at hwrite
  rw [← hwrite, Spelling.octets, ← List.cons_append, ← List.append_assoc]
  exact List.getLast?_concat

/-- A written declaration is on one line. -/
theorem lf_not_mem_write (d : Declaration) : Octet.lf ∉ d.write := by
  have hdigits : Octet.lf ∉ (Decimal.digits d.length.toNat).map Octet.ofDigit := by
    intro h
    have hdigit := (spelling [] d).isDigit_of_mem Octet.lf h
    exact absurd hdigit (by decide)
  have hmark : Octet.lf ∉ d.kind.mark := by
    cases d.kind <;> decide
  have htilde : Octet.lf ∉ (if d.binary then [Octet.tilde] else []) := by
    cases d.binary <;> decide
  have hopen : Octet.lf ≠ Octet.openBrace := by decide
  have hclose : Octet.lf ≠ Octet.closeBrace := by decide
  simp only [write, List.mem_append, List.mem_cons, List.not_mem_nil, or_false, not_or]
  exact ⟨htilde, hopen, ⟨hdigits, hmark⟩, hclose⟩

end StreamFraming.Declaration
