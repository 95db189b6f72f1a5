import StreamFraming.Proofs.Canonical
import StreamFraming.Proofs.Grammar

/-!
# What a continuation costs the sender

A receiver owes a continuation for a line that declares a synchronizing literal. Such a line is
never short: the declaration has a brace, a digit and a brace, and the line has an end
(`Line.continuationCost_mul_le`). So a sender pays for every continuation that it is owed, four
octets or under the strict option five, and the number of continuations is bounded by what was
framed (`Framer.cursor_add_le_cursor_scan`), whatever the framer has remembered of the buffer.
-/

namespace StreamFraming

/-- The least number of octets of a line's end. -/
def Options.endLength (o : Options) : Nat := if o.strictCrlf then 2 else 1

/-- The least number of octets of a line that makes the receiver owe a continuation. -/
def Options.continuationCost (o : Options) : Nat := 3 + o.endLength

/-- In strict mode a continuation costs five octets. -/
theorem Options.continuationCost_of_strict {o : Options} (h : o.strictCrlf = true) :
    o.continuationCost = 5 := by
  simp only [continuationCost, endLength, h, if_true]

/-- In either mode a continuation costs at least four octets. -/
theorem Options.four_le_continuationCost (o : Options) : 4 ≤ o.continuationCost := by
  unfold continuationCost endLength
  split <;> omega

/-- A declaration has two braces and a digit. -/
theorem Declaration.three_le_length_of_parse? {line : Octets} {d : Declaration}
    (h : parse? line = some d) : 3 ≤ line.length := by
  obtain ⟨s, rfl⟩ := exists_spelling_of_parse? h
  have hdigits := List.length_pos_iff.2 s.digits_ne_nil
  simp only [Spelling.octets, List.length_append, List.length_cons, List.length_nil]
  omega

/-- One declaration asks for at most one continuation. -/
theorem Declaration.continuations_le_one (d : Declaration) : d.continuations ≤ 1 := by
  unfold continuations
  split <;> omega

namespace Line

variable {o : Options} {line : Octets} {e : Extent}

/-- No line makes the receiver owe more than one continuation. -/
theorem continuations_le_one (content : Octets) : continuations content ≤ 1 := by
  unfold continuations
  split
  · exact Declaration.continuations_le_one _
  · exact Nat.zero_le 1

/-- A line that has content has an end besides. -/
theorem search_content_add_endLength_le {offset : Nat} {last : Option UInt8} {octets : Octets}
    (h : search o offset last octets = some e) (hpos : 0 < e.content) :
    e.content + o.endLength ≤ e.length := by
  fun_induction search o offset last octets with
  | case1 => contradiction
  | case2 offset last octets before after hs lf crlf hc =>
    simp only [Option.some.injEq] at h
    subst h
    unfold Extent.endingAt at hpos ⊢
    unfold Options.endLength
    cases hcr : crlf with
    | true =>
      simp only [hcr, if_true] at hpos ⊢
      split <;> omega
    | false =>
      -- a line feed alone is an end only if the option lets it be
      have hstrict : o.strictCrlf = false := by simpa [hcr] using hc
      simp only [hstrict, Bool.false_eq_true, if_false]
      exact Nat.le_refl _
  | case3 offset last octets before after hs lf crlf hc ih => exact ih h

/-- A line that makes the receiver owe a continuation is as long as that costs. -/
theorem continuationCost_mul_le {probed : Nat} (h : find? o probed line = some e) :
    o.continuationCost * continuations (line.take e.content) ≤ e.length := by
  unfold continuations
  cases hd : Declaration.parse? (line.take e.content) with
  | none => exact Nat.zero_le _
  | some d =>
    have hcontent := Declaration.three_le_length_of_parse? hd
    rw [List.length_take] at hcontent
    have hend := search_content_add_endLength_le h (by omega)
    calc o.continuationCost * d.continuations
        ≤ o.continuationCost * 1 := Nat.mul_le_mul_left _ d.continuations_le_one
      _ = 3 + o.endLength := Nat.mul_one _
      _ ≤ e.length := by omega

end Line

namespace Framer

variable {f : Framer} {buffer : Octets}

/-- A scan moves the cursor by as much as the continuations that it counts cost. -/
theorem cursor_add_le_cursor_scan (hc : f.cursor ≤ buffer.length) :
    f.cursor + f.options.continuationCost * (f.scan buffer).synchronizing ≤
      (f.scan buffer).framer.cursor := by
  induction f, hc using scan_induction with
  | payload f hc hl =>
    rw [scan_of_lt hc hl]
    exact hc
  | unended f hc hl hn =>
    rw [scan_of_find?_eq_none hl hn]
    exact Nat.le_add_right f.cursor f.pending
  | line f hc e hle hs ih =>
    have hline := Line.continuationCost_mul_le hs
    have hstart : f.cursor ≤ f.lineStart := Nat.le_add_right f.cursor f.pending
    rw [scan_of_find?_eq_some (Nat.le_of_add_right_le hle) hs]
    change f.lineStart + e.length + f.options.continuationCost * _ ≤ _ at ih
    show f.cursor + f.options.continuationCost * (_ + _) ≤ _
    -- the line pays for its own continuation, and the rest of the scan for the others
    rw [Nat.mul_add, Scan.following_framer]
    omega

/-- A scan does not take back what is framed. -/
theorem cursor_le_cursor_scan (hc : f.cursor ≤ buffer.length) :
    f.cursor ≤ (f.scan buffer).framer.cursor :=
  Nat.le_of_add_right_le (cursor_add_le_cursor_scan hc)

end Framer

namespace Session

/-- A session owes and has been told to have sent no more continuations than the stream has
paid for. -/
theorem continuationCost_mul_le_length (o : Options) (requests : List Request) :
    o.continuationCost *
        (((start o).after requests).owed + (start o).acknowledgements requests) ≤
      (stream requests).length := by
  have hcost : 0 + o.continuationCost * _ ≤ _ :=
    Framer.cursor_add_le_cursor_scan (f := Framer.start o) (Nat.zero_le (stream requests).length)
  rw [Nat.zero_add] at hcost
  rw [(isCanonical_after o requests).owed_add]
  exact Nat.le_trans hcost (cursor_scan_start_le o (stream requests))

/-- The number of continuations is bounded by the octets that cause them. A scan, of whatever
framer and of whatever buffer that reaches as far as its cursor, frames at least four octets for
every synchronizing literal that it counts, and five under the strict option; so the count fits
a word if the positions do. In a session, however much is consumed and acknowledged on the way,
the continuations owed and those acknowledged together cost as much of the stream, and what is
owed fits a word as long as the length of the stream does. -/
theorem continuations_bounded_by_octets :
    (∀ (f : Framer) (buffer : Octets), f.cursor ≤ buffer.length →
      let scan := f.scan buffer
      f.cursor + 4 * scan.progress.synchronizing ≤ scan.progress.valid ∧
      (f.options.strictCrlf = true →
        f.cursor + 5 * scan.progress.synchronizing ≤ scan.progress.valid) ∧
      (buffer.length + f.probed < Decimal.wordLimit →
        scan.progress.synchronizing < Decimal.wordLimit)) ∧
    (∀ (o : Options) (requests : List Request),
      let owed := ((start o).after requests).owed
      let acknowledged := (start o).acknowledgements requests
      4 * (owed + acknowledged) ≤ (stream requests).length ∧
      (o.strictCrlf = true → 5 * (owed + acknowledged) ≤ (stream requests).length) ∧
      ((stream requests).length < Decimal.wordLimit → owed < Decimal.wordLimit)) := by
  refine ⟨?_, ?_⟩
  · intro f buffer hc scan
    have hcost : f.cursor + f.options.continuationCost * scan.progress.synchronizing ≤
        scan.progress.valid := Framer.cursor_add_le_cursor_scan hc
    have hframed : scan.progress.valid ≤ buffer.length := Framer.cursor_scan_le hc
    have hfour := Nat.mul_le_mul_right scan.progress.synchronizing
      f.options.four_le_continuationCost
    refine ⟨by omega, ?_, by omega⟩
    intro hstrict
    rwa [Options.continuationCost_of_strict hstrict] at hcost
  · intro o requests owed acknowledged
    have hcost : o.continuationCost * (owed + acknowledged) ≤ (stream requests).length :=
      continuationCost_mul_le_length o requests
    have hfour := Nat.mul_le_mul_right (owed + acknowledged) o.four_le_continuationCost
    refine ⟨by omega, ?_, by omega⟩
    intro hstrict
    rwa [Options.continuationCost_of_strict hstrict] at hcost

/-- Literals without payload follow each other as closely as they can: after a payload that a
framer of an unscanned buffer waits for, and in a session whose line end is cut. -/
theorem continuations_bounded_by_octets_of_empty_literals :
    let f : Framer := { cursor := 1, pending := 2, probed := 3 }
    let buffer : Octets := [97, 98, 99, 123, 48, 125, 10, 123, 48, 125, 10]
    let o : Options := { strictCrlf := true }
    let requests : List Request :=
      [.feed [123, 48, 125, 13, 10, 123], .acknowledge, .acknowledge, .consume 5,
        .feed [48, 125, 13], .feed [10]]
    (f.cursor ≤ buffer.length ∧ (f.scan buffer).progress.synchronizing = 2 ∧
      f.cursor + 4 * 2 ≤ (f.scan buffer).progress.valid ∧ 2 < Decimal.wordLimit) ∧
    (((start o).after requests).owed + (start o).acknowledgements requests = 2 ∧
      5 * 2 ≤ (stream requests).length) := by
  intro f buffer o requests
  have hc : f.cursor ≤ buffer.length := by decide
  have hcount : (f.scan buffer).progress.synchronizing = 2 := by decide +kernel
  have hcount' : ((start o).after requests).owed + (start o).acknowledgements requests = 2 := by
    decide +kernel
  obtain ⟨hscan, hsession⟩ := continuations_bounded_by_octets
  obtain ⟨hfour, -, hword⟩ := hscan f buffer hc
  obtain ⟨-, hfive, -⟩ := hsession o requests
  have hfits : buffer.length + f.probed < Decimal.wordLimit := by decide
  refine ⟨⟨hc, hcount, ?_, ?_⟩, hcount', ?_⟩
  · rwa [hcount] at hfour
  · rw [← hcount]
    exact hword hfits
  · rw [← hcount']
    exact hfive rfl

end Session

end StreamFraming
