import StreamFraming.Proofs.Machine.Scan
import StreamFraming.Proofs.Resume

/-!
# Framers that are given any buffers

A caller may give a framer buffers that have nothing to do with each other. What the framer has
searched of one says nothing about the next, so that none of the invariants of a kept buffer
hold. What does hold is about numbers alone (`Framer.Contained`): the searched part ends below
the lengths of buffers, what is pending fits a word, and nothing is searched while anything is
pending. Every call keeps it, and it is all that a machine needs in order not to fail.
-/

namespace StreamFraming

/-- A line announces no more than a word holds. -/
theorem Line.announced_lt (content : Octets) : announced content < Decimal.wordLimit := by
  unfold announced
  split
  · exact UInt64.toNat_lt_size _
  · decide

namespace Framer

variable {f : Framer} {buffer : Octets} {n : Nat}

/-- A scan that stops within a payload has searched nothing behind it. -/
theorem probed_scan_eq_zero (hc : f.cursor ≤ buffer.length) (h : 0 < f.pending → f.probed = 0)
    (hp : 0 < (f.scan buffer).framer.pending) : (f.scan buffer).framer.probed = 0 := by
  induction f, hc using scan_induction with
  | payload f hc hl =>
    rw [scan_of_lt hc hl]
    -- the scan has left the probe alone, and something was pending before it
    apply h
    unfold lineStart at hl
    omega
  | unended f hc hl hn =>
    rw [scan_of_find?_eq_none hl hn] at hp
    exact absurd hp (Nat.lt_irrefl 0)
  | line f hc e hle hs ih =>
    rw [scan_of_find?_eq_some (Nat.le_of_add_right_le hle) hs] at hp ⊢
    exact ih (fun _ => rfl) hp

/-- What is pending after a scan was pending before or is the length of a declaration. -/
theorem pending_scan_lt (hc : f.cursor ≤ buffer.length) (h : f.pending < Decimal.wordLimit) :
    (f.scan buffer).framer.pending < Decimal.wordLimit := by
  induction f, hc using scan_induction with
  | payload f hc hl =>
    rw [scan_of_lt hc hl]
    show f.cursor + f.pending - buffer.length < _
    omega
  | unended f hc hl hn =>
    rw [scan_of_find?_eq_none hl hn]
    exact Nat.zero_lt_of_lt h
  | line f hc e hle hs ih =>
    rw [scan_of_find?_eq_some (Nat.le_of_add_right_le hle) hs]
    exact ih (Line.announced_lt _)

/-- What a framer remembers fits the machine, and nothing is searched while payload is
pending. -/
structure Contained (f : Framer) : Prop where
  position_lt : f.cursor + f.probed < Machine.bufferLimit
  pending_lt : f.pending < Decimal.wordLimit
  probed_eq_zero : 0 < f.pending → f.probed = 0

theorem contained_start (o : Options) : (start o).Contained := by
  refine ⟨?_, ?_, fun _ => rfl⟩
  · show 0 + 0 < Machine.bufferLimit
    decide
  · show 0 < Decimal.wordLimit
    decide

theorem Contained.scan (h : f.Contained) (hc : f.cursor ≤ buffer.length)
    (hb : buffer.length < Machine.bufferLimit) : (f.scan buffer).framer.Contained := by
  have hsettled := settled_scan hc
  refine ⟨?_, pending_scan_lt hc h.pending_lt, probed_scan_eq_zero hc h.probed_eq_zero⟩
  -- either way the searched part ends where this buffer ends, whatever the last one was
  rcases Nat.eq_zero_or_pos (f.scan buffer).framer.pending with hp | hp
  · rw [hsettled.cursor_add_probed hp]
    exact hb
  · rw [hsettled.cursor_eq hp, probed_scan_eq_zero hc h.probed_eq_zero hp]
    exact hb

theorem Contained.consume (h : f.Contained) (n : Nat) : (f.consume n).Contained := by
  have hposition := h.position_lt
  refine ⟨?_, h.pending_lt, ?_⟩
  · show f.cursor - n + (f.probed - (n - f.cursor)) < _
    omega
  · intro hp
    show f.probed - (n - f.cursor) = 0
    rw [h.probed_eq_zero hp, Nat.zero_sub]

/-- Whatever buffers it is given, what a framer remembers fits the machine. -/
theorem Driven.contained (h : f.Driven) : f.Contained := by
  induction h with
  | start o => exact contained_start o
  | scan buffer _ hc hb ih => exact ih.scan hc hb
  | consume n _ ih => exact ih.consume n
  | @tryConsume f n _ ih =>
    rcases Nat.lt_or_ge f.cursor n with hn | hn
    · rw [tryConsume_of_lt hn]
      exact ih
    · rw [tryConsume_of_le hn]
      exact ih.consume n
  | reset _ _ => exact contained_start _

/-- A contained framer can scan any buffer that reaches as far as its cursor. -/
theorem Contained.scan_eq (h : f.Contained) (hc : f.cursor ≤ buffer.length)
    (hb : buffer.length < Machine.bufferLimit) : Machine.scan f buffer = .ok (f.scan buffer) := by
  have hposition := h.position_lt
  apply Machine.scan_eq hc
  unfold Machine.bufferLimit at hposition hb
  omega

/-- No scan fails, whatever a caller does. Between any scans of any buffers, related or not, any
consuming and any resets, the positions and the pending payload fit a word, and nothing is
searched while payload is pending. The next scan, of any buffer that reaches as far as the
cursor, comes to its end on a machine without overflow, underflow or an octet out of range, and
the machine does what the framer does: the cursor does not go back, stays in the buffer and is
what is told, and the scan has used the buffer up, within a payload or within a searched line. -/
theorem driven_scan_never_fails (h : f.Driven) :
    (f.cursor + f.probed < Decimal.wordLimit ∧ f.pending < Decimal.wordLimit ∧
      (0 < f.pending → f.probed = 0)) ∧
    ∀ buffer : Octets, f.cursor ≤ buffer.length → buffer.length < Machine.bufferLimit →
      let scan := f.scan buffer
      Machine.scan f buffer = .ok scan ∧
      scan.progress.valid = scan.framer.cursor ∧
      f.cursor ≤ scan.framer.cursor ∧ scan.framer.cursor ≤ buffer.length ∧
      (0 < scan.framer.pending →
        scan.framer.cursor = buffer.length ∧ scan.framer.probed = 0) ∧
      (scan.framer.pending = 0 → scan.framer.cursor + scan.framer.probed = buffer.length) := by
  have hcontained := h.contained
  have hposition := hcontained.position_lt
  refine ⟨⟨?_, hcontained.pending_lt, hcontained.probed_eq_zero⟩, ?_⟩
  · unfold Machine.bufferLimit at hposition
    omega
  · intro buffer hc hb scan
    have hsettled : scan.framer.Settled buffer := settled_scan hc
    have hscan : scan.framer.Contained := hcontained.scan hc hb
    refine ⟨hcontained.scan_eq hc hb, rfl, cursor_le_cursor_scan hc, cursor_scan_le hc, ?_,
      hsettled.cursor_add_probed⟩
    intro hp
    exact ⟨hsettled.cursor_eq hp, hscan.probed_eq_zero hp⟩

/-- The buffer has shrunk below what was searched, and then another one declares the longest
payload there can be, of which one octet arrives. -/
theorem driven_scan_never_fails_on_unrelated_buffers :
    let f := ((start { strictCrlf := true }).scan [97, 10, 98]).framer.consume 1
    let digits := (Decimal.digits (UInt64.size - 1)).map Octet.ofDigit
    let declaring : Octets := Octet.openBrace :: digits ++ [Octet.closeBrace, Octet.cr, Octet.lf]
    let g := (f.scan declaring).framer
    f.Driven ∧ f.probed = 2 ∧ Machine.scan f [10] = .ok (f.scan [10]) ∧
      (f.scan [10]).framer.cursor + (f.scan [10]).framer.probed = 1 ∧
      g.pending = UInt64.size - 1 ∧
      Machine.scan g (declaring ++ [97]) = .ok (g.scan (declaring ++ [97])) := by
  intro f digits declaring g
  have hf : f.Driven := .consume 1 (.scan [97, 10, 98] (.start _) (by decide) (by decide))
  have hprobed : f.probed = 2 := by decide +kernel
  have hcursor : f.cursor ≤ declaring.length := by decide +kernel
  have hlength : declaring.length < Machine.bufferLimit := by decide +kernel
  have hg : g.Driven := .scan declaring hf hcursor hlength
  obtain ⟨-, hshrunk⟩ := driven_scan_never_fails hf
  obtain ⟨-, hpending⟩ := driven_scan_never_fails hg
  obtain ⟨hfails, -, -, -, -, hend⟩ := hshrunk [10] (by decide +kernel) (by decide)
  obtain ⟨hfails', -⟩ := hpending (declaring ++ [97]) (by decide +kernel) (by decide +kernel)
  exact ⟨hf, hprobed, hfails, hend (by decide +kernel), by decide +kernel, hfails'⟩

end Framer

end StreamFraming
