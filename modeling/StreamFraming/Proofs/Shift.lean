import StreamFraming.Proofs.Turn

/-!
# Scans and consumed octets

Nothing before the cursor has a part in a scan: with octets put before the buffer, a scan
does the same that many positions later (`scan_shift`). So it does not matter whether framed
octets are consumed before a scan or after it (`scan_eq_shift_scan_consume`).
-/

namespace StreamFraming

/-- The framer of the buffer with `n` more octets before it. -/
def Framer.shift (n : Nat) (f : Framer) : Framer := { f with cursor := f.cursor + n }

/-- The scan of the buffer with `n` more octets before it. -/
def Scan.shift (n : Nat) (s : Scan) : Scan where
  framer := s.framer.shift n
  synchronizing := s.synchronizing
  log := s.log.map (Event.shift n)

theorem Scan.shift_following (s : Scan) (n synchronizing : Nat) (log : List Event) :
    (s.following synchronizing log).shift n =
      (s.shift n).following synchronizing (log.map (Event.shift n)) := by
  simp [shift, following]

theorem Event.shift_ofLine (content : Octets) (start stop n : Nat) :
    (ofLine content start stop).shift n = ofLine content (start + n) (stop + n) := by
  unfold ofLine
  cases Declaration.parse? content with
  | some d => rfl
  | none => rfl

namespace Framer

variable {f : Framer} {buffer : Octets}

theorem lineStart_shift (f : Framer) (n : Nat) : (f.shift n).lineStart = f.lineStart + n := by
  show f.cursor + n + f.pending = f.cursor + f.pending + n
  exact Nat.add_right_comm f.cursor n f.pending

theorem completion_shift (f : Framer) (n : Nat) :
    (f.shift n).completion = f.completion.map (Event.shift n) := by
  unfold completion
  rw [lineStart_shift]
  show (if f.inLiteral then _ else _) = _
  split <;> rfl

theorem atLine_shift (f : Framer) (n probed : Nat) :
    (f.shift n).atLine probed = (f.atLine probed).shift n := by
  unfold atLine
  rw [lineStart_shift]
  rfl

/-- Passing a line does not depend on where the line stands. -/
theorem passLine_shift (f : Framer) (n : Nat) (content : Octets) (length : Nat) :
    (f.shift n).passLine content length = (f.passLine content length).shift n := by
  unfold passLine
  rw [lineStart_shift, Nat.add_right_comm]
  rfl

/-- Octets before the buffer only move what a scan does. -/
theorem scan_shift (before : Octets) (hc : f.cursor ≤ buffer.length) :
    (f.shift before.length).scan (before ++ buffer) = (f.scan buffer).shift before.length := by
  have hlen : (before ++ buffer).length = buffer.length + before.length := by
    rw [List.length_append, Nat.add_comm]
  -- from the cursor on both buffers hold the same
  have hdrop (i : Nat) : (before ++ buffer).drop (i + before.length) = buffer.drop i := by
    rw [Nat.add_comm, ← List.drop_drop, List.drop_left]
  induction f, hc using scan_induction with
  | payload f hc hl =>
    have hpending : f.lineStart + before.length - (buffer.length + before.length) =
        f.lineStart - buffer.length := by omega
    rw [scan_of_lt hc hl, scan_of_lt _ (by rw [lineStart_shift]; omega), lineStart_shift, hlen,
      hpending]
    · rfl
    · show f.cursor + before.length ≤ _
      omega
  | unended f hc hl hn =>
    have hprobed : buffer.length + before.length - (f.lineStart + before.length) =
        buffer.length - f.lineStart := by omega
    have hn' : Line.find? (f.shift before.length).options (f.shift before.length).probed
        ((before ++ buffer).drop (f.shift before.length).lineStart) = none := by
      rw [lineStart_shift, hdrop]
      exact hn
    rw [scan_of_find?_eq_none hl hn, scan_of_find?_eq_none _ hn', lineStart_shift, hlen, hprobed,
      atLine_shift, completion_shift]
    · rfl
    · rw [lineStart_shift]
      omega
  | line f hc e hle hs ih =>
    have hl : f.lineStart ≤ buffer.length := by omega
    have hs' : Line.find? (f.shift before.length).options (f.shift before.length).probed
        ((before ++ buffer).drop (f.shift before.length).lineStart) = some e := by
      rw [lineStart_shift, hdrop]
      exact hs
    have hl' : (f.shift before.length).lineStart ≤ (before ++ buffer).length := by
      rw [lineStart_shift]
      omega
    rw [scan_of_find?_eq_some hl hs, scan_of_find?_eq_some hl' hs', passLine_shift,
      completion_shift, lineStart_shift, hdrop, ih, Scan.shift_following, List.map_append,
      List.map_singleton, Event.shift_ofLine, Nat.add_right_comm]

theorem shift_add (f : Framer) (n m : Nat) : f.shift (n + m) = (f.shift n).shift m := by
  unfold shift
  rw [Nat.add_assoc]

/-! ## Consuming -/

/-- Framed octets can be consumed. -/
theorem tryConsume_of_le {n : Nat} (h : n ≤ f.cursor) :
    f.tryConsume n = { result := .ok (), after := f.consume n, log := [] } := by
  rw [tryConsume, if_neg (Nat.not_lt.2 h)]

/-- Octets beyond the cursor cannot be consumed, and the framer stays as it is. -/
theorem tryConsume_of_lt {n : Nat} (h : f.cursor < n) :
    f.tryConsume n =
      { result := .error (.consumeBeyondFrame n f.cursor), after := f, log := [] } := by
  rw [tryConsume, if_pos h]

theorem consume_of_le {n : Nat} (h : n ≤ f.cursor) :
    f.consume n = { f with cursor := f.cursor - n } := by
  unfold consume
  rw [Nat.sub_eq_zero_of_le h, Nat.sub_zero]

/-- Moving a framer forward undoes a removal inside its frame. -/
theorem shift_consume {n : Nat} (h : n ≤ f.cursor) : (f.consume n).shift n = f := by
  rw [consume_of_le h]
  unfold shift
  rw [Nat.sub_add_cancel h]

theorem consume_shift (f : Framer) (n : Nat) : (f.shift n).consume n = f := by
  rw [consume_of_le (Nat.le_add_left n f.cursor)]
  unfold shift
  rw [Nat.add_sub_cancel]

/-- A scan does the same on what framed octets were consumed from. -/
theorem scan_eq_shift_scan_consume {n : Nat} (hn : n ≤ f.cursor) (hc : f.cursor ≤ buffer.length) :
    f.scan buffer = ((f.consume n).scan (buffer.drop n)).shift n := by
  have hlen : (buffer.take n).length = n := List.length_take_of_le (Nat.le_trans hn hc)
  have hcursor : (f.consume n).cursor ≤ (buffer.drop n).length := by
    rw [consume_of_le hn, List.length_drop]
    exact Nat.sub_le_sub_right hc n
  have hscan := scan_shift (buffer.take n) hcursor
  rw [hlen, shift_consume hn, List.take_append_drop] at hscan
  exact hscan

end Framer

end StreamFraming
