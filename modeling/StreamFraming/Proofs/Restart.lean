import StreamFraming.Proofs.Chunking

/-!
# Starting again behind the frame

Octets may be removed that are not framed yet, up to the end of the buffer and beyond it. The
framer then forgets as much of its search as was removed, and this is exact: outside a payload
it is left as a framer at the start of a stream that has scanned what is left
(`Framer.InStep.scan_start_drop`). The line's end may be cut, or a bare line feed may come to
stand first; neither matters, because no end of the shortened line is searched already that was
not one of the whole line.

So a window whose frame is removed receives what follows as a window that never held the octets
removed (`Window.InStep.receiveAll_remove`).
-/

namespace StreamFraming

namespace Framer

variable {f : Framer} {buffer : Octets} {n : Nat}

/-- What is left of a buffer that was scanned to its end is scanned to its end. -/
theorem Settled.consume (h : f.Settled buffer) (n : Nat) :
    (f.consume n).Settled (buffer.drop n) := by
  refine ⟨?_, ?_⟩
  · intro hp
    have hcursor := h.cursor_eq hp
    show f.cursor - n = (buffer.drop n).length
    rw [List.length_drop, hcursor]
  · intro hp
    have hprobed := h.cursor_add_probed hp
    -- what is removed beyond the cursor is taken off the probe, and both stop at zero
    show f.cursor - n + (f.probed - (n - f.cursor)) = (buffer.drop n).length
    rw [List.length_drop]
    omega

/-- A framer of which nothing is framed, and which waits for the end of a line, has done no more
than scan its buffer once. -/
theorem InStep.scan_start_eq (h : f.InStep buffer) (hs : f.Settled buffer) (hp : f.pending = 0)
    (hc : f.cursor = 0) :
    (start f.options).scan buffer = { framer := f, synchronizing := 0, log := [] } := by
  have hprobed := hs.cursor_add_probed hp
  -- what was searched in pieces holds no line end, so one search of the whole finds none
  have hnone : Line.find? f.options 0 buffer = none := by
    have hends := h.not_isTerminator hs hp
    rw [hc] at hends
    exact (Line.search_eq_none_iff buffer).2 hends
  rw [scan_of_find?_eq_none (f := start f.options) (Nat.zero_le _) hnone]
  have hframer : (start f.options).atLine (buffer.length - (start f.options).lineStart) = f := by
    have hlength : buffer.length = f.probed := by omega
    show Framer.mk f.options 0 0 buffer.length = f
    cases f
    simp_all
  rw [hframer]
  rfl

/-- Removing all that is framed, and perhaps more, leaves the framer that starts a stream with
what is left. -/
theorem InStep.scan_start_drop (h : f.InStep buffer) (hs : f.Settled buffer) (hp : f.pending = 0)
    (hn : f.cursor ≤ n) :
    (start f.options).scan (buffer.drop n) =
      { framer := f.consume n, synchronizing := 0, log := [] } := by
  have hcursor : (f.consume n).cursor = 0 := Nat.sub_eq_zero_of_le hn
  exact (h.consume n).scan_start_eq (hs.consume n) hp hcursor

/-- Within a payload there is nothing searched that removing could take off. -/
theorem consume_of_cursor_le (hn : f.cursor ≤ n) (hprobed : f.probed = 0) :
    f.consume n = { f with cursor := 0, probed := 0 } := by
  unfold consume
  rw [Nat.sub_eq_zero_of_le hn, hprobed, Nat.zero_sub]

end Framer

namespace Window

variable {o : Options} {w : Window} {n : Nat}

/-- A new window that receives what is left has nothing to report, and is the window that the
removal leaves. -/
theorem InStep.receive_start_drop (h : w.InStep) (hs : w.framer.Settled w.held)
    (hp : w.framer.pending = 0) (hn : w.framer.cursor ≤ n) :
    (start w.framer.options).receive (w.held.drop n) =
      (w.remove n,
        { framer := w.framer.consume n, synchronizing := 0, log := [] }) := by
  have hscan := Framer.InStep.scan_start_drop h hs hp hn
  unfold Window.receive Window.append Window.scan start
  simp only [List.nil_append, hscan]
  rfl

/-- A window of which all that is framed was removed, and perhaps more, receives chunks as a
window that is given what is left with the first of them. -/
theorem InStep.receiveAll_remove (h : w.InStep) (hs : w.framer.Settled w.held)
    (hp : w.framer.pending = 0) (hn : w.framer.cursor ≤ n) (chunk : Octets)
    (chunks : List Octets) :
    (w.remove n).receiveAll (chunk :: chunks) =
      (start w.framer.options).receiveAll ((w.held.drop n ++ chunk) :: chunks) := by
  have hfirst : (start w.framer.options).receive (w.held.drop n ++ chunk) =
      (w.remove n).receive chunk := by
    rw [receive_append (inStep_start _), h.receive_start_drop hs hp hn]
    simp [Scan.andThen, Scan.following]
  simp only [receiveAll, hfirst]

/-- A window that was just scanned holds nothing that the scan has left over. -/
theorem Reachable.settled_scan (h : Reachable o w) :
    w.scan.1.framer.Settled w.scan.1.held :=
  Framer.settled_scan h.inStep.cursor_le

/-- Removing all that is framed, and perhaps more, restarts framing. Whatever has happened to a
window, if its scan has stopped outside a payload, removing `n` octets leaves all of the framer
as a framer at the start of a stream that has scanned what is left, also if `n` goes beyond the
frame or beyond what is held. Chunks that arrive from there on come to what they come to in a
window that never held the octets removed. If the scan has stopped within a payload, as much of
the payload is still to come, and nothing is framed or searched. -/
theorem remove_restarts_framing (h : Reachable o w) (hn : w.scan.1.framer.cursor ≤ n) :
    let scanned := w.scan.1
    let left := w.held.drop n
    let after := scanned.remove n
    (scanned.framer.pending = 0 →
      after.held = left ∧ after.framer = ((Framer.start o).scan left).framer ∧
      ∀ (chunk : Octets) (chunks : List Octets),
        after.receiveAll (chunk :: chunks) =
          (start o).receiveAll ((left ++ chunk) :: chunks)) ∧
    (0 < scanned.framer.pending →
      after.framer = { scanned.framer with cursor := 0, probed := 0 }) := by
  intro scanned left after
  have hscanned : scanned.InStep := h.scan.inStep
  have hsettled : scanned.framer.Settled scanned.held := h.settled_scan
  have hoptions : scanned.framer.options = o := h.scan.options_eq
  refine ⟨?_, ?_⟩
  · intro hp
    have hscan := hscanned.scan_start_drop hsettled hp hn
    rw [hoptions] at hscan
    refine ⟨rfl, ?_, ?_⟩
    · exact (congrArg Scan.framer hscan).symm
    · intro chunk chunks
      rw [← hoptions]
      exact hscanned.receiveAll_remove hsettled hp hn chunk chunks
  · intro hp
    exact Framer.consume_of_cursor_le hn (hscanned.probed_eq_zero hp)

/-- Under the strict option a bare line feed becomes the first octet left, and the line feed of
a line's end arrives after the removal. Then more is removed than is held of a literal. -/
theorem remove_restarts_framing_at_bare_line_feed :
    let o : Options := { strictCrlf := true }
    let line := (start o).append [97, 13, 10, 98, 10, 99, 13]
    let literal := (start o).append [123, 53, 125, 13, 10, 97, 98]
    (Reachable o line ∧ line.scan.1.framer.cursor ≤ 4 ∧ line.scan.1.framer.pending = 0 ∧
      (line.scan.1.remove 4).framer = ((Framer.start o).scan [10, 99, 13]).framer ∧
      ((line.scan.1.remove 4).receiveAll [[10], [100]]).1.framer.cursor = 4) ∧
    (Reachable o literal ∧ literal.scan.1.framer.cursor ≤ 9 ∧
      0 < literal.scan.1.framer.pending ∧
      (literal.scan.1.remove 9).framer = { options := o, pending := 3 }) := by
  intro o line literal
  have hline : Reachable o line := .append _ .start
  have hliteral : Reachable o literal := .append _ .start
  have hbeyond : line.scan.1.framer.cursor ≤ 4 := by decide +kernel
  have hoff : line.scan.1.framer.pending = 0 := by decide +kernel
  have hbeyond' : literal.scan.1.framer.cursor ≤ 9 := by decide +kernel
  have hin : 0 < literal.scan.1.framer.pending := by decide +kernel
  obtain ⟨-, hframer, hreceive⟩ := (remove_restarts_framing hline hbeyond).1 hoff
  have hpending := (remove_restarts_framing hliteral hbeyond').2 hin
  refine ⟨⟨hline, hbeyond, hoff, hframer, ?_⟩, hliteral, hbeyond', hin, ?_⟩
  · rw [hreceive]
    decide +kernel
  · rw [hpending]
    decide +kernel

end Window

end StreamFraming
