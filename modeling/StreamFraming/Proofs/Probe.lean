import StreamFraming.Plain
import StreamFraming.Proofs.Chunking

/-!
# The probe only saves searching

A framer remembers how much of the unfinished line it has searched. Forgetting this
(`Framer.forget`) leaves a plain framer, and whatever the owner of the buffer does, forgetting
first and forgetting afterwards come to the same (`InStep.scan_forget`, `InStep.perform_forget`):
what is searched never holds an end of the line, not even when more is removed than was framed.

The plain framer's scan goes on in three ways, and there is one equation for each.
-/

namespace StreamFraming

/-! ## One turn of a plain scan -/

namespace PlainFramer

variable {f : PlainFramer} {rest : Octets}

/-- Too few octets are all taken as payload. -/
theorem takePayload_of_lt (h : rest.length < f.pending) :
    f.takePayload rest =
      { f with cursor := f.cursor + rest.length, pending := f.pending - rest.length } := by
  unfold takePayload
  rw [List.take_of_length_le (Nat.le_of_lt h)]

theorem takePayload_of_le (h : f.pending ≤ rest.length) :
    f.takePayload rest = { f with cursor := f.cursor + f.pending, pending := 0 } := by
  unfold takePayload
  simp only [List.length_take_of_le h, Nat.sub_self]

/-- A plain scan of too few octets takes them all as payload. -/
theorem scanFrom_of_lt (h : rest.length < f.pending) :
    f.scanFrom rest =
      { framer :=
          { f with cursor := f.cursor + rest.length, pending := f.pending - rest.length }
        synchronizing := 0
        log := [] } := by
  have hpos : 0 < f.pending - rest.length := by omega
  rw [scanFrom, takePayload_of_lt h]
  exact if_pos hpos

/-- A plain framer behind its payload takes a line as its content says. -/
theorem takeLine_eq (hp : f.pending = 0) (rest : Octets) (e : Line.Extent) :
    let content := rest.take e.content
    f.takeLine rest e =
      ({ f with cursor := f.cursor + e.length, pending := Line.announced content },
        Line.continuations content, .ofLine content f.cursor (f.cursor + e.length)) := by
  unfold takeLine Line.announced Line.continuations Event.ofLine
  dsimp only
  cases Declaration.parse? (rest.take e.content) with
  | some d => rfl
  | none => rw [← hp]

end PlainFramer

/-! ## Forgetting the probe -/

/-- The framer without its probe. -/
def Framer.forget (f : Framer) : PlainFramer where
  options := f.options
  cursor := f.cursor
  pending := f.pending

/-- The scan of a framer without its probe. -/
def Scan.forget (s : Scan) : PlainScan where
  framer := s.framer.forget
  synchronizing := s.synchronizing
  log := s.log

/-- The window of a framer without its probe. -/
def Window.forget (w : Window) : PlainWindow where
  framer := w.framer.forget
  held := w.held

theorem Scan.forget_following (s : Scan) (synchronizing : Nat) (log : List Event) :
    (s.following synchronizing log).forget = s.forget.following synchronizing log := rfl

namespace Framer

variable {f : Framer} {buffer : Octets}

theorem completion_forget (f : Framer) :
    (if 0 < f.forget.pending then [Event.payloadComplete (f.forget.cursor + f.forget.pending)]
      else []) = f.completion := by
  unfold completion inLiteral
  simp only [decide_eq_true_eq]
  rfl

/-- If the next line starts in the buffer, the pending payload is there. -/
theorem takePayload_forget (h : f.lineStart ≤ buffer.length) :
    f.forget.takePayload (buffer.drop f.forget.cursor) = (f.atLine f.probed).forget := by
  have hle : f.forget.pending ≤ (buffer.drop f.forget.cursor).length := by
    rw [List.length_drop]
    exact Nat.le_sub_of_add_le' h
  rw [PlainFramer.takePayload_of_le hle]
  rfl

theorem pending_takePayload_forget (h : f.lineStart ≤ buffer.length) :
    (f.forget.takePayload (buffer.drop f.forget.cursor)).pending = 0 := by
  rw [takePayload_forget h]
  rfl

/-- If the next line does not start in the buffer, all that is behind the cursor is payload. -/
theorem scan_forget_of_lt (hc : f.cursor ≤ buffer.length) (h : buffer.length < f.lineStart) :
    f.forget.scan buffer =
      { framer :=
          { f.forget with cursor := buffer.length, pending := f.lineStart - buffer.length }
        synchronizing := 0
        log := [] } := by
  have hlen : (buffer.drop f.forget.cursor).length = buffer.length - f.cursor := List.length_drop
  have hlt : (buffer.drop f.forget.cursor).length < f.forget.pending := by
    rw [hlen]
    exact Nat.sub_lt_left_of_lt_add hc h
  have hcursor : f.cursor + (buffer.length - f.cursor) = buffer.length := Nat.add_sub_of_le hc
  have hpending : f.pending - (buffer.length - f.cursor) = f.lineStart - buffer.length := by
    unfold lineStart
    omega
  rw [PlainFramer.scan, PlainFramer.scanFrom_of_lt hlt, hlen]
  show PlainScan.mk (PlainFramer.mk f.options (f.cursor + _) (f.pending - _)) 0 [] = _
  rw [hcursor, hpending]
  rfl

/-- Without a terminator the plain scan waits where the line starts. -/
theorem scan_forget_of_search_eq_none (h : f.lineStart ≤ buffer.length)
    (hs : Line.search f.options 0 none (buffer.drop f.lineStart) = none) :
    f.forget.scan buffer =
      { framer := (f.atLine f.probed).forget, synchronizing := 0, log := f.completion } := by
  have htake := takePayload_forget h
  have hpending := pending_takePayload_forget h
  rw [lineStart, ← List.drop_drop] at hs
  rw [PlainFramer.scan, PlainFramer.scanFrom_of_search_eq_none hpending hs, htake,
    ← completion_forget]
  rfl

theorem scan_forget_of_search_eq_some {e : Line.Extent} (h : f.lineStart ≤ buffer.length)
    (hs : Line.search f.options 0 none (buffer.drop f.lineStart) = some e) :
    let content := (buffer.drop f.lineStart).take e.content
    f.forget.scan buffer =
      ((f.passLine content e.length).forget.scan buffer).following (Line.continuations content)
        (f.completion ++ [.ofLine content f.lineStart (f.lineStart + e.length)]) := by
  intro content
  have htake := takePayload_forget h
  have hpending := pending_takePayload_forget h
  have hline : (buffer.drop f.forget.cursor).drop f.forget.pending = buffer.drop f.lineStart :=
    List.drop_drop
  rw [← hline] at hs
  rw [PlainFramer.scan, PlainFramer.scanFrom_of_search_eq_some hpending hs
    (PlainFramer.takeLine_eq hpending _ e), htake, hline, List.drop_drop, ← completion_forget]
  rfl

/-- A framer in step scans as a plain framer does. -/
theorem InStep.scan_forget (h : f.InStep buffer) :
    f.forget.scan buffer = (f.scan buffer).forget := by
  have hc := h.cursor_le
  induction f, hc using scan_induction with
  | payload f hc hl =>
    rw [scan_forget_of_lt hc hl, scan_of_lt hc hl]
    rfl
  | unended f hc hl hn =>
    -- the octets that the probe spares hold no end, so the whole line holds none
    have hs := h.searched_line.find?_eq_search.symm.trans hn
    rw [scan_forget_of_search_eq_none hl hs, scan_of_find?_eq_none hl hn]
    rfl
  | line f hc e hstop hf ih =>
    -- the probe spares the search a part of the line, and the end is found where it is
    have hl := Nat.le_of_add_right_le hstop
    have hs := h.searched_line.find?_eq_search.symm.trans hf
    rw [scan_forget_of_search_eq_some hl hs, scan_of_find?_eq_some hl hf, Scan.forget_following,
      ih (inStep_passLine hstop)]

end Framer

/-! ## Operations -/

namespace Window

variable {o : Options} {w : Window}

theorem InStep.perform (h : w.InStep) (operation : Operation) : (w.perform operation).1.InStep := by
  cases operation with
  | receive received => exact h.receive received
  | remove n => exact Framer.InStep.consume h n
  | reset => exact Framer.inStep_start _ _

/-- An operation does the same without the probe. -/
theorem InStep.perform_forget (h : w.InStep) (operation : Operation) :
    w.forget.perform operation =
      ((w.perform operation).1.forget, (w.perform operation).2) := by
  cases operation with
  | receive received =>
    have hscan : w.forget.framer.scan (w.forget.held ++ received) =
        (w.framer.scan (w.held ++ received)).forget :=
      Framer.InStep.scan_forget (h.append received)
    simp only [PlainWindow.perform, hscan]
    rfl
  | remove n => rfl
  | reset => rfl

/-- Operations do the same without the probe. -/
theorem InStep.performAll_forget (h : w.InStep) (operations : List Operation) :
    Operation.performAll PlainWindow.perform w.forget operations =
      ((Operation.performAll Window.perform w operations).1.forget,
        (Operation.performAll Window.perform w operations).2) := by
  induction operations generalizing w with
  | nil => rfl
  | cons operation operations ih =>
    have hrest := ih (h.perform operation)
    simp only [Operation.performAll, h.perform_forget, hrest]

theorem Reachable.perform (h : Reachable o w) (operation : Operation) :
    Reachable o (w.perform operation).1 := by
  cases operation with
  | receive received => exact .scan (.append received h)
  | remove n => exact .remove n h
  | reset => exact .reset h

/-- Operations lead from a reachable window to a reachable one. -/
theorem Reachable.performAll (h : Reachable o w) (operations : List Operation) :
    Reachable o (Operation.performAll Window.perform w operations).1 := by
  induction operations generalizing w with
  | nil => exact h
  | cons operation operations ih => exact ih (h.perform operation)

theorem performAll_concat (w : Window) (operations : List Operation) (operation : Operation) :
    (Operation.performAll perform w (operations ++ [operation])).1 =
      ((Operation.performAll perform w operations).1.perform operation).1 := by
  induction operations generalizing w with
  | nil => rfl
  | cons first operations ih => exact ih (w.perform first).1

/-- The probe only saves searching. Whatever the owner of a buffer does, also if more is removed
than was framed, a framer without a probe reports the same and comes to the same cursor and the
same pending payload. The octets that the probe spares hold no end of the line, they are in the
buffer, and there are none while payload is pending. When a scan has stopped outside a payload
the whole buffer is searched, and the next search looks at what is received next, all of it and
nothing else. -/
theorem performAll_independent_of_probe (o : Options) (operations : List Operation) :
    let probing := Operation.performAll perform (start o) operations
    let plain := Operation.performAll PlainWindow.perform (PlainWindow.start o) operations
    let w := probing.1
    (plain.2 = probing.2 ∧ plain.1.held = w.held ∧ plain.1.framer.cursor = w.framer.cursor ∧
      plain.1.framer.pending = w.framer.pending) ∧
    (∀ i < w.framer.probed, ¬Line.IsTerminator o (w.held.drop w.framer.cursor) i) ∧
    w.framer.cursor + w.framer.probed ≤ w.held.length ∧
    (0 < w.framer.pending → w.framer.probed = 0) ∧
    ∀ earlier received, operations = earlier ++ [.receive received] → w.framer.pending = 0 →
      w.framer.cursor + w.framer.probed = w.held.length ∧
      ∀ more, ((w.held ++ more).drop w.framer.cursor).drop w.framer.probed = more := by
  intro probing plain w
  have hreach : Reachable o w := Reachable.start.performAll operations
  have hstep : w.framer.InStep w.held := hreach.inStep
  have hplain : plain = (w.forget, probing.2) := (inStep_start o).performAll_forget operations
  refine ⟨?_, ?_, ?_, hstep.probed_eq_zero, ?_⟩
  · rw [hplain]
    exact ⟨rfl, rfl, rfl, rfl⟩
  · rw [← hreach.options_eq]
    exact hstep.searched.not_isTerminator
  · have hcursor := hstep.cursor_le
    have hprobed := hstep.searched.le_length
    rw [List.length_drop] at hprobed
    omega
  · intro earlier received hsplit hp
    -- the last operation is a scan of all that is held then
    have hearlier := Reachable.start.performAll (o := o) earlier
    have hw : w = ((Operation.performAll perform (start o) earlier).1.receive received).1 := by
      show (Operation.performAll perform (start o) operations).1 = _
      rw [hsplit, performAll_concat]
      rfl
    have hsettled : w.framer.Settled w.held := by
      rw [hw]
      exact Framer.settled_scan (Framer.InStep.append hearlier.inStep received).cursor_le
    have hend := hsettled.cursor_add_probed hp
    refine ⟨hend, ?_⟩
    intro more
    rw [List.drop_drop, hend, List.drop_left]

/-- Removing unframed octets cuts a CR from the LF that follows it, which then ends no line, and
takes off a part of what is searched. The next CRLF arrives in two parts. -/
theorem performAll_independent_of_probe_when_line_end_is_cut :
    let o : Options := { strictCrlf := true }
    let operations : List Operation :=
      [.receive [97, 13], .remove 2, .receive [10, 98], .remove 1, .receive [13],
        .receive [10, 99]]
    let w := (Operation.performAll perform (start o) operations).1
    let plain := Operation.performAll PlainWindow.perform (PlainWindow.start o) operations
    plain.1.framer.cursor = 3 ∧ plain.2 = (Operation.performAll perform (start o) operations).2 ∧
      w.framer.cursor + w.framer.probed = 4 ∧ ¬Line.IsTerminator o (w.held.drop 3) 0 := by
  intro o operations w plain
  have hcursor : w.framer.cursor = 3 := by decide +kernel
  have hprobed : w.framer.probed = 1 := by decide +kernel
  have hheld : w.held.length = 4 := by decide +kernel
  obtain ⟨⟨hreports, -, hplain, -⟩, hunended, -, -, hend⟩ :=
    performAll_independent_of_probe o operations
  refine ⟨hplain.trans hcursor, hreports, ?_, ?_⟩
  · have hpending : w.framer.pending = 0 := by decide +kernel
    obtain ⟨hall, -⟩ := hend (operations.take 5) [10, 99] rfl hpending
    exact hall.trans hheld
  · have hfirst := hunended 0 (hprobed ▸ Nat.one_pos)
    rw [hcursor] at hfirst
    exact hfirst

end Window

end StreamFraming
