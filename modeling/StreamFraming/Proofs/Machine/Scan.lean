import StreamFraming.Proofs.Debt
import StreamFraming.Proofs.Machine.Declaration

/-!
# A machine does not fail in a scan

The machine goes through a buffer by positions, and the framer through the octets from the cursor
on. This file shows that the one does what the other does, one function after the other, as long
as the positions fit a word: so no operation of a scan fails (`Machine.scan_eq`). Nothing is
asked of what the framer has remembered; the probe may be wrong, and the buffer another one than
before.

What a caller must see to for the positions to fit is little, since `Framer.Contained` is kept by
every call (`Framer.Driven.contained`).
-/

namespace StreamFraming.Machine

variable {f : Framer} {o : Options} {buffer : Octets}

/-! ## Lines -/

/-- The span of a line that begins at `start` and has this extent. -/
def Span.ofExtent (start : Nat) (e : Line.Extent) : Span where
  contentEnd := start + e.content
  lineEnd := start + e.length

/-- The machine finds the end of the content without going below zero. -/
theorem endOfContent_eq {start lf : Nat} {crlf : Bool} (h : crlf = true → 0 < lf) :
    endOfContent (start + lf) crlf = .ok (start + (Line.Extent.endingAt lf crlf).content) := by
  unfold endOfContent Line.Extent.endingAt
  cases crlf with
  | true =>
    have hpos := h rfl
    have hsub : start + lf - 1 = start + (lf - 1) := by omega
    rw [if_pos rfl, sub_of_le (by omega), hsub]
    rfl
  | false => rfl

/-- Without a line feed a look finds nothing. -/
theorem look_of_findIdx?_eq_none {start probed : Nat}
    (h : ((buffer.drop start).drop probed).findIdx? (· == Octet.lf) = none) :
    look o buffer start (start + probed) = .ok .nothing := by
  rw [List.drop_drop] at h
  simp only [look, h]

/-- A look finds the next line feed and judges it by the octet before it. -/
theorem look_of_findIdx?_eq_some {start probed i : Nat} {crlf : Bool}
    (hw : buffer.length < Decimal.wordLimit)
    (h : ((buffer.drop start).drop probed).findIdx? (· == Octet.lf) = some i)
    (hcr : (Line.octetBefore? (buffer.drop start) (probed + i) == some Octet.cr) = crlf) :
    look o buffer start (start + probed) =
      if crlf || !o.strictCrlf then
        .ok (.ended (.ofExtent start (.endingAt (probed + i) crlf)))
      else .ok (.bare (start + (probed + i + 1))) := by
  rw [List.drop_drop] at h
  obtain ⟨hlt, -⟩ := List.findIdx?_eq_some_iff_getElem.1 h
  rw [List.length_drop] at hlt
  have hposition : start + probed + i = start + (probed + i) := Nat.add_assoc ..
  have hfollows : follows Octet.cr buffer start (start + (probed + i)) = .ok crlf := by
    rw [follows_eq (Nat.le_add_right _ _) (by omega), Nat.add_sub_cancel_left, hcr]
  -- nothing stands before the line's first octet, so there is room to step back over the return
  have hpos : crlf = true → 0 < probed + i := by
    rintro rfl
    apply Nat.pos_of_ne_zero
    intro hzero
    rw [hzero] at hcr
    contradiction
  simp only [look, h]
  rw [add_of_lt (by omega), ok_bind, hposition, hfollows, ok_bind, add_of_lt (by omega), ok_bind]
  split
  · rw [endOfContent_eq hpos, ok_bind]
    rfl
  · rfl

theorem search_of_look_eq_nothing {start position : Nat}
    (h : look o buffer start position = .ok .nothing) :
    search o buffer start position = .ok none := by
  rw [search]
  split <;> simp_all

theorem search_of_look_eq_ended {start position : Nat} {span : Span}
    (h : look o buffer start position = .ok (.ended span)) :
    search o buffer start position = .ok (some span) := by
  rw [search]
  split <;> simp_all

theorem search_of_look_eq_bare {start position next : Nat}
    (h : look o buffer start position = .ok (.bare next)) :
    search o buffer start position = search o buffer start next := by
  rw [search]
  split <;> simp_all

/-- The machine finds the end of the line that the framer finds. -/
theorem search_eq (hw : buffer.length < Decimal.wordLimit) (start probed : Nat) :
    search o buffer start (start + probed) =
      .ok ((Line.find? o probed (buffer.drop start)).map (Span.ofExtent start)) := by
  cases hi : ((buffer.drop start).drop probed).findIdx? (· == Octet.lf) with
  | none =>
    rw [search_of_look_eq_nothing (look_of_findIdx?_eq_none hi),
      Line.find?_of_findIdx?_eq_none hi]
    rfl
  | some i =>
    have hlt : start + probed + i < buffer.length := by
      obtain ⟨hlt, -⟩ := List.findIdx?_eq_some_iff_getElem.1 hi
      rw [List.length_drop, List.length_drop] at hlt
      omega
    have hlook := look_of_findIdx?_eq_some (o := o) hw hi rfl
    rw [Line.find?_of_findIdx?_eq_some hi]
    split at hlook
    · next hend =>
      rw [search_of_look_eq_ended hlook, if_pos hend]
      rfl
    · next hbare =>
      rw [search_of_look_eq_bare hlook, if_neg hbare]
      exact search_eq hw start (probed + i + 1)
termination_by buffer.length - (start + probed)
decreasing_by omega

/-! ## Turns -/

/-- The machine takes as much payload as is pending and there. -/
theorem takePayload_eq (hw : buffer.length < Decimal.wordLimit) (hc : f.cursor ≤ buffer.length) :
    takePayload f buffer =
      .ok
        { f with
          cursor := f.cursor + min f.pending (buffer.length - f.cursor)
          pending := f.pending - min f.pending (buffer.length - f.cursor) } := by
  -- a payload too long for a word is longer than the buffer
  have htaken : (if f.pending < Decimal.wordLimit then
      min f.pending (buffer.length - f.cursor) else buffer.length - f.cursor) =
        min f.pending (buffer.length - f.cursor) := by
    split <;> omega
  simp only [takePayload, htaken]
  rw [add_of_lt (by omega), ok_bind, word_of_lt (by omega), ok_bind, sub_of_le (by omega),
    ok_bind]

/-- The machine finds the line that the search finds, and moves the probe as it does. -/
theorem nextLine_eq (hw : buffer.length < Decimal.wordLimit)
    (hp : f.cursor + f.probed < Decimal.wordLimit) :
    nextLine f buffer =
      .ok
        (match Line.find? f.options f.probed (buffer.drop f.cursor) with
        | some e => ({ f with probed := 0 }, some (.ofExtent f.cursor e))
        | none => ({ f with probed := buffer.length - f.cursor }, none)) := by
  unfold nextLine
  rw [add_of_lt hp, ok_bind, search_eq hw, ok_bind]
  cases Line.find? f.options f.probed (buffer.drop f.cursor) with
  | none => rfl
  | some e => rfl

/-- The machine counts a continuation without leaving the word. -/
theorem count_eq {d : Declaration} {n : Nat} (h : n + 1 < Decimal.wordLimit) :
    count d n = .ok (n + d.continuations) := by
  unfold count Declaration.continuations
  split
  · exact add_of_lt h
  · rfl

/-- The machine takes the line that is found, with its declaration, count and event. -/
theorem takeLine_eq {e : Line.Extent} {n : Nat} (hw : buffer.length < Decimal.wordLimit)
    (hf : f.pending = 0) (hprobed : f.probed = 0) (hcontent : e.content < e.length)
    (he : f.cursor + e.length ≤ buffer.length) (hn : n + 1 < Decimal.wordLimit) :
    let content := (buffer.drop f.cursor).take e.content
    takeLine f buffer (.ofExtent f.cursor e) n =
      .ok (f.passLine content e.length, n + Line.continuations content,
        .ofLine content f.cursor (f.cursor + e.length)) := by
  intro content
  have hslice : slice buffer f.cursor (Span.ofExtent f.cursor e).contentEnd = .ok content := by
    show slice buffer f.cursor (f.cursor + e.content) = _
    rw [slice_of_le (Nat.le_add_right _ _) (by omega), List.drop_take, Nat.add_sub_cancel_left]
  have hlength : content.length < Decimal.wordLimit := by
    rw [List.length_take]
    omega
  unfold takeLine
  rw [hslice, ok_bind, parse?_eq hlength, ok_bind]
  unfold Framer.passLine Framer.lineStart Line.announced Line.continuations Event.ofLine
  cases Declaration.parse? content with
  | none =>
    simp only [hf, hprobed]
    rfl
  | some d =>
    dsimp only
    rw [count_eq hn, ok_bind, hf, hprobed]
    rfl

theorem turnLine_of_find?_eq_none (hw : buffer.length < Decimal.wordLimit)
    (hp : f.cursor + f.probed < Decimal.wordLimit)
    (h : Line.find? f.options f.probed (buffer.drop f.cursor) = none) (n : Nat)
    (log : List Event) :
    turnLine f buffer n log = .ok (.stop { f with probed := buffer.length - f.cursor } log) := by
  unfold turnLine
  rw [nextLine_eq hw hp, ok_bind, h]

/-- A turn of the machine with a line takes it. -/
theorem turnLine_of_find?_eq_some {e : Line.Extent} {n : Nat}
    (hw : buffer.length < Decimal.wordLimit) (hp : f.cursor + f.probed < Decimal.wordLimit)
    (hf : f.pending = 0) (h : Line.find? f.options f.probed (buffer.drop f.cursor) = some e)
    (he : f.cursor + e.length ≤ buffer.length) (hn : n + 1 < Decimal.wordLimit)
    (log : List Event) :
    let content := (buffer.drop f.cursor).take e.content
    turnLine f buffer n log =
      .ok (.next (f.passLine content e.length) (n + Line.continuations content)
        (log ++ [.ofLine content f.cursor (f.cursor + e.length)])) := by
  intro content
  have htake := takeLine_eq (f := { f with probed := 0 }) hw hf rfl (Line.search_content_lt h) he hn
  unfold turnLine
  rw [nextLine_eq hw hp, ok_bind, h]
  dsimp only at htake ⊢
  rw [htake, ok_bind]
  rfl

/-- The buffer ends within the pending payload. -/
theorem turn_of_lt (hw : buffer.length < Decimal.wordLimit) (hc : f.cursor ≤ buffer.length)
    (h : buffer.length < f.lineStart) (n : Nat) :
    turn f buffer n =
      .ok (.stop
        { f with cursor := buffer.length, pending := f.lineStart - buffer.length } []) := by
  unfold Framer.lineStart at h ⊢
  have hin : f.inLiteral = true := decide_eq_true (by omega)
  have hmin : min f.pending (buffer.length - f.cursor) = buffer.length - f.cursor := by omega
  have hcursor : f.cursor + (buffer.length - f.cursor) = buffer.length := Nat.add_sub_of_le hc
  have hpending :
      f.pending - (buffer.length - f.cursor) = f.cursor + f.pending - buffer.length := by
    omega
  have hstill : 0 < f.cursor + f.pending - buffer.length := Nat.sub_pos_of_lt h
  unfold turn
  rw [if_pos hin, takePayload_eq hw hc, ok_bind, hmin, hcursor, hpending]
  exact if_pos (decide_eq_true hstill)

/-- The pending payload is there, and the line behind it is next. -/
theorem turn_of_le (hw : buffer.length < Decimal.wordLimit) (h : f.lineStart ≤ buffer.length)
    (n : Nat) :
    turn f buffer n = turnLine (f.atLine f.probed) buffer n f.completion := by
  have hstart : f.cursor + f.pending ≤ buffer.length := h
  unfold turn Framer.completion
  split
  · have hmin : min f.pending (buffer.length - f.cursor) = f.pending := by omega
    rw [takePayload_eq hw (by omega), ok_bind, hmin, Nat.sub_self]
    rfl
  · next hout =>
    have hpending : f.pending = 0 := by
      simpa [Framer.inLiteral] using hout
    rw [Framer.atLine_of_pending_eq_zero hpending]

/-- The line behind the pending payload has no end yet. -/
theorem turn_of_find?_eq_none (hw : buffer.length + f.probed < Decimal.wordLimit)
    (hl : f.lineStart ≤ buffer.length)
    (h : Line.find? f.options f.probed (buffer.drop f.lineStart) = none) (n : Nat) :
    turn f buffer n = .ok (.stop (f.atLine (buffer.length - f.lineStart)) f.completion) := by
  have hp : (f.atLine f.probed).cursor + (f.atLine f.probed).probed < Decimal.wordLimit := by
    show f.lineStart + f.probed < _
    omega
  rw [turn_of_le (by omega) hl, turnLine_of_find?_eq_none (by omega) hp h]
  rfl

/-- The line behind the pending payload has an end. -/
theorem turn_of_find?_eq_some {e : Line.Extent} {n : Nat}
    (hw : buffer.length + f.probed < Decimal.wordLimit)
    (h : Line.find? f.options f.probed (buffer.drop f.lineStart) = some e)
    (he : f.lineStart + e.length ≤ buffer.length) (hn : n ≤ f.cursor) :
    let content := (buffer.drop f.lineStart).take e.content
    turn f buffer n =
      .ok (.next (f.passLine content e.length) (n + Line.continuations content)
        (f.completion ++ [.ofLine content f.lineStart (f.lineStart + e.length)])) := by
  have hl := Nat.le_of_add_right_le he
  have hpos := (Line.find?_bounds h).1
  have hstart : f.cursor ≤ f.lineStart := Nat.le_add_right f.cursor f.pending
  have hp : (f.atLine f.probed).cursor + (f.atLine f.probed).probed < Decimal.wordLimit := by
    show f.lineStart + f.probed < _
    omega
  rw [turn_of_le (by omega) hl]
  exact turnLine_of_find?_eq_some (by omega) hp rfl h he (by omega) _

/-! ## Scans -/

theorem scanFrom_of_stop {g : Framer} {n : Nat} {new : List Event}
    (h : turn f buffer n = .ok (.stop g new)) (log : List Event) :
    scanFrom f buffer n log = .ok { framer := g, synchronizing := n, log := log ++ new } := by
  rw [scanFrom]
  split <;> simp_all

theorem scanFrom_of_next {g : Framer} {n m : Nat} {new : List Event}
    (h : turn f buffer n = .ok (.next g m new)) (log : List Event) :
    scanFrom f buffer n log = scanFrom g buffer m (log ++ new) := by
  rw [scanFrom]
  split <;> simp_all

/-- The machine takes the turns that the framer takes. The number of synchronizing literals never
passes the cursor, and so fits a word with it. -/
theorem scanFrom_eq (hc : f.cursor ≤ buffer.length)
    (hw : buffer.length + f.probed < Decimal.wordLimit) {n : Nat} (hn : n ≤ f.cursor)
    (log : List Event) :
    scanFrom f buffer n log = .ok ((f.scan buffer).following n log) := by
  induction f, hc using Framer.scan_induction generalizing n log with
  | payload f hc hl =>
    rw [scanFrom_of_stop (turn_of_lt (by omega) hc hl n), Framer.scan_of_lt hc hl]
    simp [Scan.following]
  | unended f hc hl hs =>
    rw [scanFrom_of_stop (turn_of_find?_eq_none hw hl hs n), Framer.scan_of_find?_eq_none hl hs]
    rfl
  | line f hc e hle hs ih =>
    have hone := Line.continuations_le_one ((buffer.drop f.lineStart).take e.content)
    have hpos := (Line.find?_bounds hs).1
    have hstart : f.cursor ≤ f.lineStart := Nat.le_add_right f.cursor f.pending
    -- a line has an octet for the literal that it may add to the number
    have hcount : n + Line.continuations ((buffer.drop f.lineStart).take e.content) ≤
        f.lineStart + e.length := by omega
    have hlimit : buffer.length + 0 < Decimal.wordLimit := by omega
    rw [scanFrom_of_next (turn_of_find?_eq_some hw hs hle hn), ih hlimit hcount,
      Framer.scan_of_find?_eq_some (Nat.le_of_add_right_le hle) hs]
    simp [Scan.following, Nat.add_assoc]

/-- No operation of a scan fails if the buffer with the probe fits a word, and the machine does
what the framer does. -/
theorem scan_eq (hc : f.cursor ≤ buffer.length)
    (hw : buffer.length + f.probed < Decimal.wordLimit) :
    scan f buffer = .ok (f.scan buffer) := by
  unfold scan
  rw [if_pos hc, scanFrom_eq hc hw (Nat.zero_le _)]
  simp [Scan.following]

-- Neither condition can be left out.
example : scan { cursor := 1 } [] = .error .shrunk := rfl

example : scan { probed := UInt64.size } [] = .error .overflow := by cbv

end StreamFraming.Machine
