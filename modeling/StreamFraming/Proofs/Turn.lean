import StreamFraming.Framer
import StreamFraming.Proofs.Terminator

/-!
# A scan, turn by turn

A scan has three ways to go on from the cursor, and this file says once what each of them
does to the buffer as a whole:

* the buffer ends within the payload that is still to come (`scan_of_lt`);
* the payload is there, and the line after it has no end yet (`scan_of_find?_eq_none`);
* the line has an end, and the scan goes on behind it (`scan_of_find?_eq_some`).

`scan_induction` is the induction over the turns of a scan that goes with them. Positions
are those of the buffer, so that the rest of the buffer need not be carried along.
-/

namespace StreamFraming

/-! ## What a line comes to -/

/-- The number of payload octets that a line of this content announces. -/
def Line.announced (content : Octets) : Nat :=
  match Declaration.parse? content with
  | some d => d.length.toNat
  | none => 0

/-- The number of continuations that a line of this content makes the receiver owe. -/
def Line.continuations (content : Octets) : Nat :=
  match Declaration.parse? content with
  | some d => d.continuations
  | none => 0

/-- The report of a line of this content, which lies between `start` and `stop`. -/
def Event.ofLine (content : Octets) (start stop : Nat) : Event :=
  match Declaration.parse? content with
  | some d => .declaration d stop
  | none => .line start stop (Utf8.display content)

/-- A scan together with what was found before it. -/
def Scan.following (s : Scan) (synchronizing : Nat) (log : List Event) : Scan where
  framer := s.framer
  synchronizing := synchronizing + s.synchronizing
  log := log ++ s.log

@[simp] theorem Scan.following_framer (s : Scan) (n : Nat) (log : List Event) :
    (s.following n log).framer = s.framer := rfl

namespace Framer

/-- Where the next line starts: behind the payload that is still to come. -/
def lineStart (f : Framer) : Nat := f.cursor + f.pending

theorem lineStart_of_pending_eq_zero {f : Framer} (h : f.pending = 0) :
    f.lineStart = f.cursor := by
  unfold lineStart
  rw [h, Nat.add_zero]

/-- The report of the pending payload once it is there. -/
def completion (f : Framer) : List Event :=
  if f.inLiteral then [.payloadComplete f.lineStart] else []

theorem completion_of_pending_eq_zero {f : Framer} (h : f.pending = 0) : f.completion = [] := by
  unfold completion inLiteral
  rw [h]
  rfl

/-- The framer at the next line, of which `probed` octets are searched. -/
def atLine (f : Framer) (probed : Nat) : Framer :=
  { f with cursor := f.lineStart, pending := 0, probed }

theorem atLine_of_pending_eq_zero {f : Framer} (h : f.pending = 0) : f.atLine f.probed = f := by
  unfold atLine
  rw [lineStart_of_pending_eq_zero h, ← h]

/-- The framer behind the next line, which has this content and length. -/
def passLine (f : Framer) (content : Octets) (length : Nat) : Framer :=
  { f with cursor := f.lineStart + length, pending := Line.announced content, probed := 0 }

/-- Behind a line a payload is still to come if the line announces one. -/
theorem completion_passLine (f : Framer) (content : Octets) (length : Nat) :
    (f.passLine content length).completion =
      if Line.announced content = 0 then []
      else [.payloadComplete (f.lineStart + length + Line.announced content)] := by
  show (if decide (0 < Line.announced content) then _ else _) = _
  by_cases h : Line.announced content = 0
  · rw [if_pos h, h]
    rfl
  · rw [if_neg h, if_pos (decide_eq_true (Nat.pos_of_ne_zero h))]
    rfl

/-! ## One turn -/

/-- A turn with too few octets for the pending payload takes them and stops. -/
theorem turn_of_lt {f : Framer} {rest : Octets} (h : rest.length < f.pending) :
    f.turn rest =
      .stop { f with cursor := f.cursor + rest.length, pending := f.pending - rest.length } [] := by
  have htake : (rest.take f.pending).length = rest.length := by
    rw [List.length_take]
    omega
  have hin : 0 < f.pending - rest.length := by omega
  simp only [turn, takePayload, inLiteral, htake, hin, decide_true, if_true]

/-- A turn with all of the pending payload there goes on to the line behind it. -/
theorem turn_of_le {f : Framer} {rest : Octets} (h : f.pending ≤ rest.length) :
    f.turn rest = (f.atLine f.probed).takeLine (rest.drop f.pending) f.completion := by
  have htake : (rest.take f.pending).length = f.pending := by
    rw [List.length_take]
    omega
  simp only [turn, takePayload, htake, Nat.sub_self, inLiteral, Nat.lt_irrefl, decide_false,
    Bool.false_eq_true, if_false]
  rfl

theorem takeLine_of_find?_eq_none {f : Framer} {rest : Octets}
    (h : Line.find? f.options f.probed rest = none) (log : List Event) :
    f.takeLine rest log = .stop { f with probed := rest.length } log := by
  simp only [takeLine, h]

/-- A line that is found is passed, counted and logged. -/
theorem takeLine_of_find?_eq_some {f : Framer} {rest : Octets} {e : Line.Extent}
    (hf : f.pending = 0) (h : Line.find? f.options f.probed rest = some e) (log : List Event) :
    f.takeLine rest log =
      .next (f.passLine (rest.take e.content) e.length) (rest.drop e.length)
        (Line.continuations (rest.take e.content))
        (log ++ [.ofLine (rest.take e.content) f.cursor (f.cursor + e.length)]) := by
  simp only [takeLine, h, passLine, lineStart, Line.announced, Line.continuations, Event.ofLine]
  cases Declaration.parse? (rest.take e.content) with
  | some d => simp [hf]
  | none => simp [hf]

/-! ## One turn of a scan -/

variable {f : Framer} {buffer : Octets}

/-- The buffer ends within the pending payload, and all of the buffer is framed. -/
theorem scan_of_lt (hc : f.cursor ≤ buffer.length) (h : buffer.length < f.lineStart) :
    f.scan buffer =
      { framer := { f with cursor := buffer.length, pending := f.lineStart - buffer.length }
        synchronizing := 0
        log := [] } := by
  unfold lineStart at h ⊢
  have hlen : (buffer.drop f.cursor).length = buffer.length - f.cursor := List.length_drop
  have hlt : (buffer.drop f.cursor).length < f.pending := by omega
  have hturn := turn_of_lt hlt
  have hcursor : f.cursor + (buffer.length - f.cursor) = buffer.length := by omega
  have hpending :
      f.pending - (buffer.length - f.cursor) = f.cursor + f.pending - buffer.length := by
    omega
  rw [hlen, hcursor, hpending] at hturn
  rw [scan, scanFrom_of_stop hturn]
  rfl

theorem turn_drop_of_le (h : f.lineStart ≤ buffer.length) :
    f.turn (buffer.drop f.cursor) =
      (f.atLine f.probed).takeLine (buffer.drop f.lineStart) f.completion := by
  unfold lineStart at h ⊢
  rw [turn_of_le (by rw [List.length_drop]; omega), List.drop_drop]

/-- The line behind the pending payload has no end yet, and waits for it. -/
theorem scan_of_find?_eq_none (h : f.lineStart ≤ buffer.length)
    (hn : Line.find? f.options f.probed (buffer.drop f.lineStart) = none) :
    f.scan buffer =
      { framer := f.atLine (buffer.length - f.lineStart)
        synchronizing := 0
        log := f.completion } := by
  have hturn := turn_drop_of_le h
  rw [takeLine_of_find?_eq_none (f := f.atLine f.probed) hn, List.length_drop] at hturn
  rw [scan, scanFrom_of_stop hturn]
  rfl

/-- The line behind the pending payload has an end, and the scan goes on behind the line. -/
theorem scan_of_find?_eq_some {e : Line.Extent} (h : f.lineStart ≤ buffer.length)
    (hs : Line.find? f.options f.probed (buffer.drop f.lineStart) = some e) :
    f.scan buffer =
      ((f.passLine ((buffer.drop f.lineStart).take e.content) e.length).scan buffer).following
        (Line.continuations ((buffer.drop f.lineStart).take e.content))
        (f.completion ++ [.ofLine ((buffer.drop f.lineStart).take e.content) f.lineStart
          (f.lineStart + e.length)]) := by
  have hturn := turn_drop_of_le h
  rw [takeLine_of_find?_eq_some (f := f.atLine f.probed) rfl hs, List.drop_drop] at hturn
  rw [scan, scanFrom_of_next hturn, scanFrom_eq, Nat.zero_add]
  simp [Scan.following, scan, passLine, atLine, lineStart]

/-- A framer that has nothing left to look at stays as it is. -/
theorem scan_of_settled (hc : f.cursor + f.probed = buffer.length)
    (hp : 0 < f.pending → f.probed = 0) :
    f.scan buffer = { framer := f, synchronizing := 0, log := [] } := by
  by_cases h : 0 < f.pending
  · -- the payload goes on behind the buffer
    have hprobed := hp h
    have hcursor : f.cursor = buffer.length := by omega
    have hlt : buffer.length < f.lineStart := by
      unfold lineStart
      omega
    have hpending : f.lineStart - buffer.length = f.pending := by
      unfold lineStart
      omega
    rw [scan_of_lt (Nat.le_of_eq hcursor) hlt, hpending, ← hcursor]
  · -- the line is searched as far as the buffer goes
    have hpending : f.pending = 0 := by omega
    have hstart := lineStart_of_pending_eq_zero hpending
    have hprobed : f.probed = (buffer.drop f.lineStart).length := by
      rw [List.length_drop]
      omega
    have hnone : Line.find? f.options f.probed (buffer.drop f.lineStart) = none := by
      rw [hprobed]
      exact Line.find?_length _
    have hatLine := atLine_of_pending_eq_zero hpending
    have hcompletion := completion_of_pending_eq_zero hpending
    rw [scan_of_find?_eq_none (by omega) hnone, ← List.length_drop, ← hprobed, hatLine,
      hcompletion]

/-- At the start of a stream there is nothing to frame. -/
theorem scan_start_nil (o : Options) :
    (start o).scan [] = { framer := start o, synchronizing := 0, log := [] } :=
  scan_of_settled rfl fun _ => rfl

/-- Induction over the turns of a scan. -/
@[elab_as_elim]
theorem scan_induction {motive : (f : Framer) → f.cursor ≤ buffer.length → Prop}
    (payload : ∀ f hc, buffer.length < f.lineStart → motive f hc)
    (unended : ∀ f hc, f.lineStart ≤ buffer.length →
      Line.find? f.options f.probed (buffer.drop f.lineStart) = none → motive f hc)
    (line : ∀ f hc e, ∀ hle : f.lineStart + e.length ≤ buffer.length,
      Line.find? f.options f.probed (buffer.drop f.lineStart) = some e →
      motive (f.passLine ((buffer.drop f.lineStart).take e.content) e.length) hle → motive f hc)
    (f : Framer) (hc : f.cursor ≤ buffer.length) : motive f hc := by
  by_cases hl : f.lineStart ≤ buffer.length
  · cases hs : Line.find? f.options f.probed (buffer.drop f.lineStart) with
    | none => exact unended f hc hl hs
    | some e =>
      have hb := Line.find?_bounds hs
      rw [List.length_drop] at hb
      have hle : f.lineStart + e.length ≤ buffer.length := by omega
      have hlt : f.cursor < f.lineStart + e.length := by
        unfold lineStart
        omega
      exact line f hc e hle hs (scan_induction payload unended line _ hle)
  · exact payload f hc (by omega)
termination_by buffer.length - f.cursor
decreasing_by
  show buffer.length - (f.lineStart + e.length) < buffer.length - f.cursor
  omega

/-- A scan frames no more than there is. -/
theorem cursor_scan_le (hc : f.cursor ≤ buffer.length) :
    (f.scan buffer).framer.cursor ≤ buffer.length := by
  induction f, hc using scan_induction with
  | payload f hc hl =>
    have hscan := congrArg (fun s => s.framer.cursor) (scan_of_lt hc hl)
    exact Nat.le_of_eq hscan
  | unended f hc hl hn =>
    rw [scan_of_find?_eq_none hl hn]
    exact hl
  | line f hc e hle hs ih =>
    rw [scan_of_find?_eq_some (Nat.le_of_add_right_le hle) hs]
    exact ih

end Framer

end StreamFraming
