import StreamFraming.Automaton
import StreamFraming.Proofs.Chunking

/-!
# Scans and the automaton

A framer jumps from line end to line end and skips payloads at once; the automaton of
`StreamFraming.Automaton` takes one octet at a time. This file shows that they do the same:

* `Automaton.trace` is the scan that the automaton makes, octet by octet;
* `Tracks` relates the automaton to the stream it has taken, and one more octet keeps the
  relation and is scanned as the automaton takes it (`Tracks.scan_concat`, `Tracks.step`);
* so a scan is a trace (`Tracks.scan_append_eq_trace`, `scan_start`), and the scans of a
  growing buffer stand wherever the automaton stands (`receiveAll_refines_automaton`).
-/

namespace StreamFraming

/-- The number of payload octets that are still to come. -/
def Mode.left : Mode → Nat
  | .line _ => 0
  | .payload left => left

/-- The number of octets of an unfinished line. -/
def Mode.probed : Mode → Nat
  | .line seen => seen.length
  | .payload _ => 0

/-- The octets of the stream that are not decided yet are the unfinished line. Within a
payload all are decided. -/
def Mode.Fits (stream : Octets) (valid : Nat) : Mode → Prop
  | .line seen => stream.drop valid = seen
  | .payload left => valid = stream.length ∧ 0 < left

@[simp] theorem Mode.left_line (seen : Octets) : (line seen).left = 0 := rfl

@[simp] theorem Mode.probed_line (seen : Octets) : (line seen).probed = seen.length := rfl

@[simp] theorem Mode.probed_payload (left : Nat) : (payload left).probed = 0 := rfl

@[simp] theorem Mode.left_ofPending (n : Nat) : (Mode.ofPending n).left = n := by
  unfold ofPending
  split
  · next h => exact h.symm
  · rfl

@[simp] theorem Mode.probed_ofPending (n : Nat) : (Mode.ofPending n).probed = 0 := by
  unfold ofPending
  split <;> rfl

/-- At the end of what has arrived a payload or a line may start. -/
theorem Mode.fits_ofPending (stream : Octets) (n : Nat) :
    (ofPending n).Fits stream stream.length := by
  unfold ofPending
  split
  · exact List.drop_length
  · next h => exact ⟨rfl, Nat.pos_of_ne_zero h⟩

namespace Automaton

variable {o : Options} {a : Automaton} {stream : Octets}

/-! ## What the automaton reports -/

/-- The number of continuations that the next octet makes the receiver owe. -/
def owes (o : Options) (a : Automaton) (b : UInt8) : Nat :=
  match a.mode with
  | .line seen => if b = Octet.lf ∧ ends o seen then Line.continuations (content seen) else 0
  | .payload _ => 0

/-- What is recognised at the next octet. -/
def events (o : Options) (a : Automaton) (b : UInt8) : List Event :=
  match a.mode with
  | .line seen =>
    if b = Octet.lf ∧ ends o seen then [.ofLine (content seen) a.valid (a.position + 1)] else []
  | .payload left => if left = 1 then [.payloadComplete (a.position + 1)] else []

/-- The framer that stands where the automaton stands. -/
def framer (o : Options) (a : Automaton) : Framer where
  options := o
  cursor := a.valid
  pending := a.mode.left
  probed := a.mode.probed

/-- The scan of some octets, one after the other. -/
def trace (o : Options) (a : Automaton) : Octets → Scan
  | [] => { framer := a.framer o, synchronizing := 0, log := [] }
  | b :: octets => ((a.step o b).trace o octets).following (a.owes o b) (a.events o b)

theorem confirm_eq (a : Automaton) (content : Octets) :
    a.confirm content =
      { mode := .ofPending (Line.announced content)
        position := a.position + 1
        valid := a.position + 1
        synchronizing := a.synchronizing + Line.continuations content } := by
  unfold confirm Line.announced Line.continuations
  cases Declaration.parse? content with
  | some d => rfl
  | none => rfl

theorem step_position (o : Options) (a : Automaton) (b : UInt8) :
    (a.step o b).position = a.position + 1 := by
  cases hm : a.mode with
  | payload left => simp only [step, hm]
  | line seen =>
    simp only [step, hm, confirm_eq]
    split <;> rfl

/-- An octet adds the continuation that it makes the receiver owe. -/
theorem step_synchronizing (o : Options) (a : Automaton) (b : UInt8) :
    (a.step o b).synchronizing = a.synchronizing + a.owes o b := by
  cases hm : a.mode with
  | payload left => simp only [step, owes, hm, Nat.add_zero]
  | line seen =>
    simp only [step, owes, hm]
    by_cases h : b = Octet.lf ∧ ends o seen
    · rw [if_pos h, if_pos h, confirm_eq]
    · rw [if_neg h, if_neg h]
      rfl

/-- A trace ends in the framer of the run. -/
theorem trace_framer (o : Options) (a : Automaton) (octets : Octets) :
    (a.trace o octets).framer = (run o a octets).framer o := by
  induction octets generalizing a with
  | nil => rfl
  | cons b octets ih => exact ih (a.step o b)

theorem add_trace_synchronizing (o : Options) (a : Automaton) (octets : Octets) :
    a.synchronizing + (a.trace o octets).synchronizing = (run o a octets).synchronizing := by
  induction octets generalizing a with
  | nil => rfl
  | cons b octets ih =>
    have hstep := step_synchronizing o a b
    have hrest := ih (a.step o b)
    show a.synchronizing + (a.owes o b + _) = (run o (a.step o b) octets).synchronizing
    omega

/-- A line feed ends a line by the octet before it, as in a search. -/
theorem ends_eq (seen : Octets) :
    ends o seen = (seen.getLast? == some Octet.cr || !o.strictCrlf) := by
  rw [Bool.beq_eq_decide_eq]
  rfl

/-- The content of a line is what its extent says. -/
theorem take_content_endingAt (seen : Octets) (b : UInt8) :
    (seen ++ [b]).take
        (Line.Extent.endingAt seen.length (seen.getLast? == some Octet.cr)).content =
      content seen := by
  unfold Line.Extent.endingAt content
  by_cases h : seen.getLast? = some Octet.cr
  · have hle : seen.length - 1 ≤ seen.length := Nat.sub_le ..
    simp only [h, beq_self_eq_true, if_true]
    rw [List.take_append_of_le_length hle, List.dropLast_eq_take]
  · simp only [beq_eq_false_iff_ne.2 h, Bool.false_eq_true, if_false, h, List.take_left]

end Automaton

/-! ## One octet of a scan -/

namespace Framer

variable {f : Framer} {stream : Octets}

/-- The octet belongs to the payload, and may be the last one of it. -/
theorem scan_concat_of_pending {left : Nat} (hc : f.cursor = stream.length)
    (hp : f.pending = left + 1) (hprobed : f.probed = 0) (b : UInt8) :
    f.scan (stream ++ [b]) =
      { framer := { f with cursor := stream.length + 1, pending := left }
        synchronizing := 0
        log := if left = 0 then [.payloadComplete (stream.length + 1)] else [] } := by
  have hlen : (stream ++ [b]).length = stream.length + 1 := List.length_append
  have hstart : f.lineStart = stream.length + 1 + left := by
    unfold lineStart
    omega
  have hin : f.inLiteral = true := by
    unfold inLiteral
    rw [hp]
    rfl
  cases left with
  | zero =>
    -- the payload ends with the octet, and nothing of the next line is there
    have hend : f.lineStart = (stream ++ [b]).length := by omega
    have hnone : Line.find? f.options f.probed ((stream ++ [b]).drop f.lineStart) = none := by
      rw [hprobed, hend, List.drop_length]
      exact Line.find?_length []
    rw [scan_of_find?_eq_none (Nat.le_of_eq hend) hnone, hlen, completion, hin, hstart]
    simp [atLine, hstart, hprobed]
  | succ left =>
    rw [scan_of_lt (by omega) (by omega), hlen, hstart, if_neg (Nat.succ_ne_zero left),
      Nat.add_sub_cancel_left]

/-- The octet belongs to an unfinished line, and may be the end of it. -/
theorem scan_concat_of_line {seen : Octets} (hc : f.cursor ≤ stream.length)
    (hp : f.pending = 0) (hseen : stream.drop f.cursor = seen) (hprobed : f.probed = seen.length)
    (b : UInt8) :
    f.scan (stream ++ [b]) =
      if b = Octet.lf ∧ Automaton.ends f.options seen then
        { framer :=
            { f with
              cursor := stream.length + 1
              pending := Line.announced (Automaton.content seen)
              probed := 0 }
          synchronizing := Line.continuations (Automaton.content seen)
          log := [.ofLine (Automaton.content seen) f.cursor (stream.length + 1)] }
      else
        { framer := { f with probed := seen.length + 1 }, synchronizing := 0, log := [] } := by
  have hlen : (stream ++ [b]).length = stream.length + 1 := List.length_append
  have hstart := lineStart_of_pending_eq_zero hp
  have hstop : f.cursor + (seen.length + 1) = stream.length + 1 := by
    rw [← hseen, List.length_drop]
    omega
  have hin : f.inLiteral = false := by
    unfold inLiteral
    rw [hp]
    rfl
  have hdrop : (stream ++ [b]).drop f.lineStart = seen ++ [b] := by
    rw [hstart, List.drop_append_of_le_length hc, hseen]
  have hle : f.lineStart ≤ (stream ++ [b]).length := by omega
  have hfind := Line.find?_concat (o := f.options) seen b
  rw [← Automaton.ends_eq, ← hprobed, ← hdrop] at hfind
  split
  · next hends =>
    rw [if_pos hends] at hfind
    -- nothing is left behind the line
    have hpass (content : Octets) : (f.passLine content (seen.length + 1)).scan (stream ++ [b]) =
        { framer := f.passLine content (seen.length + 1), synchronizing := 0, log := [] } := by
      refine scan_of_settled ?_ fun _ => rfl
      rw [hlen, ← hstop, ← hstart]
      rfl
    have hlength : (Line.Extent.endingAt seen.length (seen.getLast? == some Octet.cr)).length =
        seen.length + 1 := rfl
    rw [scan_of_find?_eq_some hle hfind, hdrop, hprobed, Automaton.take_content_endingAt, hlength,
      hpass, completion, hin, hstart, hstop]
    simp [Scan.following, passLine, hstart, hstop]
  · next hends =>
    rw [if_neg hends] at hfind
    have hrest : stream.length + 1 - f.cursor = seen.length + 1 := by omega
    rw [scan_of_find?_eq_none hle hfind, hlen, completion, hin, hstart, hrest]
    simp [atLine, hstart, hp]

end Framer

namespace Automaton

variable {o : Options} {a : Automaton} {stream : Octets}

/-- The automaton has taken the stream, and a framer that stands where it stands is in step
with the stream. -/
structure Tracks (o : Options) (a : Automaton) (stream : Octets) : Prop where
  position_eq : a.position = stream.length
  mode_fits : a.mode.Fits stream a.valid
  inStep : (a.framer o).InStep stream

theorem tracks_nil (o : Options) : Tracks o {} [] :=
  ⟨rfl, rfl, Framer.inStep_start o []⟩

/-- One more octet is scanned as the automaton takes it. -/
theorem Tracks.scan_concat (h : a.Tracks o stream) (b : UInt8) :
    (a.framer o).scan (stream ++ [b]) =
      { framer := (a.step o b).framer o
        synchronizing := a.owes o b
        log := a.events o b } := by
  obtain ⟨hposition, hfits, hstep⟩ := h
  cases hm : a.mode with
  | payload left =>
    rw [hm] at hfits
    obtain ⟨hvalid, hleft⟩ := hfits
    obtain ⟨left, rfl⟩ := Nat.exists_eq_add_one.2 hleft
    have hpending : (a.framer o).pending = left + 1 := congrArg Mode.left hm
    have hprobed : (a.framer o).probed = 0 := congrArg Mode.probed hm
    rw [Framer.scan_concat_of_pending hvalid hpending hprobed]
    simp [framer, step, owes, events, hm, hposition]
  | line seen =>
    rw [hm] at hfits
    have hpending : (a.framer o).pending = 0 := congrArg Mode.left hm
    have hprobed : (a.framer o).probed = seen.length := congrArg Mode.probed hm
    rw [Framer.scan_concat_of_line hstep.cursor_le hpending hfits hprobed]
    simp only [framer, step, owes, events, hm]
    by_cases hends : b = Octet.lf ∧ ends o seen
    · simp [hends, confirm_eq, hposition]
    · simp [hends]

/-- One more octet keeps the automaton with the stream. -/
theorem Tracks.step (h : a.Tracks o stream) (b : UInt8) :
    (a.step o b).Tracks o (stream ++ [b]) := by
  have hscan := (h.inStep.append [b]).scan
  rw [h.scan_concat] at hscan
  obtain ⟨hposition, hfits, hstep⟩ := h
  have hlen : (stream ++ [b]).length = a.position + 1 := by
    rw [hposition]
    exact List.length_append
  -- behind a payload octet or a line end all of the stream is decided
  have hofPending (n : Nat) : (Mode.ofPending n).Fits (stream ++ [b]) (a.position + 1) := by
    rw [← hlen]
    exact Mode.fits_ofPending _ n
  refine ⟨?_, ?_, hscan⟩
  · rw [hlen, step_position]
  · cases hm : a.mode with
    | payload left =>
      simp only [Automaton.step, hm]
      exact hofPending _
    | line seen =>
      simp only [Automaton.step, hm, confirm_eq]
      split
      · exact hofPending _
      · rw [hm] at hfits
        have hvalid : a.valid ≤ stream.length := hstep.cursor_le
        show (stream ++ [b]).drop a.valid = seen ++ [b]
        rw [List.drop_append_of_le_length hvalid, hfits]

/-- A framer that has scanned the stream has nothing left to look at. -/
theorem Tracks.scan_eq (h : a.Tracks o stream) :
    (a.framer o).scan stream = { framer := a.framer o, synchronizing := 0, log := [] } := by
  obtain ⟨-, hfits, hstep⟩ := h
  refine Framer.scan_of_settled ?_ hstep.probed_eq_zero
  have hvalid : a.valid ≤ stream.length := hstep.cursor_le
  show a.valid + a.mode.probed = stream.length
  cases hm : a.mode with
  | payload left =>
    rw [hm] at hfits
    rw [hfits.1, Mode.probed_payload, Nat.add_zero]
  | line seen =>
    rw [hm] at hfits
    have hseen : stream.drop a.valid = seen := hfits
    rw [Mode.probed_line, ← hseen, List.length_drop]
    omega

/-- Scanning what arrives is taking it octet by octet. -/
theorem Tracks.scan_append_eq_trace (h : a.Tracks o stream) (more : Octets) :
    (a.framer o).scan (stream ++ more) = a.trace o more := by
  induction more generalizing a stream with
  | nil =>
    rw [List.append_nil]
    exact h.scan_eq
  | cons b more ih =>
    have happend := Framer.scan_append (h.inStep.append [b]) more
    rw [List.append_assoc, List.singleton_append, h.scan_concat] at happend
    have hrest := ih (h.step b)
    rw [List.append_assoc, List.singleton_append] at hrest
    rw [happend, hrest]
    rfl

/-- An automaton that tracks a stream goes on to do so as the stream grows. -/
theorem Tracks.run (h : a.Tracks o stream) (more : Octets) :
    (a.run o more).Tracks o (stream ++ more) := by
  induction more generalizing a stream with
  | nil =>
    rw [List.append_nil]
    exact h
  | cons b more ih =>
    have hrest := ih (h.step b)
    rw [List.append_assoc, List.singleton_append] at hrest
    exact hrest

theorem tracks_after (o : Options) (stream : Octets) : (after o stream).Tracks o stream :=
  (tracks_nil o).run stream

theorem Tracks.inLiteral_eq (h : a.Tracks o stream) :
    (a.framer o).inLiteral = a.mode.inPayload := by
  have hfits := h.mode_fits
  unfold Framer.inLiteral framer
  cases hm : a.mode with
  | payload left =>
    rw [hm] at hfits
    exact decide_eq_true hfits.2
  | line seen => rfl

end Automaton

namespace Framer

/-- Scanning a stream is taking it octet by octet. -/
theorem scan_start (o : Options) (stream : Octets) :
    (start o).scan stream = Automaton.trace o {} stream :=
  (Automaton.tracks_nil o).scan_append_eq_trace stream

/-- A scan from the start leaves the framer of the automaton. -/
theorem scan_start_framer (o : Options) (stream : Octets) :
    ((start o).scan stream).framer = (Automaton.after o stream).framer o := by
  rw [scan_start, Automaton.trace_framer]
  rfl

theorem scan_start_synchronizing (o : Options) (stream : Octets) :
    ((start o).scan stream).synchronizing = (Automaton.after o stream).synchronizing := by
  have htrace := Automaton.add_trace_synchronizing o {} stream
  rw [scan_start]
  exact (Nat.zero_add _).symm.trans htrace

end Framer

namespace Window

/-- The scans of a growing buffer stand where the automaton stands: at every scan the framed
part is the valid part, the synchronizing literals reported so far are those declared, the
framer is in a literal exactly if the automaton is in a payload, with as much of it still to
come, and all events so far are those of the automaton. -/
theorem receiveAll_refines_automaton (o : Options) (chunks : List Octets) (k : Nat)
    (hk : k < chunks.length) :
    let scans := ((start o).receiveAll chunks).2
    let stream := (chunks.take (k + 1)).flatten
    let a := Automaton.after o stream
    ∃ s, scans[k]? = some s ∧
      s.progress.valid = a.valid ∧
      Scan.total (scans.take (k + 1)) = a.synchronizing ∧
      s.framer.pending = a.mode.left ∧
      s.framer.inLiteral = a.mode.inPayload ∧
      s.framer = a.framer o ∧
      (scans.take (k + 1)).flatMap Scan.log = (Automaton.trace o {} stream).log := by
  intro scans stream a
  obtain ⟨hstate, htotal, hlog⟩ := receiveAll_start o (chunks.take (k + 1))
  obtain ⟨s, hs, hframer⟩ := exists_getElem?_receiveAll (start o) hk
  rw [receiveAll_take] at htotal hlog
  -- what has been received so far is one scan of it from the start
  have hscan : ((start o).receive stream).2 = (Framer.start o).scan stream := rfl
  have hwindow : ((start o).receive stream).1.framer = ((Framer.start o).scan stream).framer := rfl
  rw [hscan] at htotal hlog
  have hs' : s.framer = a.framer o := by
    rw [hframer, hstate, hwindow, Framer.scan_start_framer]
  refine ⟨s, hs, ?_, ?_, ?_, ?_, hs', ?_⟩
  · show s.framer.cursor = a.valid
    rw [hs']
    rfl
  · rw [htotal]
    exact Framer.scan_start_synchronizing o stream
  · rw [hs']
    rfl
  · rw [hs']
    exact (Automaton.tracks_after o stream).inLiteral_eq
  · rw [hlog, Framer.scan_start]

/-- Both line ends are cut, and the payload of `a {3}` ends in CR before a line feed, which
belongs to the next line under the strict option. -/
theorem receiveAll_refines_automaton_across_cuts :
    let o : Options := { strictCrlf := true }
    let chunks : List Octets :=
      [[97, 32, 123, 51, 125, 13], [10, 120, 10, 13], [10, 123, 48, 125, 13, 10]]
    let scans := ((start o).receiveAll chunks).2
    2 < chunks.length ∧ ∃ s, scans[2]? = some s ∧ s.progress.valid = 16 ∧
      Scan.total (scans.take 3) = 2 ∧ s.framer.pending = 0 := by
  intro o chunks scans
  have hk : 2 < chunks.length := by decide
  obtain ⟨s, hs, hvalid, htotal, hpending, -⟩ := receiveAll_refines_automaton o chunks 2 hk
  refine ⟨hk, s, hs, ?_, ?_, ?_⟩
  · rw [hvalid]
    decide
  · rw [htotal]
    decide
  · rw [hpending]
    decide

end Window

end StreamFraming
