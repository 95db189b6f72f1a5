import StreamFraming.Proofs.Chunking
import StreamFraming.Proofs.Ending
import StreamFraming.Proofs.Spelling

/-!
# Framing what was encoded

A stream of segments that can be told from their octets is taken apart again into exactly
these segments, however it is cut (`receiveAll_encode`).

One segment is framed by one turn of a scan: the line that `search_append_ending` finds is the
segment's header, it declares what `parse?_append_write` reads, and the payload behind it is
passed over (`scan_encode_append`). The stream follows by induction on its segments.
-/

namespace StreamFraming

/-! ## What a segment announces -/

namespace Segment

variable {o : Options}

/-- The content of the line of a segment. -/
def content : Segment → Octets
  | .line text _ => text
  | .literal text kind binary _ payload => text ++ (declare kind binary payload).write

/-- The end of the line of a segment. -/
def ending : Segment → Ending
  | .line _ ending => ending
  | .literal _ _ _ ending _ => ending

/-- Whether a segment is a literal that waits for a continuation. -/
def isSynchronizing : Segment → Bool
  | .literal _ .synchronizing _ _ _ => true
  | _ => false

theorem header_eq (s : Segment) : s.header = s.content ++ s.ending.octets := by
  cases s with
  | line text ending => rfl
  | literal text kind binary ending payload => rfl

/-- A segment asks for a continuation exactly when its payload is declared as synchronizing. -/
theorem continuations_eq (s : Segment) :
    s.continuations = if s.isSynchronizing then 1 else 0 := by
  cases s with
  | line text ending => rfl
  | literal text kind binary ending payload =>
    cases kind with
    | synchronizing => rfl
    | nonSynchronizing => rfl

/-- The declared length is the payload's, as long as it fits. -/
theorem toNat_length_declare {payload : Octets} (h : payload.length < Decimal.wordLimit)
    (kind : Kind) (binary : Bool) : (declare kind binary payload).length.toNat = payload.length :=
  UInt64.toNat_ofNat_of_lt' h

/-- Nothing in the content of a clear segment ends the line early. -/
theorem IsClear.unbroken_content {s : Segment} (h : s.IsClear o) : Unbroken o s.content := by
  cases s with
  | line text ending => exact h.1
  | literal text kind binary ending payload => exact h.1.append (Declaration.lf_not_mem_write _)

/-- The ending of a clear segment takes nothing of the content, its declaration included. -/
theorem IsClear.ends_content {s : Segment} (h : s.IsClear o) : Ends o s.content s.ending := by
  cases s with
  | line text ending => exact h.2.1
  | literal text kind binary ending payload =>
    have hends : Ends o [] ending := h.2.1
    cases ending with
    | lf =>
      refine ⟨hends.1, ?_⟩
      rw [content, List.getLast?_append, Declaration.getLast?_write, Option.some_or]
      decide
    | crlf => trivial

/-- What the line of a segment declares. -/
theorem IsClear.parse?_content {s : Segment} (h : s.IsClear o) :
    Declaration.parse? s.content =
      match s with
      | .line _ _ => none
      | .literal _ kind binary _ payload => some (declare kind binary payload) := by
  cases s with
  | line text ending => exact h.2.2
  | literal text kind binary ending payload => exact Declaration.parse?_append_write h.2.2

/-- A clear segment announces exactly its payload. -/
theorem IsClear.announced_content {s : Segment} (h : s.IsClear o)
    (hlen : s.payload.length < Decimal.wordLimit) :
    Line.announced s.content = s.payload.length := by
  rw [Line.announced, h.parse?_content]
  cases s with
  | line text ending => rfl
  | literal text kind binary ending payload => exact toNat_length_declare hlen kind binary

/-- The line of a clear segment asks for as many continuations as the segment says. -/
theorem IsClear.continuations_content {s : Segment} (h : s.IsClear o) :
    Line.continuations s.content = s.continuations := by
  rw [Line.continuations, h.parse?_content]
  cases s with
  | line text ending => rfl
  | literal text kind binary ending payload => rfl

/-- A clear segment logs its line and, behind a payload, its completion. -/
theorem IsClear.log_eq {s : Segment} (h : s.IsClear o) (start : Nat) :
    s.log start = .ofLine s.content start (start + s.header.length) ::
      if s.payload = [] then [] else [.payloadComplete (start + s.encode.length)] := by
  rw [Event.ofLine, h.parse?_content]
  cases s with
  | line text ending => rfl
  | literal text kind binary ending payload =>
    rw [encode, List.length_append, ← Nat.add_assoc]
    rfl

end Segment

/-! ## Framing one segment -/

namespace Framer

variable {f : Framer} {buffer : Octets}

/-- A scan first passes over the pending payload. -/
theorem scan_eq_following_completion (h : f.lineStart ≤ buffer.length) :
    f.scan buffer = ((f.atLine f.probed).scan buffer).following 0 f.completion := by
  have hl : (f.atLine f.probed).lineStart ≤ buffer.length := h
  cases hs : Line.find? f.options f.probed (buffer.drop f.lineStart) with
  | none =>
    rw [scan_of_find?_eq_none h hs, scan_of_find?_eq_none hl hs]
    simp [Scan.following, atLine, lineStart, completion, inLiteral]
  | some e =>
    rw [scan_of_find?_eq_some h hs, scan_of_find?_eq_some hl hs]
    simp [Scan.following, atLine, passLine, lineStart, completion, inLiteral]

/-- A scan frames the text that starts at the cursor once the text's end is there. -/
theorem InStep.scan_of_ending {text rest : Octets} {ending : Ending} (h : f.InStep buffer)
    (hp : f.pending = 0) (hdrop : buffer.drop f.cursor = text ++ ending.octets ++ rest)
    (hu : Segment.Unbroken f.options text) (he : Segment.Ends f.options text ending) :
    f.scan buffer =
      ((f.passLine text (text ++ ending.octets).length).scan buffer).following
        (Line.continuations text)
        [.ofLine text f.cursor (f.cursor + (text ++ ending.octets).length)] := by
  have hstart := lineStart_of_pending_eq_zero hp
  have hfind : Line.find? f.options f.probed (buffer.drop f.lineStart) =
      some { content := text.length, length := (text ++ ending.octets).length } := by
    rw [h.searched_line.find?_eq_search, hstart, hdrop]
    exact Segment.search_append_ending hu he rest
  have hcontent : (buffer.drop f.lineStart).take text.length = text := by
    rw [hstart, hdrop, List.append_assoc, List.take_left]
  rw [scan_of_find?_eq_some (hstart ▸ h.cursor_le) hfind, hcontent,
    completion_of_pending_eq_zero hp, hstart, List.nil_append]

/-- The framer that has framed the first `n` octets and waits for a line. -/
def behind (o : Options) (n : Nat) : Framer := { options := o, cursor := n }

theorem inStep_behind (o : Options) {n : Nat} (h : n ≤ buffer.length) :
    (behind o n).InStep buffer :=
  ⟨h, Line.searched_zero _ _, fun _ => rfl⟩

/-- A framer that has framed all of the buffer makes nothing of a scan. -/
theorem scan_behind (o : Options) (buffer : Octets) :
    (behind o buffer.length).scan buffer =
      { framer := behind o buffer.length, synchronizing := 0, log := [] } :=
  scan_of_settled rfl fun _ => rfl

/-- The payload that a line has announced is passed over if it is there. -/
theorem scan_passLine {o : Options} {n m stop : Nat} {content : Octets}
    (hstop : n + m + Line.announced content = stop) (hle : stop ≤ buffer.length) :
    ((behind o n).passLine content m).scan buffer =
      ((behind o stop).scan buffer).following 0
        (if Line.announced content = 0 then [] else [.payloadComplete stop]) := by
  have hstart : ((behind o n).passLine content m).lineStart = stop := hstop
  have hatLine : ((behind o n).passLine content m).atLine 0 = behind o stop := by
    unfold atLine
    rw [hstart]
    rfl
  have hcompletion : ((behind o n).passLine content m).completion =
      if Line.announced content = 0 then [] else [.payloadComplete stop] := by
    rw [completion_passLine, ← hstop]
    rfl
  rw [scan_eq_following_completion (by rw [hstart]; exact hle), hcompletion]
  show ((((behind o n).passLine content m).atLine 0).scan buffer).following _ _ = _
  rw [hatLine]

end Framer

open Framer (behind)

variable {o : Options}

/-- A segment is framed as a whole, and its events are those of the segment. -/
theorem Segment.IsClear.scan_encode_append {s : Segment} (h : s.IsClear o)
    (hlen : s.payload.length < Decimal.wordLimit) (before rest : Octets) :
    (behind o before.length).scan (before ++ (s.encode ++ rest)) =
      ((behind o (before ++ s.encode).length).scan (before ++ (s.encode ++ rest))).following
        s.continuations (s.log before.length) := by
  have hle : (before ++ s.encode).length ≤ (before ++ (s.encode ++ rest)).length := by
    rw [← List.append_assoc]
    exact (List.prefix_append (before ++ s.encode) rest).length_le
  have hdrop : (before ++ (s.encode ++ rest)).drop before.length =
      s.content ++ s.ending.octets ++ (s.payload ++ rest) := by
    rw [List.drop_left, encode, header_eq, List.append_assoc]
  have hstop : before.length + s.header.length + Line.announced s.content =
      (before ++ s.encode).length := by
    rw [h.announced_content hlen, encode, List.length_append, List.length_append, Nat.add_assoc]
  have hbefore : before.length ≤ (before ++ (s.encode ++ rest)).length :=
    (List.prefix_append before _).length_le
  rw [(Framer.inStep_behind o hbefore).scan_of_ending rfl hdrop h.unbroken_content h.ends_content,
    ← header_eq, Framer.scan_passLine hstop hle, h.continuations_content, h.log_eq,
    h.announced_content hlen, ← List.length_append]
  simp [Scan.following, behind]

/-! ## Framing a stream -/

namespace CommandStream

theorem encode_cons (s : Segment) (segments : List Segment) :
    encode (s :: segments) = s.encode ++ encode segments := List.flatMap_cons

/-- The continuations of an encoding are its synchronizing segments, counted. -/
theorem continuations_eq_countP (segments : List Segment) :
    continuations segments = segments.countP Segment.isSynchronizing := by
  induction segments with
  | nil => rfl
  | cons s segments ih => rw [continuations, ih, s.continuations_eq, List.countP_cons, Nat.add_comm]

/-- A payload is no longer than the stream that it is sent in. -/
theorem length_payload_le {s : Segment} {segments : List Segment} (h : s ∈ segments) :
    s.payload.length ≤ (encode segments).length := by
  obtain ⟨before, after, rfl⟩ := List.append_of_mem h
  rw [encode, List.flatMap_append, List.flatMap_cons]
  simp only [Segment.encode, List.length_append]
  omega

/-- A stream is framed as a whole, and its events are those of its segments. -/
theorem scan_append_encode {segments : List Segment}
    (hclear : ∀ s ∈ segments, s.IsClear o)
    (hlen : ∀ s ∈ segments, s.payload.length < Decimal.wordLimit) (before : Octets) :
    (behind o before.length).scan (before ++ encode segments) =
      { framer := behind o (before ++ encode segments).length
        synchronizing := continuations segments
        log := log before.length segments } := by
  induction segments generalizing before with
  | nil =>
    rw [encode, List.flatMap_nil, List.append_nil]
    exact Framer.scan_behind o before
  | cons s segments ih =>
    have hfirst := hclear s List.mem_cons_self
    have hrest := ih (fun t ht => hclear t (List.mem_cons_of_mem s ht))
      (fun t ht => hlen t (List.mem_cons_of_mem s ht)) (before ++ s.encode)
    rw [List.append_assoc] at hrest
    have hlog : log before.length (s :: segments) =
        s.log before.length ++ log (before ++ s.encode).length segments := by
      rw [List.length_append]
      rfl
    rw [encode_cons, hfirst.scan_encode_append (hlen s List.mem_cons_self), hrest, hlog]
    rfl

end CommandStream

/-! ## However the stream is cut -/

namespace Window

/-- The last scan leaves the framer that the window has. -/
theorem framer_of_getLast?_receiveAll {w : Window} {chunks : List Octets} {s : Scan}
    (h : (w.receiveAll chunks).2.getLast? = some s) :
    s.framer = (w.receiveAll chunks).1.framer := by
  induction chunks generalizing w with
  | nil => exact nomatch h
  | cons chunk chunks ih =>
    cases chunks with
    | nil =>
      cases h
      rfl
    | cons next chunks => exact ih h

open CommandStream (encode log)

/-- Framing undoes encoding. However a stream of clear segments is cut, all of it is framed in
the end, with no payload left to come, the synchronizing literals are counted, and the events
are those of the segments in order: for a line its text, and for a literal its declaration,
with the payload's length, and the end of its payload if it has one. -/
theorem receiveAll_encode (o : Options) (segments : List Segment) (chunks : List Octets)
    (hclear : ∀ s ∈ segments, s.IsClear o)
    (hlen : (encode segments).length < Decimal.wordLimit)
    (hcut : chunks.flatten = encode segments) :
    let received := (start o).receiveAll chunks
    received.1.framer.cursor = (encode segments).length ∧
      received.1.framer.pending = 0 ∧
      (∀ s, received.2.getLast? = some s →
        s.progress.valid = (encode segments).length ∧ s.framer.pending = 0) ∧
      Scan.total received.2 = segments.countP Segment.isSynchronizing ∧
      received.2.flatMap Scan.log = log 0 segments ∧
      ∀ s ∈ segments, ∀ kind binary,
        (Segment.declare kind binary s.payload).length.toNat = s.payload.length := by
  intro received
  have hfits : ∀ s ∈ segments, s.payload.length < Decimal.wordLimit := by
    intro s hs
    exact Nat.lt_of_le_of_lt (CommandStream.length_payload_le hs) hlen
  have hscan : (Framer.start o).scan (encode segments) =
      { framer := behind o (encode segments).length
        synchronizing := CommandStream.continuations segments
        log := log 0 segments } :=
    CommandStream.scan_append_encode hclear hfits []
  obtain ⟨hstate, htotal, hlog⟩ := receiveAll_start o chunks
  have hwindow : received.1.framer = behind o (encode segments).length := by
    show ((start o).receiveAll chunks).1.framer = _
    rw [hstate, hcut]
    exact congrArg Scan.framer hscan
  refine ⟨?_, ?_, ?_, ?_, ?_, ?_⟩
  · rw [hwindow]
    rfl
  · rw [hwindow]
    rfl
  · intro s hs
    have hframer : s.framer = behind o (encode segments).length :=
      (framer_of_getLast?_receiveAll hs).trans hwindow
    constructor
    · show s.framer.cursor = _
      rw [hframer]
      rfl
    · rw [hframer]
      rfl
  · rw [htotal, hcut, ← CommandStream.continuations_eq_countP]
    exact congrArg Scan.synchronizing hscan
  · rw [hlog, hcut]
    exact congrArg Scan.log hscan
  · intro s hs kind binary
    exact Segment.toNat_length_declare (hfits s hs) kind binary

/-- Under the strict option a line may hold a bare LF and a carriage return before its end, and
a payload may hold a line of its own. The cuts are inside a line's end, a declaration and a
payload. -/
theorem receiveAll_encode_cut_everywhere :
    let o : Options := { strictCrlf := true }
    let segments : List Segment :=
      [.line [97, 10, 123, 49, 125, 13, 13] .crlf,
        .literal [126, 32] .synchronizing true .crlf [13, 10, 123, 50, 125, 13, 10],
        .literal [] .nonSynchronizing false .crlf [],
        .line [10] .crlf]
    let chunks : List Octets :=
      [[97, 10, 123, 49, 125, 13, 13, 13], [10, 126, 32, 126, 123], [],
        [55, 125, 13, 10, 13, 10, 123], [50, 125, 13, 10, 123, 48, 43, 125, 13, 10, 10, 13], [10]]
    (∀ s ∈ segments, s.IsClear o) ∧ chunks.flatten = encode segments ∧
      ((start o).receiveAll chunks).1.framer.cursor = 33 ∧
      Scan.total ((start o).receiveAll chunks).2 = 1 ∧
      ((start o).receiveAll chunks).2.flatMap Scan.log = log 0 segments := by
  intro o segments chunks
  have hclear : ∀ s ∈ segments, s.IsClear o := by decide +kernel
  have hlen : (encode segments).length < Decimal.wordLimit := by decide +kernel
  have hcut : chunks.flatten = encode segments := by decide +kernel
  obtain ⟨hcursor, -, -, htotal, hlog, -⟩ := receiveAll_encode o segments chunks hclear hlen hcut
  refine ⟨hclear, hcut, ?_, ?_, hlog⟩
  · rw [hcursor]
    decide +kernel
  · rw [htotal]
    decide

end Window

end StreamFraming
