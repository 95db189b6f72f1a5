import StreamFraming.Proofs.Account
import StreamFraming.Proofs.Refinement

/-!
# Strict and lenient framing

Under the strict option only CR LF ends a line, and under the lenient one any line feed does.
The two frame a stream alike exactly if all lines of the lenient framing end in CR LF
(`Framer.strict_agrees_iff_lines_end_in_crlf`).

It is not enough that all line feeds of the stream follow a carriage return: a payload may end
in one, and a line feed that comes next is a line of its own under the lenient option and
content under the strict one. So the lines are read off the lenient log
(`Event.LinesEndInCrlf`), each from where the event before it stops.

`Automaton.bareEnds` counts the lines that lack their carriage return. Up to the first of them
the two automata take every octet alike (`Automaton.step_strict_eq`), and there the lenient one
confirms the line while the strict one does not (`Automaton.valid_step_strict_lt`).
-/

namespace StreamFraming

/-- Only CR LF ends a line. -/
def Options.strict : Options := { strictCrlf := true }

/-- Any line feed ends a line. -/
def Options.lenient : Options := { strictCrlf := false }

/-- The scan with its framer under other options. -/
def Scan.under (o : Options) (s : Scan) : Scan :=
  { s with framer := { s.framer with options := o } }

namespace Event

/-- Whether an event reports the end of a line, ordinary or not. -/
def endsLine : Event → Bool
  | .declaration _ _ => true
  | .payloadComplete _ => false
  | .line _ _ _ => true
  | .consumed _ _ => false

/-- Every line that a log reports from `start` on ends in CR LF. A line starts where the event
before it stops, so that the carriage return is one of the line and not of a payload. -/
def LinesEndInCrlf (stream : Octets) (start : Nat) : List Event → Prop
  | [] => True
  | e :: log =>
    (e.endsLine → Ending.crlf.octets <:+ (stream.take e.stop).drop start) ∧
      LinesEndInCrlf stream e.stop log

instance decidableLinesEndInCrlf (stream : Octets) (start : Nat) :
    (log : List Event) → Decidable (LinesEndInCrlf stream start log)
  | [] => .isTrue trivial
  | e :: log =>
    have := decidableLinesEndInCrlf stream e.stop log
    inferInstanceAs (Decidable ((e.endsLine → Ending.crlf.octets <:+ _) ∧ _))

@[simp] theorem stop_ofLine (content : Octets) (start stop : Nat) :
    (ofLine content start stop).stop = stop := by
  unfold ofLine
  cases Declaration.parse? content <;> rfl

@[simp] theorem endsLine_ofLine (content : Octets) (start stop : Nat) :
    (ofLine content start stop).endsLine = true := by
  unfold ofLine
  cases Declaration.parse? content <;> rfl

end Event

/-- A line ends in CR LF if a carriage return comes right before its line feed. -/
theorem Ending.crlf_suffix_iff (seen : Octets) :
    Ending.crlf.octets <:+ seen ++ [Octet.lf] ↔ seen.getLast? = some Octet.cr := by
  rw [List.getLast?_eq_some_iff]
  constructor
  · rintro ⟨text, htext⟩
    have hsplit : (text ++ [Octet.cr]) ++ [Octet.lf] = seen ++ [Octet.lf] := by
      rw [List.append_assoc]
      exact htext
    exact ⟨text, (List.append_cancel_right hsplit).symm⟩
  · rintro ⟨text, rfl⟩
    refine ⟨text, ?_⟩
    rw [List.append_assoc]
    rfl

namespace Automaton

variable {o : Options} {a : Automaton} {b : UInt8} {octets stream : Octets}

/-! ## Lines without a carriage return -/

@[simp] theorem ends_strict (seen : Octets) :
    ends .strict seen = decide (seen.getLast? = some Octet.cr) := Bool.or_false _

@[simp] theorem ends_lenient (seen : Octets) : ends .lenient seen = true := Bool.or_true _

/-- The bare ends of two pieces are those of each, the second read from where the first ends. -/
theorem bareEnds_append (o : Options) (a : Automaton) (xs ys : Octets) :
    a.bareEnds o (xs ++ ys) = a.bareEnds o xs + (a.run o xs).bareEnds o ys := by
  induction xs generalizing a with
  | nil => exact (Nat.zero_add _).symm
  | cons b xs ih =>
    have hrest := ih (a.step o b)
    show _ + (a.step o b).bareEnds o (xs ++ ys) =
      _ + (a.step o b).bareEnds o xs + ((a.step o b).run o xs).bareEnds o ys
    omega

theorem bareEnds_cons_eq_zero_iff :
    a.bareEnds o (b :: octets) = 0 ↔
      a.endsBare o b = false ∧ (a.step o b).bareEnds o octets = 0 := by
  rw [bareEnds, Nat.add_eq_zero_iff]
  cases a.endsBare o b with
  | true => simp
  | false => simp

/-- If a line ends without a carriage return, there is a first one that does. -/
theorem exists_first_bare_end (h : a.bareEnds o octets ≠ 0) :
    ∃ before b after, octets = before ++ b :: after ∧ a.bareEnds o before = 0 ∧
      (a.run o before).endsBare o b = true := by
  induction octets generalizing a with
  | nil => exact absurd rfl h
  | cons c octets ih =>
    cases hc : a.endsBare o c with
    | true => exact ⟨[], c, octets, rfl, rfl, hc⟩
    | false =>
      have hrest : (a.step o c).bareEnds o octets ≠ 0 := by
        intro hzero
        exact h (bareEnds_cons_eq_zero_iff.2 ⟨hc, hzero⟩)
      obtain ⟨before, b, after, rfl, hbefore, hb⟩ := ih hrest
      exact ⟨c :: before, b, after, rfl, bareEnds_cons_eq_zero_iff.2 ⟨hc, hbefore⟩, hb⟩

/-! ## Two automata -/

/-- An octet that does not end a line without a carriage return is taken alike. -/
theorem step_strict_eq (h : a.endsBare .lenient b = false) :
    a.step .strict b = a.step .lenient b ∧ a.owes .strict b = a.owes .lenient b ∧
      a.events .strict b = a.events .lenient b := by
  cases hm : a.mode with
  | payload left => simp only [step, owes, events, hm, and_self]
  | line seen =>
    have hsame : (b = Octet.lf ∧ ends .strict seen) ↔ (b = Octet.lf ∧ ends .lenient seen) := by
      simp only [endsBare, hm, ends_lenient] at h
      simp only [ends_strict, ends_lenient]
      grind
    simp only [step, owes, events, hm, hsame, and_self]

/-- At the first line that ends without a carriage return the strict automaton falls behind. -/
theorem valid_step_strict_lt (h : a.endsBare .lenient b = true) (hvalid : a.valid ≤ a.position) :
    (a.step .strict b).valid < (a.step .lenient b).valid := by
  cases hm : a.mode with
  | payload left =>
    simp only [endsBare, hm] at h
    contradiction
  | line seen =>
    simp only [endsBare, hm, ends_lenient, Bool.and_true, Bool.and_eq_true, decide_eq_true_eq,
      bne_iff_ne, ne_eq] at h
    obtain ⟨hlf, hcr⟩ := h
    simp only [step, hm, hlf, hcr, ends_strict, ends_lenient, confirm_eq, decide_false, and_true,
      and_false, if_true, if_false, Bool.false_eq_true]
    omega

/-- Where no line ends bare, the strict automaton runs as the lenient one does. -/
theorem run_strict_eq (h : a.bareEnds .lenient octets = 0) :
    a.run .strict octets = a.run .lenient octets := by
  induction octets generalizing a with
  | nil => rfl
  | cons b octets ih =>
    obtain ⟨hb, hrest⟩ := bareEnds_cons_eq_zero_iff.1 h
    show (a.step .strict b).run .strict octets = (a.step .lenient b).run .lenient octets
    rw [(step_strict_eq hb).1, ih hrest]

/-- Where no line ends bare, both modes log the same. -/
theorem trace_strict_eq (h : a.bareEnds .lenient octets = 0) :
    a.trace .strict octets = (a.trace .lenient octets).under .strict := by
  induction octets generalizing a with
  | nil => rfl
  | cons b octets ih =>
    obtain ⟨hb, hrest⟩ := bareEnds_cons_eq_zero_iff.1 h
    obtain ⟨hstep, howes, hevents⟩ := step_strict_eq hb
    rw [trace, trace, hstep, howes, hevents, ih hrest]
    rfl

/-! ## Lines of the lenient log -/

/-- The octets of the line that the next octet ends. -/
theorem Tracks.drop_take_of_line {seen : Octets} (h : a.Tracks o stream)
    (hm : a.mode = .line seen) (b : UInt8) (more : Octets) :
    ((stream ++ b :: more).take (a.position + 1)).drop a.valid = seen ++ [b] := by
  have hfits := h.mode_fits
  have hvalid : a.valid ≤ stream.length := h.inStep.cursor_le
  rw [hm] at hfits
  have hseen : stream.drop a.valid = seen := hfits
  rw [h.position_eq, List.take_length_add_append, List.drop_append_of_le_length hvalid, hseen]
  rfl

/-- A payload octet reports no line. As long as the payload goes on, its end is reported before
any line, so that it does not matter where the next line is said to start. -/
theorem Tracks.linesEndInCrlf_step_of_payload {left : Nat} (h : a.Tracks .lenient stream)
    (hm : a.mode = .payload left) (b : UInt8) (whole : Octets) (start : Nat) :
    ∃ next, ((a.step .lenient b).mode.inPayload = false → next = (a.step .lenient b).valid) ∧
      ∀ log, Event.LinesEndInCrlf whole start (a.events .lenient b ++ log) ↔
        Event.LinesEndInCrlf whole next log := by
  have hfits := h.mode_fits
  rw [hm] at hfits
  have hpos : 0 < left := hfits.2
  by_cases hlast : left = 1
  · refine ⟨a.position + 1, ?_, ?_⟩
    · intro _
      simp only [Automaton.step, hm]
    · intro log
      simp only [events, hm, if_pos hlast]
      exact and_iff_right fun hline => Bool.noConfusion hline
  · refine ⟨start, ?_, ?_⟩
    · intro hline
      have hleft : left - 1 ≠ 0 := by omega
      simp only [Automaton.step, hm, Mode.ofPending, if_neg hleft] at hline
      contradiction
    · intro log
      simp only [events, hm, if_neg hlast, List.nil_append]

/-- An octet of a line reports the line if it ends it, and the next line starts behind it. -/
theorem Tracks.linesEndInCrlf_step_of_line {seen : Octets} (h : a.Tracks .lenient stream)
    (hm : a.mode = .line seen) (b : UInt8) (more : Octets) (log : List Event) :
    Event.LinesEndInCrlf (stream ++ b :: more) a.valid (a.events .lenient b ++ log) ↔
      a.endsBare .lenient b = false ∧
        Event.LinesEndInCrlf (stream ++ b :: more) (a.step .lenient b).valid log := by
  have hslice := h.drop_take_of_line hm b more
  by_cases hlf : b = Octet.lf
  · have hevents : a.events .lenient b =
        [.ofLine (content seen) a.valid (a.position + 1)] := by
      simp only [events, hm, hlf, ends_lenient, and_self, if_true]
    have hnext : (a.step .lenient b).valid = a.position + 1 := by
      simp only [Automaton.step, hm, hlf, ends_lenient, and_self, if_true, confirm_eq]
    have hbare : a.endsBare .lenient b = false ↔ seen.getLast? = some Octet.cr := by
      simp [endsBare, hm, hlf]
    rw [hevents, List.singleton_append, Event.LinesEndInCrlf, Event.stop_ofLine,
      Event.endsLine_ofLine, hslice, hlf, Ending.crlf_suffix_iff, ← hlf, hbare, hnext]
    exact and_congr_left fun _ => imp_iff_right rfl
  · have hevents : a.events .lenient b = [] := by
      simp only [events, hm, hlf, false_and, if_false]
    have hnext : (a.step .lenient b).valid = a.valid := by
      simp only [Automaton.step, hm, hlf, false_and, if_false]
    have hbare : a.endsBare .lenient b = false := by simp [endsBare, hm, hlf]
    rw [hevents, hnext, List.nil_append]
    exact (and_iff_right hbare).symm

/-- All lines that the lenient log reports end in CR LF exactly if none of them lacks its carriage
return. -/
theorem Tracks.linesEndInCrlf_iff (h : a.Tracks .lenient stream) (more : Octets) (start : Nat)
    (hstart : a.mode.inPayload = false → start = a.valid) :
    Event.LinesEndInCrlf (stream ++ more) start (a.trace .lenient more).log ↔
      a.bareEnds .lenient more = 0 := by
  induction more generalizing a stream start with
  | nil => exact ⟨fun _ => rfl, fun _ => trivial⟩
  | cons b more ih =>
    have hrest := ih (h.step b)
    rw [List.append_assoc, List.singleton_append] at hrest
    have hlog : (a.trace .lenient (b :: more)).log =
        a.events .lenient b ++ ((a.step .lenient b).trace .lenient more).log := rfl
    rw [bareEnds_cons_eq_zero_iff, hlog]
    cases hm : a.mode with
    | payload left =>
      have hbare : a.endsBare .lenient b = false := by simp only [endsBare, hm]
      rcases h.linesEndInCrlf_step_of_payload hm b (stream ++ b :: more) start with
        ⟨next, hnext, hevents⟩
      rw [hevents, hrest next hnext]
      exact (and_iff_right hbare).symm
    | line seen =>
      rw [hm] at hstart
      rw [hstart rfl, h.linesEndInCrlf_step_of_line hm, hrest _ fun _ => rfl]

/-! ## Chunks -/

/-- Receiving a chunk is taking it octet by octet. -/
theorem Tracks.receive_eq (h : a.Tracks o stream) (chunk : Octets) :
    Window.receive ⟨a.framer o, stream⟩ chunk =
      (⟨(a.run o chunk).framer o, stream ++ chunk⟩, a.trace o chunk) := by
  have hscan := h.scan_append_eq_trace chunk
  have hframer := a.trace_framer o chunk
  simp only [Window.receive, Window.append, Window.scan, hscan, hframer]

/-- Where no line lacks its carriage return, the chunks are scanned alike. -/
theorem receiveAll_strict_eq (hs : a.Tracks .strict stream) (hl : a.Tracks .lenient stream)
    {chunks : List Octets} (h : a.bareEnds .lenient chunks.flatten = 0) :
    (Window.receiveAll ⟨a.framer .strict, stream⟩ chunks).2 =
      (Window.receiveAll ⟨a.framer .lenient, stream⟩ chunks).2.map (Scan.under .strict) := by
  induction chunks generalizing a stream with
  | nil => rfl
  | cons chunk chunks ih =>
    rw [List.flatten_cons, bareEnds_append, Nat.add_eq_zero_iff] at h
    rcases h with ⟨hchunk, hchunks⟩
    -- both automata are at the same place after the chunk
    have hrun := run_strict_eq hchunk
    have hs' := hs.run chunk
    rw [hrun] at hs'
    have hrest := ih hs' (hl.run chunk) hchunks
    simp only [Window.receiveAll, hs.receive_eq, hl.receive_eq, hrun, trace_strict_eq hchunk,
      List.map_cons]
    rw [hrest]

end Automaton

namespace Framer

/-- Framers that agree on how far every prefix of the stream is framed find no line without a
carriage return. -/
theorem bareEnds_eq_zero_of_valid_eq {stream : Octets}
    (h : ∀ received, received <+: stream →
      ((start .strict).scan received).progress.valid =
        ((start .lenient).scan received).progress.valid) :
    Automaton.bareEnds .lenient {} stream = 0 := by
  apply Classical.byContradiction
  intro hne
  obtain ⟨before, b, after, rfl, hbefore, hb⟩ := Automaton.exists_first_bare_end hne
  have htracks := Automaton.tracks_after .lenient before
  have hvalid : (Automaton.after .lenient before).valid ≤
      (Automaton.after .lenient before).position := by
    rw [htracks.position_eq]
    exact htracks.inStep.cursor_le
  have hlt := Automaton.valid_step_strict_lt hb hvalid
  -- the octet that makes the difference is the last one of a prefix
  have heq := h (before ++ [b]) ⟨after, by rw [List.append_assoc, List.singleton_append]⟩
  simp only [Scan.progress, scan_start_framer, Automaton.framer, Automaton.after,
    Automaton.run_append, Automaton.run_strict_eq hbefore] at heq
  exact absurd heq (Nat.ne_of_lt hlt)

/-- Strict and lenient framing of a stream agree on every prefix of it exactly if each line that
the lenient framing confirms, ordinary or declaration, ends in CR LF. Then, however the stream
is cut, the framers differ in nothing but the option after every chunk, and the chunks' scans
report the same. -/
theorem strict_agrees_iff_lines_end_in_crlf (stream : Octets) :
    let strict := start .strict
    let lenient := start .lenient
    let crlf := Event.LinesEndInCrlf stream 0 (lenient.scan stream).log
    ((∀ received, received <+: stream →
      (strict.scan received).progress = (lenient.scan received).progress) ↔ crlf) ∧
    (crlf → ∀ chunks : List Octets, chunks.flatten = stream →
      ((Window.start .strict).receiveAll chunks).2 =
        ((Window.start .lenient).receiveAll chunks).2.map (Scan.under .strict)) := by
  intro strict lenient crlf
  have hcrlf : crlf ↔ Automaton.bareEnds .lenient {} stream = 0 := by
    have htrace := (Automaton.tracks_nil .lenient).linesEndInCrlf_iff stream 0 fun _ => rfl
    rw [List.nil_append, ← scan_start] at htrace
    exact htrace
  refine ⟨⟨?_, ?_⟩, ?_⟩
  · intro hsame
    refine hcrlf.2 (bareEnds_eq_zero_of_valid_eq ?_)
    intro received hreceived
    exact congrArg Progress.valid (hsame received hreceived)
  · rintro hlines received ⟨rest, rfl⟩
    have hbare := hcrlf.1 hlines
    rw [Automaton.bareEnds_append, Nat.add_eq_zero_iff] at hbare
    rw [scan_start, scan_start, Automaton.trace_strict_eq hbare.1]
    rfl
  · rintro hlines chunks rfl
    exact Automaton.receiveAll_strict_eq (Automaton.tracks_nil _) (Automaton.tracks_nil _)
      (hcrlf.1 hlines)

/-- Every line feed of the first stream comes after a carriage return, but one of these is
payload. The payload of the second stream has a line feed without one, and its line ends are
cut. -/
theorem strict_agrees_iff_lines_end_in_crlf_of_payloads :
    let strict := start .strict
    let lenient := start .lenient
    let stream : Octets := [123, 49, 125, 13, 10, 13, 10]
    let chunks : List Octets := [[123, 50, 43, 125, 13], [10, 120, 10, 97], [13], [10, 98]]
    (¬∀ received, received <+: stream →
      (strict.scan received).progress = (lenient.scan received).progress) ∧
    ((Window.start .strict).receiveAll chunks).2 =
      ((Window.start .lenient).receiveAll chunks).2.map (Scan.under .strict) := by
  intro strict lenient stream chunks
  refine ⟨?_, ?_⟩
  · intro hsame
    have hlines := (strict_agrees_iff_lines_end_in_crlf stream).1.1 hsame
    revert hlines
    decide +kernel
  · refine (strict_agrees_iff_lines_end_in_crlf chunks.flatten).2 ?_ chunks rfl
    decide +kernel

end Framer

end StreamFraming
