import StreamFraming.Proofs.Ending
import StreamFraming.Proofs.Resume

/-!
# What a log says of its stream

The events of a scan are not any list of events: lines follow each other without a gap, a
declaration is followed by the end of its payload, and only the last one may lack it.
`Account` is the grammar of such logs, with a constructor for each way a log goes on, and the
log of every scan belongs to it (`account_scan`). What is known of logs is shown from the
grammar, without looking at scans again: `Account.fits` says what each event tells of the
stream, `Account.pairwise_stop` that events come in the order of their positions.
-/

namespace StreamFraming

/-- The octets from `start` to `stop` are a line of this content. -/
def Line.Spans (o : Options) (stream content : Octets) (start stop : Nat) : Prop :=
  ∃ (ending : Ending) (rest : Octets),
    stream.drop start = content ++ ending.octets ++ rest ∧
      stop = start + (content ++ ending.octets).length ∧
      Segment.Unbroken o content ∧ Segment.Ends o content ending

/-- The log gives an account of the stream from `start` on. All is framed up to `valid`, and
`left` octets of a payload are still to come. -/
inductive Account (o : Options) (stream : Octets) :
    (start : Nat) → (log : List Event) → (valid left : Nat) → Prop where
  /-- Nothing is reported of a line that has no end yet. -/
  | unended {start : Nat} : start ≤ stream.length → Account o stream start [] start 0
  /-- An ordinary line. -/
  | line {content : Octets} {start stop valid left : Nat} {log : List Event} :
      Line.Spans o stream content start stop → Declaration.parse? content = none →
      Account o stream stop log valid left →
      Account o stream start (.line start stop (Utf8.display content) :: log) valid left
  /-- A literal without payload. -/
  | empty {content : Octets} {d : Declaration} {start stop valid left : Nat} {log : List Event} :
      Line.Spans o stream content start stop → Declaration.parse? content = some d →
      d.length.toNat = 0 → Account o stream stop log valid left →
      Account o stream start (.declaration d stop :: log) valid left
  /-- A literal with its payload. -/
  | literal {content : Octets} {d : Declaration} {start stop valid left : Nat}
      {log : List Event} :
      Line.Spans o stream content start stop → Declaration.parse? content = some d →
      0 < d.length.toNat → Account o stream (stop + d.length.toNat) log valid left →
      Account o stream start
        (.declaration d stop :: .payloadComplete (stop + d.length.toNat) :: log) valid left
  /-- A literal whose payload goes on behind the stream. -/
  | unfinished {content : Octets} {d : Declaration} {start stop : Nat} :
      Line.Spans o stream content start stop → Declaration.parse? content = some d →
      stream.length < stop + d.length.toNat →
      Account o stream start [.declaration d stop] stream.length
        (stop + d.length.toNat - stream.length)

variable {o : Options} {stream : Octets}

/-! ## Lines -/

namespace Line.Spans

variable {content : Octets} {start stop : Nat}

/-- A line spans at least its terminator. -/
theorem start_lt_stop (h : Line.Spans o stream content start stop) : start < stop := by
  obtain ⟨ending, rest, -, hstop, -, -⟩ := h
  have hpos : 0 < ending.octets.length := by
    cases ending <;> decide
  rw [List.length_append] at hstop
  omega

theorem stop_le_length (h : Line.Spans o stream content start stop) : stop ≤ stream.length := by
  have hlt := h.start_lt_stop
  obtain ⟨ending, rest, hdrop, hstop, -, -⟩ := h
  have hlen := congrArg List.length hdrop
  rw [List.length_drop, List.length_append] at hlen
  omega

/-- The octets of a line are its content and its end. -/
theorem exists_ending (h : Line.Spans o stream content start stop) :
    ∃ ending : Ending, (stream.drop start).take (stop - start) = content ++ ending.octets ∧
      Segment.Unbroken o content ∧ Segment.Ends o content ending := by
  obtain ⟨ending, rest, hdrop, hstop, hu, he⟩ := h
  refine ⟨ending, ?_, hu, he⟩
  have hlen : stop - start = (content ++ ending.octets).length := by omega
  rw [hdrop, hlen, List.take_left]

/-- What a search finds in the rest of a stream is a line of it. -/
theorem of_search {e : Line.Extent} (h : Line.search o 0 none (stream.drop start) = some e) :
    Line.Spans o stream ((stream.drop start).take e.content) start (start + e.length) := by
  obtain ⟨ending, htake, hu, he⟩ := Segment.exists_ending_of_search h
  have hbounds := Line.search_bounds h
  refine ⟨ending, (stream.drop start).drop e.length, ?_, ?_, hu, he⟩
  · rw [← htake, List.take_append_drop]
  · rw [← htake, List.length_take]
    omega

end Line.Spans

/-! ## The log of a scan -/

namespace Account

variable {content : Octets} {start stop valid left : Nat} {log : List Event}

/-- An account goes on behind a line and the payload that the line announces. -/
theorem cons_ofLine (hspans : Line.Spans o stream content start stop)
    (hrest : Account o stream (stop + Line.announced content) log valid left) :
    Account o stream start
      (.ofLine content start stop ::
        ((if Line.announced content = 0 then []
          else [.payloadComplete (stop + Line.announced content)]) ++ log)) valid left := by
  unfold Line.announced at hrest ⊢
  unfold Event.ofLine
  cases hd : Declaration.parse? content with
  | none =>
    rw [hd] at hrest
    exact .line hspans hd hrest
  | some d =>
    rw [hd] at hrest
    rcases Nat.eq_zero_or_pos d.length.toNat with hzero | hpos
    · simp only [hzero, if_true, List.nil_append]
      simp only [hzero, Nat.add_zero] at hrest
      exact .empty hspans hd hzero hrest
    · simp only [Nat.ne_of_gt hpos, if_false, List.singleton_append]
      exact .literal hspans hd hpos hrest

/-- An account stops behind a line whose payload goes on behind the stream. -/
theorem singleton_ofLine (hspans : Line.Spans o stream content start stop)
    (hlt : stream.length < stop + Line.announced content) :
    Account o stream start [.ofLine content start stop] stream.length
      (stop + Line.announced content - stream.length) := by
  have hle := hspans.stop_le_length
  unfold Line.announced at hlt ⊢
  unfold Event.ofLine
  cases hd : Declaration.parse? content with
  | none =>
    rw [hd] at hlt
    have hlt' : stream.length < stop := hlt
    omega
  | some d =>
    rw [hd] at hlt
    exact .unfinished hspans hd hlt

end Account

namespace Framer

variable {f : Framer} {buffer : Octets}

/-- From the next line on the log of a scan is an account of the buffer. -/
theorem InStep.account_scan (h : f.InStep buffer) (hl : f.lineStart ≤ buffer.length) :
    ∃ log, (f.scan buffer).log = f.completion ++ log ∧
      Account f.options buffer f.lineStart log (f.scan buffer).framer.cursor
        (f.scan buffer).framer.pending := by
  have hc := h.cursor_le
  induction f, hc using scan_induction with
  | payload f hc hlt => omega
  | unended f hc _ hn =>
    rw [scan_of_find?_eq_none hl hn]
    exact ⟨[], (List.append_nil _).symm, .unended hl⟩
  | line f hc e hle hs ih =>
    have hspans : Line.Spans f.options buffer ((buffer.drop f.lineStart).take e.content)
        f.lineStart (f.lineStart + e.length) :=
      Line.Spans.of_search (h.searched_line.find?_eq_search ▸ hs)
    rw [scan_of_find?_eq_some hl hs]
    generalize (buffer.drop f.lineStart).take e.content = content at hspans ih ⊢
    -- the account goes on where the announced payload ends, if that is in the buffer
    by_cases hle' : f.lineStart + e.length + Line.announced content ≤ buffer.length
    · obtain ⟨log, hlog, haccount⟩ := ih (inStep_passLine hle) hle'
      refine ⟨_, ?_, Account.cons_ofLine hspans haccount⟩
      rw [Scan.following, hlog, completion_passLine, List.append_assoc]
      rfl
    · have hlt : buffer.length < f.lineStart + e.length + Line.announced content :=
        Nat.lt_of_not_le hle'
      rw [scan_of_lt (f := f.passLine content e.length) hle hlt]
      exact ⟨_, List.append_nil _, Account.singleton_ofLine hspans hlt⟩

/-- The log of a stream is an account of it. -/
theorem account_scan_start (o : Options) (stream : Octets) :
    Account o stream 0 ((start o).scan stream).log ((start o).scan stream).framer.cursor
      ((start o).scan stream).framer.pending := by
  obtain ⟨log, hlog, haccount⟩ := (inStep_start o stream).account_scan (Nat.zero_le _)
  rw [hlog]
  exact haccount

end Framer

/-! ## Reading an account -/

/-- The position that an event has got to. What is consumed is counted from the start. -/
def Event.stop : Event → Nat
  | .declaration _ stop => stop
  | .payloadComplete stop => stop
  | .line _ stop _ => stop
  | .consumed _ _ => 0

/-- The position that the events of a log from `start` on have got to. -/
def Event.reached (start : Nat) (log : List Event) : Nat := (log.getLast?.map stop).getD start

/-- Whether an event is the declaration of a synchronizing literal. -/
def Event.isSynchronizing : Event → Bool
  | .declaration d _ => d.isSynchronizing
  | _ => false

theorem Event.reached_cons (start : Nat) (e : Event) (log : List Event) :
    reached start (e :: log) = reached e.stop log := by
  unfold reached
  rw [List.getLast?_cons]
  cases log.getLast? <;> rfl

/-- What an event tells of the stream, between the events before it and those after it. -/
def Event.Fits (o : Options) (stream : Octets) (left start : Nat) (before : List Event)
    (e : Event) (after : List Event) : Prop :=
  match e with
  | .line first stop text =>
    first = reached start before ∧ ∃ content, Line.Spans o stream content first stop ∧
      Declaration.parse? content = none ∧ text = Utf8.display content
  | .declaration d stop =>
    (∃ content, Line.Spans o stream content (reached start before) stop ∧
      Declaration.parse? content = some d) ∧
    (0 < d.length.toNat →
      (∃ rest, after = .payloadComplete (stop + d.length.toNat) :: rest) ∨
      after = [] ∧ stream.length < stop + d.length.toNat ∧
        left = stop + d.length.toNat - stream.length)
  | .payloadComplete stop =>
    ∃ earlier d declared, before = earlier ++ [.declaration d declared] ∧ 0 < d.length.toNat ∧
      stop = declared + d.length.toNat
  | .consumed _ _ => False

/-- An event that fits still fits behind an earlier one. -/
theorem Event.Fits.cons {left start : Nat} {first e : Event} {before after : List Event}
    (h : e.Fits o stream left first.stop before after) :
    e.Fits o stream left start (first :: before) after := by
  have hreached := reached_cons start first before
  cases e with
  | line a b text =>
    unfold Fits at h ⊢
    rw [hreached]
    exact h
  | declaration d stop =>
    unfold Fits at h ⊢
    rw [hreached]
    exact h
  | payloadComplete stop =>
    obtain ⟨earlier, d, declared, hbefore, hlength, hstop⟩ := h
    exact ⟨first :: earlier, d, declared, congrArg (first :: ·) hbefore, hlength, hstop⟩
  | consumed count buffered => exact h

namespace Account

variable {start valid left : Nat} {log : List Event}

/-- An account never goes back behind where it started. -/
theorem le_valid (h : Account o stream start log valid left) : start ≤ valid := by
  induction h with
  | unended => exact Nat.le_refl _
  | line hspans _ _ ih => exact Nat.le_trans (Nat.le_of_lt hspans.start_lt_stop) ih
  | empty hspans _ _ _ ih => exact Nat.le_trans (Nat.le_of_lt hspans.start_lt_stop) ih
  | literal hspans _ _ _ ih =>
    have hlt := hspans.start_lt_stop
    omega
  | unfinished hspans =>
    exact Nat.le_trans (Nat.le_of_lt hspans.start_lt_stop) hspans.stop_le_length

/-- Events come in the order of their positions. -/
theorem pairwise_stop (h : Account o stream start log valid left) :
    (start :: log.map Event.stop).Pairwise (· < ·) := by
  have hcons {a b : Nat} {stops : List Nat} (hab : a < b)
      (hstops : (b :: stops).Pairwise (· < ·)) : (a :: b :: stops).Pairwise (· < ·) := by
    refine List.pairwise_cons.2 ⟨?_, hstops⟩
    intro c hc
    rcases List.mem_cons.1 hc with rfl | hc
    · exact hab
    · exact Nat.lt_trans hab ((List.pairwise_cons.1 hstops).1 c hc)
  induction h with
  | unended => exact List.pairwise_singleton _ _
  | line hspans _ _ ih => exact hcons hspans.start_lt_stop ih
  | empty hspans _ _ _ ih => exact hcons hspans.start_lt_stop ih
  | literal hspans _ hpos _ ih =>
    exact hcons hspans.start_lt_stop (hcons (Nat.lt_add_of_pos_right hpos) ih)
  | unfinished hspans => exact hcons hspans.start_lt_stop (List.pairwise_singleton _ _)

/-- Every event of an account fits. -/
theorem fits (h : Account o stream start log valid left) {before after : List Event} {e : Event}
    (hlog : log = before ++ e :: after) : e.Fits o stream left start before after := by
  induction h generalizing before with
  | unended =>
    have hne := List.append_ne_nil_of_right_ne_nil before (List.cons_ne_nil e after)
    exact absurd hlog.symm hne
  | line hspans hd hrest ih =>
    cases before with
    | nil =>
      cases hlog
      exact ⟨rfl, _, hspans, hd, rfl⟩
    | cons first before =>
      injection hlog with hfirst hlog
      subst hfirst
      exact (ih hlog).cons
  | empty hspans hd hzero hrest ih =>
    cases before with
    | nil =>
      cases hlog
      exact ⟨⟨_, hspans, hd⟩, fun hpos => absurd hzero (Nat.ne_of_gt hpos)⟩
    | cons first before =>
      injection hlog with hfirst hlog
      subst hfirst
      exact (ih hlog).cons
  | literal hspans hd hpos hrest ih =>
    match before with
    | [] =>
      cases hlog
      exact ⟨⟨_, hspans, hd⟩, fun _ => .inl ⟨_, rfl⟩⟩
    | [first] =>
      cases hlog
      exact ⟨[], _, _, rfl, hpos, rfl⟩
    | first :: second :: before =>
      injection hlog with hfirst hlog
      injection hlog with hsecond hlog
      subst hfirst hsecond
      exact (ih hlog).cons.cons
  | unfinished hspans hd hlt =>
    cases before with
    | nil =>
      cases hlog
      exact ⟨⟨_, hspans, hd⟩, fun _ => .inr ⟨rfl, hlt, rfl⟩⟩
    | cons first before =>
      injection hlog with hfirst hlog
      have hne := List.append_ne_nil_of_right_ne_nil before (List.cons_ne_nil e after)
      exact absurd hlog.symm hne

end Account

/-! ## Counting -/

/-- A line's event is synchronizing exactly when the line asks for a continuation. -/
theorem Event.countP_ofLine (content : Octets) (start stop : Nat) :
    [ofLine content start stop].countP isSynchronizing = Line.continuations content := by
  unfold ofLine Line.continuations
  cases Declaration.parse? content with
  | none => rfl
  | some d =>
    unfold Declaration.continuations
    cases hd : d.isSynchronizing with
    | true => simp [isSynchronizing, hd]
    | false => simp [isSynchronizing, hd]

theorem Framer.countP_completion (f : Framer) :
    f.completion.countP Event.isSynchronizing = 0 := by
  unfold completion
  cases f.inLiteral <;> rfl

/-- The synchronizing literals that a scan counts are those that it reports. -/
theorem Framer.countP_log_scan {f : Framer} {buffer : Octets} (hc : f.cursor ≤ buffer.length) :
    (f.scan buffer).log.countP Event.isSynchronizing = (f.scan buffer).progress.synchronizing := by
  induction f, hc using scan_induction with
  | payload f hc hl =>
    rw [scan_of_lt hc hl]
    rfl
  | unended f hc hl hn =>
    rw [scan_of_find?_eq_none hl hn]
    exact f.countP_completion
  | line f hc e hle hs ih =>
    rw [scan_of_find?_eq_some (Nat.le_of_add_right_le hle) hs, Scan.following, List.countP_append,
      List.countP_append, ih, f.countP_completion, Event.countP_ofLine, Nat.zero_add]
    rfl

end StreamFraming
