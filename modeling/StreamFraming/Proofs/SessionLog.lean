import StreamFraming.Proofs.Account
import StreamFraming.Proofs.Canonical

/-!
# The log of a session

The events of a session are reported request by request, and each of them is counted from the
start of a buffer that has lost what was consumed so far. Counted from the start of the stream
they are the events of one scan of all that was fed (`IsCanonical.absolute_log`), whatever was
consumed, acknowledged or refused in between. So the account that a scan's log gives of its
stream (`Account`) is also given by the session, and its declarations are the ones that the
session counts.
-/

namespace StreamFraming

/-- An account reports nothing that was consumed. -/
theorem Account.consumed_not_mem {o : Options} {stream : Octets} {start valid left : Nat}
    {log : List Event} (h : Account o stream start log valid left) (count buffered : Nat) :
    .consumed count buffered ∉ log := by
  intro hmem
  obtain ⟨before, after, hlog⟩ := List.append_of_mem hmem
  exact h.fits hlog

/-- Between two times of consuming all events are counted from the same position. -/
theorem Event.absolute_append {log : List Event}
    (h : ∀ count buffered, .consumed count buffered ∉ log) (removed : Nat) (more : List Event) :
    absolute removed (log ++ more) = log.map (shift removed) ++ absolute removed more := by
  induction log with
  | nil => rfl
  | cons e log ih =>
    have hrest := ih fun count buffered hmem => h count buffered (List.mem_cons_of_mem e hmem)
    cases e with
    | consumed count buffered => exact absurd List.mem_cons_self (h count buffered)
    | declaration d stop => exact congrArg (_ :: ·) hrest
    | payloadComplete stop => exact congrArg (_ :: ·) hrest
    | line start stop text => exact congrArg (_ :: ·) hrest

namespace Session

variable {o : Options} {s : Session} {octets : Octets} {removed acknowledged : Nat}

/-! ## Counting from the start of the stream -/

namespace IsCanonical

/-- The events of a feed are those by which the log of the longer stream is longer. -/
theorem absolute_log_feed (h : IsCanonical o octets removed acknowledged s) (received : Octets)
    (more : List Event) :
    ((Framer.start o).scan octets).log ++
        Event.absolute removed ((s.feed received).2.log ++ more) =
      ((Framer.start o).scan (octets ++ received)).log ++ Event.absolute removed more := by
  have hlog : ((Framer.start o).scan (octets ++ received)).log =
      ((Framer.start o).scan octets).log ++
        (s.feed received).2.log.map (Event.shift removed) :=
    congrArg Scan.log (h.scan_append_eq received)
  have haccount := Framer.account_scan_start o (octets ++ received)
  -- nothing is consumed within a feed, as its events stand in the account of the longer stream
  have hnone (count buffered : Nat) : .consumed count buffered ∉ (s.feed received).2.log := by
    intro hmem
    apply haccount.consumed_not_mem count buffered
    rw [hlog]
    exact List.mem_append_right _ (List.mem_map_of_mem hmem)
  rw [Event.absolute_append hnone, ← List.append_assoc, ← hlog]

/-- After a request the events go on behind those of the stream that is fed by then. -/
theorem absolute_log_handle (h : IsCanonical o octets removed acknowledged s) (r : Request)
    (more : List Event) :
    ((Framer.start o).scan octets).log ++ Event.absolute removed ((s.handle r).log ++ more) =
      ((Framer.start o).scan (octets ++ r.received)).log ++
        Event.absolute (removed + s.removal r) more := by
  cases r with
  | feed received => exact h.absolute_log_feed received more
  | consume n =>
    rw [Request.received, List.append_nil, removal]
    by_cases hn : n ≤ s.framer.cursor
    · rw [handle_consume_of_le hn, if_pos hn]
      rfl
    · rw [handle_consume_of_lt (Nat.lt_of_not_le hn), if_neg hn]
      rfl
  | acknowledge =>
    rw [Request.received, List.append_nil]
    by_cases howed : 0 < s.owed
    · rw [handle_acknowledge_of_pos howed]
      rfl
    · rw [handle_acknowledge_of_eq_zero (Nat.eq_zero_of_not_pos howed)]
      rfl

/-- However requests follow each other, their events are those of one scan. -/
theorem absolute_log (h : IsCanonical o octets removed acknowledged s)
    (requests : List Request) :
    ((Framer.start o).scan octets).log ++ Event.absolute removed (s.log requests) =
      ((Framer.start o).scan (octets ++ Session.stream requests)).log := by
  induction requests generalizing s octets removed acknowledged with
  | nil =>
    rw [Session.stream, List.flatMap_nil, List.append_nil]
    exact List.append_nil _
  | cons r requests ih =>
    -- the canonical form goes on with what the request has brought and consumed
    have hrest := ih (h.handle r)
    rw [Session.stream, List.flatMap_cons, ← List.append_assoc]
    exact (h.absolute_log_handle r _).trans hrest

end IsCanonical

/-! ## The log as a trace -/

/-- The log of a session traces its stream. After any requests in any order, granted or
refused, its events are those of one scan of the stream, counted from the start of the
stream. They come in the order of their positions. A line starts where the event before it has
got to, and its text is all of it but its end. A declared payload ends right after the
declaration has been reported, or it is still pending, and no other payload ends. The
synchronizing declarations are as many as the continuations that the session owes or was told
to have been sent. -/
theorem log_traces_stream (o : Options) (requests : List Request) :
    let octets := stream requests
    let whole := (Framer.start o).scan octets
    let session := (start o).after requests
    let log := Event.absolute 0 ((start o).log requests)
    log = whole.log ∧
    (log.map Event.stop).Pairwise (· < ·) ∧
    (∀ before first stop text after, log = before ++ .line first stop text :: after →
      first = Event.reached 0 before ∧
      ∃ (content : Octets) (ending : Ending),
        (octets.drop first).take (stop - first) = content ++ ending.octets ∧
        (Segment.line content ending).IsClear o ∧ text = Utf8.display content) ∧
    (∀ before d stop after, log = before ++ .declaration d stop :: after →
      (∃ content, Line.Spans o octets content (Event.reached 0 before) stop ∧
        Declaration.parse? content = some d) ∧
      (0 < d.length.toNat →
        (∃ rest, after = .payloadComplete (stop + d.length.toNat) :: rest) ∨
        after = [] ∧ octets.length < stop + d.length.toNat ∧
          session.framer.pending = stop + d.length.toNat - octets.length)) ∧
    (∀ before stop after, log = before ++ .payloadComplete stop :: after →
      ∃ earlier d declared, before = earlier ++ [.declaration d declared] ∧
        0 < d.length.toNat ∧ stop = declared + d.length.toNat) ∧
    log.countP Event.isSynchronizing = whole.progress.synchronizing ∧
    log.countP Event.isSynchronizing = session.owed + (start o).acknowledgements requests := by
  intro octets whole session log
  have hcanonical : IsCanonical o octets ((start o).removals requests)
      ((start o).acknowledgements requests) session := isCanonical_after o requests
  have hlog : log = whole.log := by
    have habsolute := (isCanonical_start o).absolute_log requests
    rwa [Framer.scan_start_nil, List.nil_append, List.nil_append] at habsolute
  have haccount : Account o octets 0 log whole.framer.cursor whole.framer.pending :=
    hlog ▸ Framer.account_scan_start o octets
  have hpending : session.framer.pending = whole.framer.pending := by
    rw [hcanonical.framer_eq]
    rfl
  have hcount : log.countP Event.isSynchronizing = whole.progress.synchronizing :=
    hlog ▸ Framer.countP_log_scan (Nat.zero_le octets.length)
  refine ⟨hlog, ?_, ?_, ?_, ?_, hcount, ?_⟩
  · exact (List.pairwise_cons.1 haccount.pairwise_stop).2
  · intro before first stop text after hsplit
    obtain ⟨hfirst, content, hspans, hd, htext⟩ := haccount.fits hsplit
    obtain ⟨ending, htake, hunbroken, hends⟩ := hspans.exists_ending
    exact ⟨hfirst, content, ending, htake, ⟨hunbroken, hends, hd⟩, htext⟩
  · intro before d stop after hsplit
    rw [hpending]
    exact haccount.fits hsplit
  · intro before stop after hsplit
    exact haccount.fits hsplit
  · rw [hcount]
    exact hcanonical.owed_add.symm

/-- A literal whose payload is completed by a later feed than its declaration, with octets
consumed and requests refused in between, then a literal without payload, and one whose
payload is still to come. -/
theorem log_traces_stream_across_consumption :
    let requests : List Request :=
      [.acknowledge, .feed [97, 13, 10, 123, 50, 125, 13, 10, 98], .consume 4, .consume 9,
        .feed [99, 123, 48, 43, 125, 10], .acknowledge, .consume 11,
        .feed [123, 55, 125, 10, 100]]
    let first : Declaration := { length := 2, kind := .synchronizing, binary := false }
    let last : Declaration := { length := 7, kind := .synchronizing, binary := false }
    let log := Event.absolute 0 ((start {}).log requests)
    log =
      [.line 0 3 "a", .declaration first 8, .payloadComplete 10,
        .declaration { length := 0, kind := .nonSynchronizing, binary := false } 15,
        .declaration last 19] ∧
      ((start {}).after requests).framer.pending = 6 ∧ ((start {}).after requests).owed = 1 := by
  intro requests first last log
  obtain ⟨hlog, -, -, hdeclarations, -, -, howed⟩ := log_traces_stream {} requests
  have hevents : log =
      [.line 0 3 "a", .declaration first 8, .payloadComplete 10,
        .declaration { length := 0, kind := .nonSynchronizing, binary := false } 15,
        .declaration last 19] := by
    show Event.absolute 0 ((start {}).log requests) = _
    rw [hlog]
    decide +kernel
  refine ⟨hevents, ?_, ?_⟩
  · have hsplit : log = log.take 4 ++ [.declaration last 19] := by
      rw [hevents]
      rfl
    obtain ⟨-, hnext⟩ := hdeclarations _ _ _ [] hsplit
    rcases hnext (by decide) with ⟨rest, hrest⟩ | ⟨-, -, hpending⟩
    · exact nomatch hrest
    · exact hpending
  · have hacknowledged : (start {}).acknowledgements requests = 1 := by decide +kernel
    have hcount : log.countP Event.isSynchronizing = 2 := by rw [hevents]; decide
    have := howed.symm.trans hcount
    omega

end Session

end StreamFraming
