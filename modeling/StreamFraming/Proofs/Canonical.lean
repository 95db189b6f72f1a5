import StreamFraming.Proofs.Resume
import StreamFraming.Proofs.Shift
import StreamFraming.Session.History

/-!
# What a session comes to

A session keeps no more of its history than three things: the stream that was fed, how much
of it was consumed, and how many continuations were acknowledged. `IsCanonical` says what the
session is in terms of these, every request keeps it true (`IsCanonical.handle`), and so it is
true after any requests in any order (`after_eq_canonical_form`).
-/

namespace StreamFraming.Session

variable {o : Options} {s : Session} {n : Nat}

/-! ## What a request does -/

/-- Framed octets are removed from the framer and from the buffer. -/
theorem consume_of_le (h : n ≤ s.framer.cursor) :
    s.consume n =
      { result := .ok ()
        after := { s with bytes := s.bytes.drop n, framer := s.framer.consume n }
        log := [.consumed n (s.bytes.drop n).length] } := by
  rw [consume, Framer.tryConsume_of_le h]
  rfl

/-- The framer refuses what is not framed, and is the framer of the same buffer as before. -/
theorem consume_of_lt (h : s.framer.cursor < n) :
    s.consume n =
      { result := .error (.consumeBeyondFrame n s.framer.cursor), after := s, log := [] } := by
  rw [consume, Framer.tryConsume_of_lt h]

/-- One continuation less is owed. -/
theorem acknowledge_of_pos (h : 0 < s.owed) :
    s.acknowledge = { result := .ok (), after := { s with owed := s.owed - 1 }, log := [] } := by
  obtain ⟨owed, howed⟩ := Nat.exists_eq_add_of_lt h
  rw [Nat.zero_add] at howed
  simp only [acknowledge, howed, Nat.add_sub_cancel]

/-- No continuation is owed, and none is owed afterwards. -/
theorem acknowledge_of_eq_zero (h : s.owed = 0) :
    s.acknowledge = { result := .error .noContinuationOwed, after := s, log := [] } := by
  simp only [acknowledge, h]

/-- A granted removal drops octets, moves the framer back and is reported. -/
theorem handle_consume_of_le (h : n ≤ s.framer.cursor) :
    s.handle (.consume n) =
      { session := { s with bytes := s.bytes.drop n, framer := s.framer.consume n }
        reply := .done
        log := [.consumed n (s.bytes.drop n).length] } := by
  rw [handle, consume_of_le h]
  rfl

/-- A removal beyond the frame is refused with both numbers. -/
theorem handle_consume_of_lt (h : s.framer.cursor < n) :
    s.handle (.consume n) =
      { session := s
        reply := .refused (.consumeBeyondFrame n s.framer.cursor)
        log := [] } := by
  rw [handle, consume_of_lt h]
  rfl

/-- A granted acknowledgement lowers the debt by one. -/
theorem handle_acknowledge_of_pos (h : 0 < s.owed) :
    s.handle .acknowledge =
      { session := { s with owed := s.owed - 1 }, reply := .done, log := [] } := by
  rw [handle, acknowledge_of_pos h]
  rfl

theorem handle_acknowledge_of_eq_zero (h : s.owed = 0) :
    s.handle .acknowledge =
      { session := s, reply := .refused .noContinuationOwed, log := [] } := by
  rw [handle, acknowledge_of_eq_zero h]
  rfl

/-- Octets count as consumed if the session says so. -/
theorem removal_consume (s : Session) (n : Nat) :
    s.removal (.consume n) = if (s.handle (.consume n)).reply = .done then n else 0 := by
  by_cases h : n ≤ s.framer.cursor
  · rw [handle_consume_of_le h]
    simp [removal, h]
  · rw [handle_consume_of_lt (Nat.lt_of_not_le h)]
    simp [removal, h]

/-- A continuation counts as acknowledged if the session says so. -/
theorem acknowledgement_acknowledge (s : Session) :
    s.acknowledgement .acknowledge = if (s.handle .acknowledge).reply = .done then 1 else 0 := by
  by_cases h : 0 < s.owed
  · rw [handle_acknowledge_of_pos h]
    simp [acknowledgement, h]
  · rw [handle_acknowledge_of_eq_zero (Nat.eq_zero_of_not_pos h)]
    simp [acknowledgement, h]

/-! ## The canonical form -/

/-- The session is what this stream comes to once `removed` octets of it were consumed and
`acknowledged` continuations acknowledged: it differs from a framer that scans the whole
stream by these numbers and by nothing else. -/
structure IsCanonical (o : Options) (octets : Octets) (removed acknowledged : Nat)
    (s : Session) : Prop where
  removed_le : removed ≤ ((Framer.start o).scan octets).framer.cursor
  bytes_eq : s.bytes = octets.drop removed
  framer_eq : s.framer = ((Framer.start o).scan octets).framer.consume removed
  owed_add : s.owed + acknowledged = ((Framer.start o).scan octets).progress.synchronizing

variable {octets : Octets} {removed acknowledged : Nat}

/-- A new session is in canonical form, with nothing received or removed. -/
theorem isCanonical_start (o : Options) : IsCanonical o [] 0 0 (start o) := by
  refine ⟨Nat.zero_le _, rfl, ?_, ?_⟩
  · rw [Framer.scan_start_nil]
    rfl
  · rw [Framer.scan_start_nil]
    rfl

/-- What is framed of a stream was received. -/
theorem cursor_scan_start_le (o : Options) (octets : Octets) :
    ((Framer.start o).scan octets).framer.cursor ≤ octets.length :=
  (Framer.inStep_start o octets).scan.cursor_le

namespace IsCanonical

/-- The frame and what was removed add up to the frame of the whole stream. -/
theorem cursor_add (h : IsCanonical o octets removed acknowledged s) :
    s.framer.cursor + removed = ((Framer.start o).scan octets).framer.cursor := by
  rw [h.framer_eq, Framer.consume_of_le h.removed_le]
  exact Nat.sub_add_cancel h.removed_le

/-- What is known of a session determines it. -/
theorem unique {t : Session} (hs : IsCanonical o octets removed acknowledged s)
    (ht : IsCanonical o octets removed acknowledged t) : s = t := by
  have hbytes : s.bytes = t.bytes := hs.bytes_eq.trans ht.bytes_eq.symm
  have hframer : s.framer = t.framer := hs.framer_eq.trans ht.framer_eq.symm
  have howed : s.owed = t.owed :=
    Nat.add_right_cancel (hs.owed_add.trans ht.owed_add.symm)
  cases s
  cases t
  simp_all

/-- The framer of a session, moved back to where it would be had nothing been consumed,
scans on as a framer of the whole stream. -/
theorem scan_append_eq (h : IsCanonical o octets removed acknowledged s) (received : Octets) :
    (Framer.start o).scan (octets ++ received) =
      ((Framer.start o).scan octets).andThen
        ((s.framer.scan (s.bytes ++ received)).shift removed) := by
  have hlen := (List.prefix_append octets received).length_le
  have hcursor := cursor_scan_start_le o octets
  have hdrop : s.bytes ++ received = (octets ++ received).drop removed := by
    rw [h.bytes_eq, List.drop_append_of_le_length (Nat.le_trans h.removed_le hcursor)]
  rw [Framer.scan_append (Framer.inStep_start o octets), hdrop, h.framer_eq,
    ← Framer.scan_eq_shift_scan_consume h.removed_le (Nat.le_trans hcursor hlen)]

/-- Received octets extend the stream. -/
theorem feed (h : IsCanonical o octets removed acknowledged s) (received : Octets) :
    IsCanonical o (octets ++ received) removed acknowledged (s.feed received).1 := by
  have hscan := h.scan_append_eq received
  have hcursor := cursor_scan_start_le o octets
  refine ⟨?_, ?_, ?_, ?_⟩
  · rw [hscan]
    exact Nat.le_add_left removed _
  · show s.bytes ++ received = _
    rw [h.bytes_eq, List.drop_append_of_le_length (Nat.le_trans h.removed_le hcursor)]
  · -- consuming what was removed takes the shift back
    rw [hscan]
    exact (Framer.consume_shift _ _).symm
  · show s.owed + (s.framer.scan (s.bytes ++ received)).progress.synchronizing + acknowledged = _
    rw [hscan, Nat.add_right_comm, h.owed_add]
    rfl

theorem consume (h : IsCanonical o octets removed acknowledged s) (hn : n ≤ s.framer.cursor) :
    IsCanonical o octets (removed + n) acknowledged
      { s with bytes := s.bytes.drop n, framer := s.framer.consume n } := by
  have hcursor := h.cursor_add
  have hle : removed + n ≤ ((Framer.start o).scan octets).framer.cursor := by omega
  refine ⟨hle, ?_, ?_, h.owed_add⟩
  · show s.bytes.drop n = _
    rw [h.bytes_eq, List.drop_drop]
  · show s.framer.consume n = _
    rw [Framer.consume_of_le hn, Framer.consume_of_le hle, h.framer_eq,
      Framer.consume_of_le h.removed_le, Nat.sub_sub]

theorem acknowledge (h : IsCanonical o octets removed acknowledged s) (howed : 0 < s.owed) :
    IsCanonical o octets removed (acknowledged + 1) { s with owed := s.owed - 1 } := by
  refine ⟨h.removed_le, h.bytes_eq, h.framer_eq, ?_⟩
  show s.owed - 1 + (acknowledged + 1) = _
  rw [← h.owed_add]
  omega

/-- What a request brings, consumes and acknowledges is all that becomes of it. -/
theorem handle (h : IsCanonical o octets removed acknowledged s) (r : Request) :
    IsCanonical o (octets ++ r.received) (removed + s.removal r)
      (acknowledged + s.acknowledgement r) (s.handle r).session := by
  cases r with
  | feed received => exact h.feed received
  | consume n =>
    rw [Request.received, List.append_nil]
    by_cases hn : n ≤ s.framer.cursor
    · rw [handle_consume_of_le hn, removal, if_pos hn]
      exact h.consume hn
    · rw [handle_consume_of_lt (Nat.lt_of_not_le hn), removal, if_neg hn]
      exact h
  | acknowledge =>
    rw [Request.received, List.append_nil]
    by_cases howed : 0 < s.owed
    · rw [handle_acknowledge_of_pos howed, acknowledgement, if_pos howed]
      exact h.acknowledge howed
    · rw [handle_acknowledge_of_eq_zero (Nat.eq_zero_of_not_pos howed), acknowledgement,
        if_neg howed]
      exact h

/-- What requests bring, consume and acknowledge is all that becomes of them. -/
theorem after (h : IsCanonical o octets removed acknowledged s) (requests : List Request) :
    IsCanonical o (octets ++ Session.stream requests) (removed + s.removals requests)
      (acknowledged + s.acknowledgements requests) (s.after requests) := by
  induction requests generalizing s octets removed acknowledged with
  | nil =>
    rw [Session.stream, List.flatMap_nil, List.append_nil]
    exact h
  | cons r requests ih =>
    have hrest := ih (h.handle r)
    rw [Session.stream, List.flatMap_cons, ← List.append_assoc, removals, ← Nat.add_assoc,
      acknowledgements, ← Nat.add_assoc]
    exact hrest

/-- What can be decoded is the frame of the stream without what was removed. -/
theorem decodable_eq (h : IsCanonical o octets removed acknowledged s) :
    s.decodable = (octets.take ((Framer.start o).scan octets).framer.cursor).drop removed := by
  rw [List.drop_take, ← h.cursor_add, Nat.add_sub_cancel, ← h.bytes_eq]
  rfl

end IsCanonical

/-- After any requests a session is in canonical form, with the stream, removals and
acknowledgements read off the requests. -/
theorem isCanonical_after (o : Options) (requests : List Request) :
    IsCanonical o (stream requests) ((start o).removals requests)
      ((start o).acknowledgements requests) ((start o).after requests) := by
  have h := (isCanonical_start o).after requests
  rwa [List.nil_append, Nat.zero_add, Nat.zero_add] at h

/-- After any requests in any order, granted or refused, a session is what the stream fed to
it comes to when scanned at once, less the octets consumed and the continuations
acknowledged. -/
theorem after_eq_canonical_form (o : Options) (requests : List Request) :
    let whole := (Framer.start o).scan (stream requests)
    let removed := (start o).removals requests
    let acknowledged := (start o).acknowledgements requests
    let session := (start o).after requests
    removed ≤ whole.progress.valid ∧ acknowledged ≤ whole.progress.synchronizing ∧
    session =
      { bytes := (stream requests).drop removed
        framer := { whole.framer with cursor := whole.progress.valid - removed }
        owed := whole.progress.synchronizing - acknowledged } ∧
    session.framer.cursor ≤ session.bytes.length ∧
    session.decodable = ((stream requests).take whole.progress.valid).drop removed ∧
    ∀ others : List Request, stream others = stream requests →
      (start o).removals others = removed → (start o).acknowledgements others = acknowledged →
      (start o).after others = session := by
  intro whole removed acknowledged session
  have h : IsCanonical o (stream requests) removed acknowledged session :=
    isCanonical_after o requests
  have howed : session.owed + acknowledged = whole.progress.synchronizing := h.owed_add
  have hcursor : session.framer.cursor + removed = whole.framer.cursor := h.cursor_add
  have hframed : whole.framer.cursor ≤ (stream requests).length := cursor_scan_start_le o _
  refine ⟨h.removed_le, by omega, ?_, ?_, h.decodable_eq, ?_⟩
  · have hframer : session.framer =
        { whole.framer with cursor := whole.progress.valid - removed } :=
      h.framer_eq.trans (Framer.consume_of_le h.removed_le)
    rw [← hframer, ← h.bytes_eq, ← howed, Nat.add_sub_cancel]
  · rw [h.bytes_eq, List.length_drop]
    omega
  · intro others hstream hremoved hacknowledged
    -- the other requests have the same canonical form
    have hothers := isCanonical_after o others
    rw [hstream, hremoved, hacknowledged] at hothers
    exact hothers.unique h

/-- A literal that arrives in three parts, with refused requests in between, comes to what it
comes to when all of it is fed first. -/
theorem after_eq_of_requests_reordered :
    let requests : List Request :=
      [.acknowledge, .feed [97, 32, 123, 49, 125, 13], .consume 1, .feed [10], .consume 2,
        .feed [98], .acknowledge]
    let others : List Request :=
      [.feed [97, 32, 123, 49, 125, 13, 10, 98], .acknowledge, .consume 1, .consume 9,
        .acknowledge, .consume 1]
    stream others = stream requests ∧ (start {}).removals requests = 2 ∧
      (start {}).acknowledgements requests = 1 ∧
      (start {}).after others = (start {}).after requests ∧
      ((start {}).after requests).decodable = [123, 49, 125, 13, 10, 98] := by
  intro requests others
  have hstream : stream others = stream requests := by decide
  have hremovals : (start {}).removals requests = 2 := by decide +kernel
  have hacknowledgements : (start {}).acknowledgements requests = 1 := by decide +kernel
  have hremovals' : (start {}).removals others = (start {}).removals requests := by decide +kernel
  have hacknowledgements' :
      (start {}).acknowledgements others = (start {}).acknowledgements requests := by
    decide +kernel
  obtain ⟨-, -, -, -, hdecodable, hothers⟩ := after_eq_canonical_form {} requests
  refine ⟨hstream, hremovals, hacknowledgements,
    hothers others hstream hremovals' hacknowledgements', ?_⟩
  rw [hdecodable]
  decide +kernel

end StreamFraming.Session
