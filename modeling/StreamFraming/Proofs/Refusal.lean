import StreamFraming.Proofs.Account
import StreamFraming.Proofs.Canonical

/-!
# What a session refuses

A session refuses to remove octets that are not framed, and to count a continuation as sent that
it does not owe; it refuses nothing else (`Session.consume_eq_error_iff`,
`Session.acknowledge_eq_error_iff`). Both conditions are about the session as it is, and both
can be read off its history: what is decodable is all that is framed (`length_decodable`), and
nothing is owed exactly if all literals of the stream that wait are acknowledged
(`owed_eq_zero_iff`).

Consuming has two steps, in the framer and in the buffer. The second can always be taken after
the first, because what is framed is in the buffer (`cursor_le_length`). If the first is refused,
the session holds what it has left of the framer, which is the framer as it was
(`Framer.tryConsume_unchanged`); so a refused request changes nothing and reports nothing
(`handle_unchanged`), and neither do any number of them (`after_unchanged`).
-/

namespace StreamFraming

/-! ## Framers -/

/-- Octets can be consumed if they are framed, and otherwise the number of those is reported. -/
theorem Framer.tryConsume_eq_error_iff {f : Framer} {n : Nat} {m : Misuse} :
    (f.tryConsume n).result = .error m ↔
      f.cursor < n ∧ m = .consumeBeyondFrame n f.cursor := by
  rcases Nat.lt_or_ge f.cursor n with hn | hn
  · rw [tryConsume_of_lt hn]
    simp [hn, eq_comm]
  · rw [tryConsume_of_le hn]
    simp [Nat.not_lt.2 hn]

/-- A framer that refuses to consume is left as it is. -/
theorem Framer.tryConsume_unchanged {f : Framer} {n : Nat} {m : Misuse}
    (h : (f.tryConsume n).result = .error m) :
    (f.tryConsume n).after = f ∧ (f.tryConsume n).log = [] := by
  rw [tryConsume_of_lt (tryConsume_eq_error_iff.1 h).1]
  exact ⟨rfl, rfl⟩

namespace Session

variable {o : Options} {s : Session} {n : Nat}

/-! ## When a request is refused -/

/-- A session refuses to consume what its framer refuses to. -/
theorem consume_eq_error_iff {m : Misuse} :
    (s.consume n).result = .error m ↔
      s.framer.cursor < n ∧ m = .consumeBeyondFrame n s.framer.cursor := by
  rw [← Framer.tryConsume_eq_error_iff, consume]
  cases (s.framer.tryConsume n).result with
  | error m' => exact Iff.rfl
  | ok => simp only [reduceCtorEq]

/-- A continuation can be acknowledged if one is owed. -/
theorem acknowledge_eq_error_iff {m : Misuse} :
    s.acknowledge.result = .error m ↔ s.owed = 0 ∧ m = .noContinuationOwed := by
  unfold acknowledge
  cases s.owed with
  | zero => simp [eq_comm]
  | succ owed => simp

/-! ## What a refused request leaves -/

/-- A session that refuses to consume is left as it is. It has taken over what its framer has come
to by then, and that is the framer that it was. -/
theorem consume_unchanged {m : Misuse} (h : (s.consume n).result = .error m) :
    (s.consume n).after = s ∧ (s.consume n).log = [] := by
  have hrefused : (s.framer.tryConsume n).result = .error m :=
    Framer.tryConsume_eq_error_iff.2 (consume_eq_error_iff.1 h)
  obtain ⟨hafter, hlog⟩ := Framer.tryConsume_unchanged hrefused
  unfold consume
  simp only [hrefused, hafter, hlog, and_self]

/-- A session that refuses an acknowledgement is left as it is. -/
theorem acknowledge_unchanged {m : Misuse} (h : s.acknowledge.result = .error m) :
    s.acknowledge.after = s ∧ s.acknowledge.log = [] := by
  rw [acknowledge_of_eq_zero (acknowledge_eq_error_iff.1 h).1]
  exact ⟨rfl, rfl⟩

/-- An attempt is answered with a refusal if it is refused. -/
theorem Reply.ofResult_eq_refused_iff {result : Except Misuse Unit} {m : Misuse} :
    Reply.ofResult result = .refused m ↔ result = .error m := by
  cases result with
  | error m' => rw [Reply.ofResult, Reply.refused.injEq, Except.error.injEq]
  | ok => exact ⟨nofun, nofun⟩

/-- Whatever the request, a session that refuses it is left as it is and reports nothing. -/
theorem handle_unchanged {r : Request} {m : Misuse} (h : (s.handle r).reply = .refused m) :
    (s.handle r).session = s ∧ (s.handle r).log = [] := by
  cases r with
  | feed received => exact nomatch h
  | consume n => exact consume_unchanged (Reply.ofResult_eq_refused_iff.1 h)
  | acknowledge => exact acknowledge_unchanged (Reply.ofResult_eq_refused_iff.1 h)

/-- So are any number of requests without effect of which each is refused. -/
theorem after_unchanged {requests : List Request}
    (h : ∀ outcome ∈ s.outcomes requests, ∃ m, outcome.reply = .refused m) :
    s.after requests = s ∧ s.log requests = [] := by
  induction requests with
  | nil => exact ⟨rfl, rfl⟩
  | cons r requests ih =>
    rw [outcomes, List.forall_mem_cons] at h
    obtain ⟨⟨m, hm⟩, hrest⟩ := h
    obtain ⟨hsession, hlog⟩ := handle_unchanged hm
    rw [hsession] at hrest
    obtain ⟨hafter, hnone⟩ := ih hrest
    have hlast : s.after (r :: requests) = (s.handle r).session.after requests := rfl
    have hall : s.log (r :: requests) = (s.handle r).log ++ (s.handle r).session.log requests := rfl
    rw [hlast, hall, hsession, hlog, hafter, hnone]
    exact ⟨rfl, rfl⟩

namespace IsCanonical

variable {octets : Octets} {removed acknowledged : Nat}

/-- What is framed is in the buffer. -/
theorem cursor_le_length (h : IsCanonical o octets removed acknowledged s) :
    s.framer.cursor ≤ s.bytes.length := by
  have hcursor := h.cursor_add
  have hframed := cursor_scan_start_le o octets
  rw [h.bytes_eq, List.length_drop]
  omega

/-- The cursor of a session is the number of octets that can be decoded. -/
theorem length_decodable (h : IsCanonical o octets removed acknowledged s) :
    s.decodable.length = s.framer.cursor :=
  List.length_take_of_le h.cursor_le_length

/-- Nothing is owed if all literals of the stream that wait are acknowledged. -/
theorem owed_eq_zero_iff (h : IsCanonical o octets removed acknowledged s) :
    s.owed = 0 ↔
      acknowledged = ((Framer.start o).scan octets).log.countP Event.isSynchronizing := by
  rw [Framer.countP_log_scan (Nat.zero_le octets.length), ← h.owed_add]
  omega

end IsCanonical

/-- Removing decodable octets removes these and nothing else: the buffer is cut behind them, and
so is what is decodable, while what is not decodable stays. -/
theorem consume_splits_decodable (hn : n ≤ s.framer.cursor) :
    let t := (s.consume n).after
    s.bytes = s.bytes.take n ++ t.bytes ∧ t.decodable = s.decodable.drop n ∧
      t.bytes.drop t.framer.cursor = s.bytes.drop s.framer.cursor := by
  intro t
  have ht : t = { s with bytes := s.bytes.drop n, framer := s.framer.consume n } := by
    show (s.consume n).after = _
    rw [consume_of_le hn]
  have hcursor : t.framer.cursor = s.framer.cursor - n := by rw [ht]; rfl
  have hbytes : t.bytes = s.bytes.drop n := by rw [ht]
  refine ⟨?_, ?_, ?_⟩
  · rw [hbytes, List.take_append_drop]
  · show t.bytes.take t.framer.cursor = (s.bytes.take s.framer.cursor).drop n
    rw [hbytes, hcursor, List.drop_take]
  · rw [hbytes, hcursor, List.drop_drop, Nat.add_sub_of_le hn]

/-- A session refuses exactly what it must, and a refused request changes nothing. After any
requests, granted or refused, `n` octets are refused exactly if they are more than those
decodable, and the session says how many these are. Otherwise the octets are there, exactly they
go, what is not decodable stays with the payload that is still to come, and as much is owed. An
acknowledgement is refused exactly if all synchronizing literals of the stream are acknowledged,
and otherwise takes one off what is owed. What is decodable is what the framer has framed, and
any framer, in whatever state, refuses to consume more than it has framed in the same words.
Whenever one of the three is refused, the state that it leaves is the state before it, and nothing
is reported. -/
theorem refuses_exactly_what_it_must (o : Options) (requests : List Request) (n : Nat) :
    let s := (start o).after requests
    let declared :=
      ((Framer.start o).scan (stream requests)).log.countP Event.isSynchronizing
    ((∀ m, (s.consume n).result = .error m ↔
        s.decodable.length < n ∧ m = .consumeBeyondFrame n s.decodable.length) ∧
      (∀ m, (s.consume n).result = .error m →
        (s.consume n).after = s ∧ (s.consume n).log = []) ∧
      (s.decodable.length < n →
        s.handle (.consume n) =
          { session := s
            reply := .refused (.consumeBeyondFrame n s.decodable.length)
            log := [] }) ∧
      (n ≤ s.decodable.length →
        let t := (s.consume n).after
        (s.consume n).result = .ok () ∧
        s.handle (.consume n) =
          { session := t, reply := .done, log := [.consumed n t.bytes.length] } ∧
        n ≤ s.bytes.length ∧ s.bytes = s.bytes.take n ++ t.bytes ∧
        t.decodable = s.decodable.drop n ∧
        t.bytes.drop t.framer.cursor = s.bytes.drop s.framer.cursor ∧
        t.framer = { s.framer with cursor := s.framer.cursor - n } ∧ t.owed = s.owed)) ∧
    ((∀ m, s.acknowledge.result = .error m ↔
        (start o).acknowledgements requests = declared ∧ m = .noContinuationOwed) ∧
      (∀ m, s.acknowledge.result = .error m →
        s.acknowledge.after = s ∧ s.acknowledge.log = []) ∧
      ((start o).acknowledgements requests = declared →
        s.handle .acknowledge =
          { session := s, reply := .refused .noContinuationOwed, log := [] }) ∧
      ((start o).acknowledgements requests ≠ declared →
        0 < s.owed ∧ s.acknowledge.result = .ok () ∧ s.handle .acknowledge =
          { session := { s with owed := s.owed - 1 }, reply := .done, log := [] })) ∧
    s.decodable.length = s.framer.cursor ∧
    ∀ f : Framer,
      (∀ m, (f.tryConsume n).result = .error m ↔
        f.cursor < n ∧ m = .consumeBeyondFrame n f.cursor) ∧
      (∀ m, (f.tryConsume n).result = .error m →
        (f.tryConsume n).after = f ∧ (f.tryConsume n).log = []) ∧
      (n ≤ f.cursor →
        f.tryConsume n = { result := .ok (), after := f.consume n, log := [] }) := by
  intro s declared
  have h : IsCanonical o (stream requests) ((start o).removals requests)
      ((start o).acknowledgements requests) s := isCanonical_after o requests
  have hframed := h.cursor_le_length
  have howed : s.owed = 0 ↔ (start o).acknowledgements requests = declared := h.owed_eq_zero_iff
  rw [h.length_decodable, ← howed]
  refine ⟨⟨fun m => consume_eq_error_iff, fun m => consume_unchanged, handle_consume_of_lt, ?_⟩,
    ⟨fun m => acknowledge_eq_error_iff, fun m => acknowledge_unchanged,
      handle_acknowledge_of_eq_zero, ?_⟩, rfl,
    fun f => ⟨fun m => Framer.tryConsume_eq_error_iff, fun m => Framer.tryConsume_unchanged,
      Framer.tryConsume_of_le⟩⟩
  · intro hn t
    have hconsume := consume_of_le hn
    have ht : t = { s with bytes := s.bytes.drop n, framer := s.framer.consume n } :=
      congrArg Attempt.after hconsume
    obtain ⟨hbytes, hdecodable, hrest⟩ := consume_splits_decodable hn
    refine ⟨?_, ?_, Nat.le_trans hn hframed, hbytes, hdecodable, hrest, ?_, ?_⟩
    · rw [hconsume]
    · rw [handle_consume_of_le hn, ht]
    · rw [ht, Framer.consume_of_le hn]
    · rw [ht]
  · intro hne
    have hpos := Nat.pos_of_ne_zero (mt howed.1 hne)
    refine ⟨hpos, ?_, handle_acknowledge_of_pos hpos⟩
    rw [acknowledge_of_pos hpos]

/-- A literal is partly received, and more was asked for than is framed, acknowledged twice, and
consumed within the payload. -/
theorem refuses_exactly_what_it_must_within_payload :
    let requests : List Request :=
      [.acknowledge, .feed [97, 10, 123, 52, 125, 10, 98, 99], .consume 9, .acknowledge,
        .acknowledge, .consume 3]
    let s := (start {}).after requests
    let f : Framer := { cursor := 5, pending := 2 }
    ((s.consume 6).result = .error (.consumeBeyondFrame 6 5) ∧ (s.consume 6).after = s) ∧
      s.handle (.consume (UInt64.size - 1)) =
        { session := s, reply := .refused (.consumeBeyondFrame (UInt64.size - 1) 5), log := [] } ∧
      (s.consume 4).after.decodable = [99] ∧ (s.consume 4).after.framer.pending = 2 ∧
      (s.acknowledge.result = .error .noContinuationOwed ∧ s.acknowledge.after = s) ∧
      (f.tryConsume 6).result = .error (.consumeBeyondFrame 6 5) ∧ (f.tryConsume 6).after = f := by
  intro requests s f
  have hlength : s.decodable.length = 5 := by decide +kernel
  have hdecodable : s.decodable = [52, 125, 10, 98, 99] := by decide +kernel
  have hpending : s.framer.pending = 2 := by decide +kernel
  obtain ⟨⟨hconsume, hkept, -⟩, ⟨hacknowledge, hkept', -⟩, -, hframer⟩ :=
    refuses_exactly_what_it_must {} requests 6
  obtain ⟨⟨-, -, hrefused, -⟩, -⟩ := refuses_exactly_what_it_must {} requests (UInt64.size - 1)
  obtain ⟨⟨-, -, -, hgranted⟩, -⟩ := refuses_exactly_what_it_must {} requests 4
  obtain ⟨-, -, -, -, hleft, -, hpayload, -⟩ := hgranted (by rw [hlength]; decide)
  rw [hlength] at hconsume hrefused
  obtain ⟨htry, hkept'', -⟩ := hframer f
  have hsix := (hconsume _).2 ⟨by decide, rfl⟩
  have hnone := (hacknowledge _).2 ⟨by decide +kernel, rfl⟩
  have hfive := (htry _).2 ⟨by decide, rfl⟩
  refine ⟨⟨hsix, (hkept _ hsix).1⟩, hrefused (by decide), ?_, ?_, ⟨hnone, (hkept' _ hnone).1⟩,
    hfive, (hkept'' _ hfive).1⟩
  · rw [hleft, hdecodable]
    rfl
  · rw [hpayload]
    exact hpending

end Session

end StreamFraming
