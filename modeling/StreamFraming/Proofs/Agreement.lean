import StreamFraming.CrossCheck
import StreamFraming.Proofs.Canonical

/-!
# All ways of framing agree

A cross-check frames the same data at once, as it grows, and in a session that consumes on the
way. None of its checks ever fails. `InLockstep` says why: when a part of the data has arrived,
the framer of the growing part is the one that a single scan of that part leaves, and the
session is the canonical form of that part less what it has consumed. A chunk keeps this and
passes its checks (`InLockstep.step`), so all chunks do (`InLockstep.foldlM`), and the checks
at the end compare a scan of the whole with itself (`run_never_disagrees`).
-/

namespace StreamFraming.CrossCheck

open Session (IsCanonical)

variable {i : Input} {s : State} {taken : Octets}

/-- A cross-check when no chunk has arrived. -/
def State.start (i : Input) : State where
  framer := Framer.start i.options
  session := Session.start i.options
  log := ((Framer.start i.options).scan i.data).log.reverse

/-- What has arrived is `taken`, the framer of the growing part stands where one scan of it
stops, as many synchronizing literals were found as that scan finds, and the session is that
scan less what was consumed. No continuation was acknowledged. -/
structure InLockstep (i : Input) (taken : Octets) (s : State) : Prop where
  arrived_eq : s.arrived = taken.length
  framer_eq : s.framer = ((Framer.start i.options).scan taken).framer
  found_eq : s.found = ((Framer.start i.options).scan taken).progress.synchronizing
  isCanonical : IsCanonical i.options taken s.consumed 0 s.session

/-- Before the first chunk the implementations agree on nothing having arrived. -/
theorem inLockstep_start (i : Input) : InLockstep i [] (State.start i) := by
  refine ⟨rfl, ?_, ?_, Session.isCanonical_start i.options⟩
  · rw [Framer.scan_start_nil]
    rfl
  · rw [Framer.scan_start_nil]
    rfl

/-! ## One chunk after another -/

/-- The framer of the growing part scans on as a framer that scans it all at once. -/
theorem InLockstep.scan_append (h : InLockstep i taken s) (chunk : Octets) :
    (Framer.start i.options).scan (taken ++ chunk) =
      ((Framer.start i.options).scan taken).andThen (s.framer.scan (taken ++ chunk)) := by
  rw [h.framer_eq]
  exact Framer.scan_append (Framer.inStep_start i.options taken) chunk

/-- What has arrived can be taken from the data. -/
theorem slice_of_isPrefix {data part : Octets} (h : part <+: data) :
    Machine.slice data 0 part.length = .ok part := by
  rw [Machine.slice_of_le (Nat.zero_le _) h.length_le, List.drop_zero,
    ← List.prefix_iff_eq_take.1 h]

/-- A chunk passes its checks, and the three stay in lockstep. -/
theorem InLockstep.step (h : InLockstep i taken s) {chunk : Octets}
    (hdata : taken ++ chunk <+: i.data) :
    ∃ t, s.step i chunk = .ok t ∧ InLockstep i (taken ++ chunk) t := by
  have hscan := h.scan_append chunk
  have hfed := h.isCanonical.feed chunk
  have hcursor := hfed.cursor_add
  have hle := Session.cursor_scan_start_le i.options (taken ++ chunk)
  have hlen : s.arrived + chunk.length = (taken ++ chunk).length := by
    rw [h.arrived_eq, List.length_append]
  have hpart : Machine.slice i.data 0 (s.arrived + chunk.length) = .ok (taken ++ chunk) := by
    rw [hlen]
    exact slice_of_isPrefix hdata
  have hframer : (s.framer.scan (taken ++ chunk)).framer =
      ((Framer.start i.options).scan (taken ++ chunk)).framer := by
    rw [hscan]
    rfl
  have hfound : s.found + (s.framer.scan (taken ++ chunk)).progress.synchronizing =
      ((Framer.start i.options).scan (taken ++ chunk)).progress.synchronizing := by
    rw [hscan, h.found_eq]
    rfl
  -- the session has framed as much more as it had not consumed before
  have hvalid : s.consumed + (s.session.feed chunk).2.progress.valid =
      (s.framer.scan (taken ++ chunk)).progress.valid := by
    show s.consumed + (s.session.feed chunk).1.framer.cursor = (s.framer.scan _).framer.cursor
    rw [hframer]
    omega
  have hbound : ¬s.arrived + chunk.length < (s.framer.scan (taken ++ chunk)).progress.valid := by
    show ¬_ < (s.framer.scan _).framer.cursor
    rw [hframer, hlen]
    omega
  have hn : i.consumeAfter s.turns % ((s.session.feed chunk).2.progress.valid + 1) ≤
      (s.session.feed chunk).1.framer.cursor :=
    Nat.le_of_lt_succ (Nat.mod_lt _ (Nat.succ_pos _))
  simp only [State.step, hpart]
  rw [if_neg hbound, if_neg (not_not_intro hvalid), Session.consume_of_le hn]
  exact ⟨_, rfl, hlen, hframer, hfound, hfed.consume hn⟩

/-- Any chunks pass their checks, and the three stay in lockstep. -/
theorem InLockstep.foldlM (h : InLockstep i taken s) {chunks : List Octets}
    (hdata : taken ++ chunks.flatten <+: i.data) :
    ∃ t, chunks.foldlM (State.step i) s = .ok t ∧ InLockstep i (taken ++ chunks.flatten) t := by
  induction chunks generalizing taken s with
  | nil =>
    rw [List.flatten_nil, List.append_nil]
    exact ⟨s, rfl, h⟩
  | cons chunk chunks ih =>
    rw [List.flatten_cons, ← List.append_assoc] at hdata ⊢
    obtain ⟨t, ht, hstep⟩ := h.step ((List.prefix_append _ _).trans hdata)
    obtain ⟨u, hu, hrest⟩ := ih hstep hdata
    refine ⟨u, ?_, hrest⟩
    rw [List.foldlM_cons, ht]
    exact hu

theorem flatten_chunks (i : Input) : i.chunks.flatten = i.data :=
  Partition.flatten_chunks _ _

/-- As many chunks as one likes bring the three to where one scan of them stops. -/
theorem exists_inLockstep (i : Input) (k : Nat) :
    ∃ s, (i.chunks.take k).foldlM (State.step i) (State.start i) = .ok s ∧
      InLockstep i (i.chunks.take k).flatten s := by
  have hdata : (i.chunks.take k).flatten <+: i.data := by
    refine ⟨(i.chunks.drop k).flatten, ?_⟩
    rw [← List.flatten_append, List.take_append_drop, flatten_chunks]
  exact (inLockstep_start i).foldlM hdata

/-! ## The end of the data -/

/-- The last scan of the growing part finds nothing more. -/
theorem InLockstep.scan_data (h : InLockstep i i.data s) :
    s.framer.scan i.data = { framer := s.framer, synchronizing := 0, log := [] } := by
  rw [h.framer_eq]
  exact Framer.scan_scan (Framer.inStep_start i.options i.data)

/-- The numbers compared at the end come from two scans of the whole. -/
theorem InLockstep.numbers_agree (h : InLockstep i i.data s) :
    let whole := (Framer.start i.options).scan i.data
    let last := s.framer.scan i.data
    last.progress.valid = whole.progress.valid ∧
    s.found + last.progress.synchronizing = whole.progress.synchronizing ∧
    last.progress.synchronizing ≤ whole.progress.synchronizing ∧
    s.session.owed = whole.progress.synchronizing - last.progress.synchronizing := by
  intro whole last
  have hlast : last = { framer := s.framer, synchronizing := 0, log := [] } := h.scan_data
  rw [hlast]
  refine ⟨?_, h.found_eq, Nat.zero_le _, h.isCanonical.owed_add⟩
  show s.framer.cursor = whole.framer.cursor
  rw [h.framer_eq]

/-- In lockstep at the end of the data, the closing checks pass and give back the log. -/
theorem InLockstep.finish (h : InLockstep i i.data s) :
    s.finish i ((Framer.start i.options).scan i.data) = .ok s.log.reverse := by
  obtain ⟨hvalid, hfound, hle, howed⟩ := h.numbers_agree
  simp only [State.finish]
  rw [if_neg (not_not_intro hvalid), if_neg (not_not_intro hfound), if_neg (Nat.not_lt.2 hle),
    if_neg (not_not_intro howed), h.scan_data, List.append_nil]

/-- A cross-check never finds a disagreement, whatever the data, the chunks it arrives in and
what is consumed in between. After any number of chunks the three ways of framing are in
lockstep, and at the end each of the numbers compared is what it is compared with. -/
theorem run_never_disagrees (i : Input) :
    (∀ k, ∃ s, (i.chunks.take k).foldlM (State.step i) (State.start i) = .ok s ∧
      InLockstep i (i.chunks.take k).flatten s) ∧
    ∃ s, i.chunks.foldlM (State.step i) (State.start i) = .ok s ∧
      (let whole := (Framer.start i.options).scan i.data
       let last := s.framer.scan i.data
       whole.progress.valid ≤ i.data.length ∧ last.progress.valid = whole.progress.valid ∧
       s.found + last.progress.synchronizing = whole.progress.synchronizing ∧
       last.progress.synchronizing ≤ whole.progress.synchronizing ∧
       s.session.owed = whole.progress.synchronizing - last.progress.synchronizing) ∧
      run i = .ok s.log.reverse := by
  refine ⟨exists_inLockstep i, ?_⟩
  obtain ⟨s, hs, hlockstep⟩ := exists_inLockstep i i.chunks.length
  rw [List.take_length, flatten_chunks] at hlockstep
  rw [List.take_length] at hs
  have hwhole : ((Framer.start i.options).scan i.data).progress.valid ≤ i.data.length :=
    Session.cursor_scan_start_le i.options i.data
  refine ⟨s, hs, ⟨hwhole, hlockstep.numbers_agree⟩, ?_⟩
  unfold State.start at hs
  simp only [run]
  rw [if_neg (Nat.not_lt.2 hwhole), hs]
  exact hlockstep.finish

/-- What is consumed is used over again when it runs out. Nothing is framed of the first chunk, and
so nothing is consumed after it; after the others it is five octets of seven, and seven taken modulo
five. -/
theorem run_never_disagrees_when_consumption_is_cycled :
    let i : Input :=
      { options := {}, data := [97, 32, 123, 50, 125, 10, 98, 99, 10, 100], splits := [3, 4],
        consumes := [7, 5] }
    ∃ s, i.chunks.foldlM (State.step i) (State.start i) = .ok s ∧ s.session.owed = 1 ∧
      s.consumed = 7 ∧ s.session.bytes = [99, 10, 100] ∧ run i = .ok s.log.reverse ∧
      s.log.reverse.filter (fun e => e matches .consumed _ _) =
        [.consumed 0 3, .consumed 5 2, .consumed 2 3] := by
  intro i
  obtain ⟨-, s, hs, ⟨-, -, -, -, howed⟩, hrun⟩ := run_never_disagrees i
  have hstate : (i.chunks.foldlM (State.step i) (State.start i)).toOption.map (fun s =>
      (s.framer, s.consumed, s.session.bytes,
        s.log.reverse.filter (fun e => e matches .consumed _ _))) =
      some ({ cursor := 9, probed := 1 }, 7, [99, 10, 100],
        [.consumed 0 3, .consumed 5 2, .consumed 2 3]) := by
    decide +kernel
  rw [hs] at hstate
  simp only [Except.toOption, Option.map_some, Option.some.injEq, Prod.mk.injEq] at hstate
  obtain ⟨hframer, hconsumed, hbytes, hlog⟩ := hstate
  refine ⟨s, hs, ?_, hconsumed, hbytes, hrun, hlog⟩
  rw [howed, hframer]
  decide +kernel

end StreamFraming.CrossCheck
