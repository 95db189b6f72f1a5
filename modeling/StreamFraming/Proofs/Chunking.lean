import StreamFraming.Proofs.Resume
import StreamFraming.Window

/-!
# How a stream is cut

A window receives its stream in chunks and is scanned after each of them. Every window that
its owner can come to have is in step (`Reachable.inStep`), and from there on the chunks
themselves do not matter: receiving them one by one leaves the window, the number of
synchronizing literals and the events of receiving them at once (`receiveAll_cons`,
`receiveAll_start`).
-/

namespace StreamFraming

/-- The number of synchronizing literals that some scans have reported. -/
def Scan.total : List Scan → Nat
  | [] => 0
  | s :: scans => s.progress.synchronizing + total scans

namespace Window

variable {o : Options} {w : Window}

/-- The framer of a window is in step with what the window holds. -/
def InStep (w : Window) : Prop := w.framer.InStep w.held

theorem InStep.receive (h : w.InStep) (chunk : Octets) : (w.receive chunk).1.InStep :=
  Framer.InStep.scan (h.append chunk)

theorem inStep_start (o : Options) : (start o).InStep := Framer.inStep_start o []

/-- Every window that its owner can come to have is in step. -/
theorem Reachable.inStep (h : Reachable o w) : w.InStep := by
  induction h with
  | start => exact inStep_start o
  | append received _ ih => exact Framer.InStep.append ih received
  | scan _ ih => exact Framer.InStep.scan ih
  | remove n _ ih => exact Framer.InStep.consume ih n
  | reset _ _ => exact Framer.inStep_start _ _

/-- Nothing that an owner does changes what ends a line. -/
theorem Reachable.options_eq (h : Reachable o w) : w.framer.options = o := by
  induction h with
  | start => rfl
  | append received _ ih => exact ih
  | scan h ih => exact (Framer.options_scan h.inStep.cursor_le).trans ih
  | remove n _ ih => exact ih
  | reset _ ih => exact ih

/-! ## Receiving in parts -/

/-- Receiving two chunks is receiving them at once. -/
theorem receive_append (h : w.InStep) (a b : Octets) :
    w.receive (a ++ b) =
      (((w.receive a).1.receive b).1, (w.receive a).2.andThen ((w.receive a).1.receive b).2) := by
  have happend := Framer.scan_append (Framer.InStep.append h a) b
  unfold receive append scan
  simp only [← List.append_assoc, happend]
  rfl

/-- A window that was scanned is not changed by a scan without new octets. -/
theorem receive_receive_nil (h : w.InStep) (a : Octets) :
    (w.receive a).1.receive [] =
      ((w.receive a).1,
        { framer := (w.receive a).1.framer, synchronizing := 0, log := [] }) := by
  have hscan := Framer.scan_scan (Framer.InStep.append h a)
  unfold receive append scan
  simp only [List.append_nil, hscan]

/-- A new window makes nothing of no octets. -/
theorem receive_start_nil (o : Options) :
    (start o).receive [] =
      (start o, { framer := Framer.start o, synchronizing := 0, log := [] }) := by
  unfold receive append scan start
  simp only [List.append_nil, Framer.scan_start_nil]

/-- Receiving chunks one by one comes to receiving them at once. -/
theorem receiveAll_cons (h : w.InStep) (chunk : Octets) (chunks : List Octets) :
    (w.receiveAll (chunk :: chunks)).1 = (w.receive (chunk ++ chunks.flatten)).1 ∧
      Scan.total (w.receiveAll (chunk :: chunks)).2 =
        (w.receive (chunk ++ chunks.flatten)).2.progress.synchronizing ∧
      (w.receiveAll (chunk :: chunks)).2.flatMap Scan.log =
        (w.receive (chunk ++ chunks.flatten)).2.log := by
  induction chunks generalizing w chunk with
  | nil => simp [receiveAll, Scan.total]
  | cons next chunks ih =>
    obtain ⟨hw, hn, hl⟩ := ih (h.receive chunk) next
    rw [List.flatten_cons, receive_append h]
    simp only [receiveAll] at hw hn hl ⊢
    refine ⟨hw, ?_, ?_⟩
    · rw [Scan.total, hn]
      rfl
    · rw [List.flatMap_cons, hl]
      rfl

/-- A stream that arrives in chunks comes to the stream that arrives at once. -/
theorem receiveAll_start (o : Options) (chunks : List Octets) :
    ((start o).receiveAll chunks).1 = ((start o).receive chunks.flatten).1 ∧
      Scan.total ((start o).receiveAll chunks).2 =
        ((start o).receive chunks.flatten).2.progress.synchronizing ∧
      ((start o).receiveAll chunks).2.flatMap Scan.log =
        ((start o).receive chunks.flatten).2.log := by
  cases chunks with
  | nil =>
    rw [List.flatten_nil, receive_start_nil]
    exact ⟨rfl, rfl, rfl⟩
  | cons chunk chunks => exact receiveAll_cons (inStep_start o) chunk chunks

/-! ## The scan of each chunk -/

/-- The framer after each scan is the framer of the window that has received so much. -/
theorem exists_getElem?_receiveAll (w : Window) {chunks : List Octets} {k : Nat}
    (hk : k < chunks.length) :
    ∃ s, (w.receiveAll chunks).2[k]? = some s ∧
      s.framer = (w.receiveAll (chunks.take (k + 1))).1.framer := by
  induction chunks generalizing w k with
  | nil => exact absurd hk (Nat.not_lt_zero k)
  | cons chunk chunks ih =>
    cases k with
    | zero => exact ⟨_, rfl, rfl⟩
    | succ k => exact ih (w.receive chunk).1 (Nat.lt_of_succ_lt_succ hk)

/-- The reports on the first chunks do not depend on the chunks that follow. -/
theorem receiveAll_take (w : Window) (chunks : List Octets) (n : Nat) :
    (w.receiveAll (chunks.take n)).2 = (w.receiveAll chunks).2.take n := by
  induction chunks generalizing w n with
  | nil => simp [receiveAll]
  | cons chunk chunks ih =>
    cases n with
    | zero => rfl
    | succ n =>
      show _ :: _ = _ :: _
      rw [ih]

/-! ## Independence of the cuts -/

/-- Where a stream is cut does not matter, from any window that its owner can come to have
and for any octets that it receives next. -/
theorem receive_independent_of_cuts (h : Reachable o w) (a b : Octets) :
    let whole := w.receive (a ++ b)
    let first := w.receive a
    let second := first.1.receive b
    let again := first.1.receive []
    (second.1 = whole.1 ∧ second.2.framer = whole.2.framer ∧
      second.2.progress.valid = whole.2.progress.valid ∧
      first.2.progress.synchronizing + second.2.progress.synchronizing =
        whole.2.progress.synchronizing ∧
      first.2.log ++ second.2.log = whole.2.log) ∧
    (∀ chunks : List Octets,
      (w.receiveAll (a :: chunks)).1 = (w.receive (a ++ chunks.flatten)).1 ∧
      Scan.total (w.receiveAll (a :: chunks)).2 =
        (w.receive (a ++ chunks.flatten)).2.progress.synchronizing) ∧
    (∀ chunks : List Octets,
      ((start o).receiveAll chunks).1 = ((start o).receive chunks.flatten).1 ∧
      Scan.total ((start o).receiveAll chunks).2 =
        ((start o).receive chunks.flatten).2.progress.synchronizing) ∧
    (again.1 = first.1 ∧ again.2.progress.synchronizing = 0 ∧
      again.2.progress.valid = first.2.progress.valid ∧ again.2.log = []) := by
  intro whole first second again
  have hw := h.inStep
  have happend : whole = (second.1, first.2.andThen second.2) := receive_append hw a b
  have hagain : again = (first.1, { framer := first.1.framer, synchronizing := 0, log := [] }) :=
    receive_receive_nil hw a
  refine ⟨?_, ?_, ?_, ?_⟩
  · rw [happend]
    exact ⟨rfl, rfl, rfl, rfl, rfl⟩
  · intro chunks
    obtain ⟨hstate, htotal, -⟩ := receiveAll_cons hw a chunks
    exact ⟨hstate, htotal⟩
  · intro chunks
    obtain ⟨hstate, htotal, -⟩ := receiveAll_start o chunks
    exact ⟨hstate, htotal⟩
  · rw [hagain]
    exact ⟨rfl, rfl, rfl, rfl⟩

/-- A cut inside the line end of `y {1}`, when some of a payload and the line that announced
it are removed. -/
theorem receive_independent_of_cut_in_line_end :
    let o : Options := { strictCrlf := true }
    let w := (((start o).append [97, 32, 123, 50, 125, 13, 10, 10]).scan.1).remove 8
    let a : Octets := [13, 121, 32, 123, 49, 125, 13]
    let b : Octets := [10, 122]
    Reachable o w ∧ ((w.receive a).1.receive b).1 = (w.receive (a ++ b)).1 ∧
      ((w.receive a).1.receive b).1.framer.cursor = 9 ∧
      (w.receive a).2.progress.synchronizing +
        ((w.receive a).1.receive b).2.progress.synchronizing = 1 := by
  intro o w a b
  have h : Reachable o w := .remove 8 (.scan (.append _ .start))
  obtain ⟨⟨hstate, -, -, htotal, -⟩, -⟩ := receive_independent_of_cuts h a b
  refine ⟨h, hstate, ?_, ?_⟩
  · rw [hstate]
    decide +kernel
  · rw [htotal]
    decide +kernel

end Window

end StreamFraming
