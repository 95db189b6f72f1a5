import StreamFraming.Proofs.Turn

/-!
# Taking a scan up again

A framer that has scanned a buffer and scans it again when more octets have arrived does what
one scan of the longer buffer does (`scan_append`). For this what the framer remembers must
be true of the buffer: `InStep` says so, and every scan keeps it (`InStep.scan`).

A scan that stopped has either used up the buffer within a payload or searched the unfinished
line to its end, so that taking it up again changes only what new octets change
(`scan_scan`).
-/

namespace StreamFraming

/-! ## One scan after another -/

/-- What two scans of a growing buffer come to. -/
def Scan.andThen (s t : Scan) : Scan := t.following s.synchronizing s.log

theorem Scan.following_andThen (s t : Scan) (n : Nat) (log : List Event) :
    (s.following n log).andThen t = (s.andThen t).following n log := by
  simp [andThen, following, Nat.add_assoc]

/-- The second of two scans is what the two come to without the first. -/
theorem Scan.andThen_left_cancel {s t u : Scan} (h : s.andThen t = s.andThen u) : t = u := by
  simp only [andThen, following, Scan.mk.injEq, Nat.add_left_cancel_iff,
    List.append_cancel_left_eq] at h
  obtain ⟨hf, hn, hl⟩ := h
  cases t
  cases u
  simp_all

namespace Framer

variable {f g : Framer} {buffer : Octets}

/-! ## Framers in step with their buffers -/

/-- What a framer remembers is true of the buffer: it reaches as far as the cursor, and the
octets that are searched hold no end of the line that starts there. Nothing is searched
while payload is still to come. -/
structure InStep (f : Framer) (buffer : Octets) : Prop where
  cursor_le : f.cursor ≤ buffer.length
  searched : Line.Searched f.options f.probed (buffer.drop f.cursor)
  probed_eq_zero : 0 < f.pending → f.probed = 0

theorem inStep_start (o : Options) (buffer : Octets) : (start o).InStep buffer :=
  ⟨Nat.zero_le _, Line.searched_zero _ _, fun _ => rfl⟩

/-- What is received keeps a framer in step. -/
theorem InStep.append (h : f.InStep buffer) (more : Octets) : f.InStep (buffer ++ more) := by
  refine ⟨?_, ?_, h.probed_eq_zero⟩
  · exact Nat.le_trans h.cursor_le (List.prefix_append buffer more).length_le
  · rw [List.drop_append_of_le_length h.cursor_le]
    exact h.searched.append more

/-- Consuming octets and removing them from the buffer keep the framer in step, also beyond
the cursor. -/
theorem InStep.consume (h : f.InStep buffer) (n : Nat) : (f.consume n).InStep (buffer.drop n) := by
  have hlen := h.cursor_le
  refine ⟨?_, ?_, ?_⟩
  · show f.cursor - n ≤ (buffer.drop n).length
    rw [List.length_drop]
    exact Nat.sub_le_sub_right hlen n
  · show Line.Searched f.options (f.probed - (n - f.cursor)) ((buffer.drop n).drop (f.cursor - n))
    -- what is left of the line has lost as many octets as the searched part of it
    have hdrop : (buffer.drop n).drop (f.cursor - n) =
        (buffer.drop f.cursor).drop (n - f.cursor) := by
      have hmax : n + (f.cursor - n) = f.cursor + (n - f.cursor) := by omega
      rw [List.drop_drop, List.drop_drop, hmax]
    rw [hdrop]
    exact h.searched.drop _
  · intro hp
    show f.probed - (n - f.cursor) = 0
    rw [h.probed_eq_zero hp, Nat.zero_sub]

theorem inStep_passLine {content : Octets} {n : Nat} (h : f.lineStart + n ≤ buffer.length) :
    (f.passLine content n).InStep buffer :=
  ⟨h, Line.searched_zero _ _, fun _ => rfl⟩

/-- What is searched belongs to the next line, also if payload is still to come before it. -/
theorem InStep.searched_line (h : f.InStep buffer) :
    Line.Searched f.options f.probed (buffer.drop f.lineStart) := by
  by_cases hp : 0 < f.pending
  · rw [h.probed_eq_zero hp]
    exact Line.searched_zero _ _
  · rw [lineStart_of_pending_eq_zero (Nat.eq_zero_of_not_pos hp)]
    exact h.searched

/-- A scan leaves the framer in step. -/
theorem InStep.scan (h : f.InStep buffer) : (f.scan buffer).framer.InStep buffer := by
  have hc := h.cursor_le
  induction f, hc using scan_induction with
  | payload f hc hl =>
    rw [scan_of_lt hc hl]
    have hpending : 0 < f.pending := by
      unfold lineStart at hl
      omega
    have hprobed := h.probed_eq_zero hpending
    refine ⟨Nat.le_refl _, ?_, fun _ => hprobed⟩
    show Line.Searched f.options f.probed _
    rw [hprobed]
    exact Line.searched_zero _ _
  | unended f hc hl hn =>
    rw [scan_of_find?_eq_none hl hn]
    refine ⟨hl, ?_, fun hp => absurd hp (Nat.lt_irrefl 0)⟩
    have hall := h.searched_line.of_find?_eq_none hn
    rw [List.length_drop] at hall
    exact hall
  | line f hc e hle hs ih =>
    rw [scan_of_find?_eq_some (Nat.le_of_add_right_le hle) hs, Scan.following_framer]
    exact ih (inStep_passLine hle)

/-! ## Where a scan stops -/

/-- A scan stops at the end of the buffer, within a payload or within an unfinished line, and
in the line all is searched. -/
structure Settled (f : Framer) (buffer : Octets) : Prop where
  cursor_eq : 0 < f.pending → f.cursor = buffer.length
  cursor_add_probed : f.pending = 0 → f.cursor + f.probed = buffer.length

/-- Every scan stops in one of these places. -/
theorem settled_scan (hc : f.cursor ≤ buffer.length) : (f.scan buffer).framer.Settled buffer := by
  induction f, hc using scan_induction with
  | payload f hc hl =>
    rw [scan_of_lt hc hl]
    refine ⟨fun _ => rfl, ?_⟩
    intro hp
    have hle := Nat.le_of_sub_eq_zero hp
    omega
  | unended f hc hl hn =>
    rw [scan_of_find?_eq_none hl hn]
    refine ⟨fun hp => absurd hp (Nat.lt_irrefl 0), ?_⟩
    intro _
    exact Nat.add_sub_of_le hl
  | line f hc e hle hs ih =>
    rw [scan_of_find?_eq_some (Nat.le_of_add_right_le hle) hs]
    exact ih

theorem options_scan (hc : f.cursor ≤ buffer.length) :
    (f.scan buffer).framer.options = f.options := by
  induction f, hc using scan_induction with
  | payload f hc hl => rw [scan_of_lt hc hl]
  | unended f hc hl hn =>
    rw [scan_of_find?_eq_none hl hn]
    rfl
  | line f hc e hle hs ih =>
    rw [scan_of_find?_eq_some (Nat.le_of_add_right_le hle) hs]
    exact ih

theorem inStep_scan_start (o : Options) (stream : Octets) :
    ((start o).scan stream).framer.InStep stream := (inStep_start o stream).scan

theorem settled_scan_start (o : Options) (stream : Octets) :
    ((start o).scan stream).framer.Settled stream := settled_scan (Nat.zero_le stream.length)

theorem options_scan_start (o : Options) (stream : Octets) :
    ((start o).scan stream).framer.options = o := options_scan (Nat.zero_le stream.length)

/-- No end of the unfinished line has arrived. -/
theorem InStep.not_isTerminator (h : f.InStep buffer) (hs : f.Settled buffer)
    (hp : f.pending = 0) (i : Nat) : ¬Line.IsTerminator f.options (buffer.drop f.cursor) i := by
  intro ht
  have hi := ht.lt_length
  have hprobed := hs.cursor_add_probed hp
  rw [List.length_drop] at hi
  exact h.searched.not_isTerminator i (by omega) ht

/-- A scan passes over what is pending, as far as it is there. -/
theorem min_lineStart_le_cursor_scan (hc : f.cursor ≤ buffer.length) :
    min f.lineStart buffer.length ≤ (f.scan buffer).framer.cursor := by
  induction f, hc using scan_induction with
  | payload f hc hl =>
    rw [scan_of_lt hc hl]
    exact Nat.min_le_right _ _
  | unended f hc hl hn =>
    rw [scan_of_find?_eq_none hl hn]
    exact Nat.min_le_left _ _
  | line f hc e hle hs ih =>
    rw [scan_of_find?_eq_some (Nat.le_of_add_right_le hle) hs]
    have hstop : f.lineStart ≤
        (f.passLine ((buffer.drop f.lineStart).take e.content) e.length).lineStart := by
      show f.lineStart ≤ f.lineStart + e.length + _
      omega
    exact Nat.le_trans (by omega) ih

/-! ## Scanning on -/

/-- A scan depends on the pending payload only through where it ends. -/
theorem scan_eq_of_lineStart_eq (hf : f.cursor ≤ buffer.length) (hg : g.cursor ≤ buffer.length)
    (ho : g.options = f.options) (hl : g.lineStart = f.lineStart) (hp : g.probed = f.probed)
    (hi : g.inLiteral = f.inLiteral) : g.scan buffer = f.scan buffer := by
  have hcompletion : g.completion = f.completion := by
    unfold completion
    rw [hi, hl]
  by_cases h : f.lineStart ≤ buffer.length
  · cases hs : Line.find? f.options f.probed (buffer.drop f.lineStart) with
    | none =>
      rw [scan_of_find?_eq_none h hs,
        scan_of_find?_eq_none (hl ▸ h) (by rw [ho, hp, hl]; exact hs), hcompletion]
      simp only [atLine, hl, ho]
    | some e =>
      rw [scan_of_find?_eq_some h hs,
        scan_of_find?_eq_some (hl ▸ h) (by rw [ho, hp, hl]; exact hs), hcompletion]
      simp only [passLine, hl, ho]
  · rw [scan_of_lt hf (by omega), scan_of_lt hg (by omega)]
    simp only [hl, ho, hp]

/-- A scan of a longer buffer is a scan of its first part that is taken up again. -/
theorem scan_append (h : f.InStep buffer) (more : Octets) :
    f.scan (buffer ++ more) =
      (f.scan buffer).andThen ((f.scan buffer).framer.scan (buffer ++ more)) := by
  have hc := h.cursor_le
  have hlen : buffer.length ≤ (buffer ++ more).length := (List.prefix_append buffer more).length_le
  induction f, hc using scan_induction with
  | payload f hc hl =>
    -- the payload goes on in the octets that arrive
    rw [scan_of_lt hc hl]
    simp only [Scan.andThen, Scan.following, Nat.zero_add, List.nil_append]
    symm
    refine scan_eq_of_lineStart_eq (Nat.le_trans hc hlen) hlen rfl ?_ rfl ?_
    · simp only [lineStart]
      unfold lineStart at hl
      omega
    · simp only [inLiteral, decide_eq_decide]
      unfold lineStart at hl ⊢
      omega
  | unended f hc hl hn =>
    -- the search goes on where it stopped
    have hdrop : (buffer ++ more).drop f.lineStart = buffer.drop f.lineStart ++ more :=
      List.drop_append_of_le_length hl
    have hall := (h.searched_line.of_find?_eq_none hn).append more
    have hfind := (h.searched_line.append more).find?_eq_search.trans hall.find?_eq_search.symm
    rw [List.length_drop, ← hdrop] at hfind
    rw [← hdrop] at hall
    rw [scan_of_find?_eq_none hl hn]
    have hl' := Nat.le_trans hl hlen
    cases hs : Line.find? f.options f.probed ((buffer ++ more).drop f.lineStart) with
    | none =>
      rw [scan_of_find?_eq_none hl' hs,
        scan_of_find?_eq_none (f := f.atLine _) hl' (hfind ▸ hs)]
      simp [Scan.andThen, Scan.following, atLine, lineStart, completion, inLiteral]
    | some e =>
      rw [scan_of_find?_eq_some hl' hs,
        scan_of_find?_eq_some (f := f.atLine _) hl' (hfind ▸ hs)]
      simp [Scan.andThen, Scan.following, atLine, passLine, lineStart, completion, inLiteral]
  | line f hc e hle hs ih =>
    -- the line stays as it is, and the rest is scanned on from behind it
    have hl := Nat.le_of_add_right_le hle
    have hdrop : (buffer ++ more).drop f.lineStart = buffer.drop f.lineStart ++ more :=
      List.drop_append_of_le_length hl
    have hs' := Line.find?_append h.searched_line.le_length hs more
    have hcontent : ((buffer ++ more).drop f.lineStart).take e.content =
        (buffer.drop f.lineStart).take e.content := by
      have := Line.search_content_lt hs
      rw [hdrop, List.take_append_of_le_length (by rw [List.length_drop]; omega)]
    rw [← hdrop] at hs'
    rw [scan_of_find?_eq_some hl hs, scan_of_find?_eq_some (Nat.le_trans hl hlen) hs', hcontent,
      Scan.following_andThen, Scan.following_framer, ← ih (inStep_passLine hle)]

/-- Scanning a buffer again finds nothing more. -/
theorem scan_scan (h : f.InStep buffer) :
    (f.scan buffer).framer.scan buffer =
      { framer := (f.scan buffer).framer, synchronizing := 0, log := [] } := by
  have hagain := scan_append h []
  rw [List.append_nil] at hagain
  apply Scan.andThen_left_cancel (s := f.scan buffer)
  rw [← hagain]
  simp [Scan.andThen, Scan.following]

end Framer

end StreamFraming
