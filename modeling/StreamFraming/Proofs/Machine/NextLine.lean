import StreamFraming.Proofs.Machine.Scan
import StreamFraming.Proofs.Resume

/-!
# The next line of a buffer

A turn of a scan searches the buffer for the end of the line at the cursor, from where the last
search of that line has stopped. `Framer.nextLine` is that search alone, with its result as
positions in the buffer: the machine makes the same one (`Machine.nextLine_eq_ok`), and what a turn
frames is the line that it finds (`Framer.takeLine_eq_next`).

`Framer.EndsLine` says which octets of a buffer end the line at the cursor, without searching, and
`Framer.ProbeHolds` what a framer must have remembered rightly for the search to find the first of
them.
-/

namespace StreamFraming

namespace Framer

variable {f g : Framer} {buffer : Octets}

/-- Whether a carriage return of the line at the cursor stands right before position `lf`. -/
def FollowsReturn (f : Framer) (buffer : Octets) (lf : Nat) : Prop :=
  f.cursor < lf ∧ buffer[lf - 1]? = some Octet.cr

instance (f : Framer) (buffer : Octets) (lf : Nat) : Decidable (f.FollowsReturn buffer lf) :=
  inferInstanceAs (Decidable (_ ∧ _))

/-- The octet at position `lf` of the buffer ends the line at the cursor: it is a line feed, and
a carriage return of the line is right before it unless any line feed will do. -/
def EndsLine (f : Framer) (buffer : Octets) (lf : Nat) : Prop :=
  f.cursor ≤ lf ∧ buffer[lf]? = some Octet.lf ∧
    (f.options.strictCrlf = false ∨ f.FollowsReturn buffer lf)

instance (f : Framer) (buffer : Octets) (lf : Nat) : Decidable (f.EndsLine buffer lf) :=
  inferInstanceAs (Decidable (_ ∧ _))

/-- The buffer reaches as far as what is searched, and nothing there ends the line at the
cursor. -/
structure ProbeHolds (f : Framer) (buffer : Octets) : Prop where
  le_length : f.cursor + f.probed ≤ buffer.length
  not_endsLine : ∀ lf < f.cursor + f.probed, ¬f.EndsLine buffer lf

instance (f : Framer) (buffer : Octets) : Decidable (f.ProbeHolds buffer) :=
  decidable_of_iff
    (f.cursor + f.probed ≤ buffer.length ∧ ∀ lf < f.cursor + f.probed, ¬f.EndsLine buffer lf)
    ⟨fun h => ⟨h.1, h.2⟩, fun h => ⟨h.le_length, h.not_endsLine⟩⟩

/-- Searches on for the end of the line at the cursor. -/
def nextLine (f : Framer) (buffer : Octets) : Framer × Option Machine.Span :=
  match Line.find? f.options f.probed (buffer.drop f.cursor) with
  | some e => ({ f with probed := 0 }, some (.ofExtent f.cursor e))
  | none => ({ f with probed := buffer.length - f.cursor }, none)

/-! ## Positions in the buffer and in the line -/

/-- The octet before a position of the buffer is the one before it in the line. -/
theorem followsReturn_iff {i : Nat} :
    f.FollowsReturn buffer (f.cursor + i) ↔
      Line.octetBefore? (buffer.drop f.cursor) i = some Octet.cr := by
  cases i with
  | zero => exact ⟨fun h => absurd h.1 (Nat.lt_irrefl _), nofun⟩
  | succ i =>
    have hlt : f.cursor < f.cursor + (i + 1) := Nat.lt_add_of_pos_right (Nat.succ_pos i)
    have hbefore : f.cursor + (i + 1) - 1 = f.cursor + i := rfl
    rw [FollowsReturn, hbefore, Line.octetBefore?, List.getElem?_drop]
    exact and_iff_right hlt

/-- A position of the buffer ends the line exactly when the line has its terminator there. -/
theorem endsLine_iff {i : Nat} :
    f.EndsLine buffer (f.cursor + i) ↔
      Line.IsTerminator f.options (buffer.drop f.cursor) i := by
  unfold EndsLine Line.IsTerminator
  rw [followsReturn_iff, List.getElem?_drop]
  exact and_iff_right (Nat.le_add_right _ _)

/-- Whatever ends the line at the cursor stands at some distance behind the cursor. -/
theorem EndsLine.exists_isTerminator {lf : Nat} (h : f.EndsLine buffer lf) :
    ∃ i, lf = f.cursor + i ∧ Line.IsTerminator f.options (buffer.drop f.cursor) i := by
  obtain ⟨i, rfl⟩ := Nat.exists_eq_add_of_le h.1
  exact ⟨i, rfl, endsLine_iff.1 h⟩

/-- A probe that holds has no terminator before it. -/
theorem ProbeHolds.searched (h : f.ProbeHolds buffer) :
    Line.Searched f.options f.probed (buffer.drop f.cursor) := by
  have hlength := h.le_length
  refine ⟨?_, ?_⟩
  · rw [List.length_drop]
    omega
  · intro i hi ht
    exact h.not_endsLine (f.cursor + i) (Nat.add_lt_add_left hi _) (endsLine_iff.2 ht)

theorem probeHolds_of_searched (hc : f.cursor ≤ buffer.length)
    (h : Line.Searched f.options f.probed (buffer.drop f.cursor)) : f.ProbeHolds buffer := by
  have hlength := h.le_length
  rw [List.length_drop] at hlength
  refine ⟨by omega, ?_⟩
  intro lf hlt hends
  obtain ⟨i, rfl, ht⟩ := hends.exists_isTerminator
  exact h.not_isTerminator i (Nat.lt_of_add_lt_add_left hlt) ht

/-- A probe that holds goes on to hold whatever is received. -/
theorem ProbeHolds.append (h : f.ProbeHolds buffer) (more : Octets) :
    f.ProbeHolds (buffer ++ more) := by
  have hc : f.cursor ≤ buffer.length := Nat.le_of_add_right_le h.le_length
  apply probeHolds_of_searched
  · exact Nat.le_trans hc (List.prefix_append buffer more).length_le
  · rw [List.drop_append_of_le_length hc]
    exact h.searched.append more

/-! ## What the search finds -/

theorem nextLine_of_find?_eq_none
    (h : Line.find? f.options f.probed (buffer.drop f.cursor) = none) :
    f.nextLine buffer = ({ f with probed := buffer.length - f.cursor }, none) := by
  simp only [nextLine, h]

theorem nextLine_of_find?_eq_some {e : Line.Extent}
    (h : Line.find? f.options f.probed (buffer.drop f.cursor) = some e) :
    f.nextLine buffer = ({ f with probed := 0 }, some (.ofExtent f.cursor e)) := by
  simp only [nextLine, h]

theorem find?_of_nextLine_eq_none (h : f.nextLine buffer = (g, none)) :
    Line.find? f.options f.probed (buffer.drop f.cursor) = none ∧
      g = { f with probed := buffer.length - f.cursor } := by
  cases hs : Line.find? f.options f.probed (buffer.drop f.cursor) with
  | none =>
    rw [nextLine_of_find?_eq_none hs] at h
    exact ⟨rfl, (Prod.mk.inj h).1.symm⟩
  | some e =>
    rw [nextLine_of_find?_eq_some hs] at h
    exact nomatch (Prod.mk.inj h).2

theorem find?_of_nextLine_eq_some {span : Machine.Span} (h : f.nextLine buffer = (g, some span)) :
    ∃ e, Line.find? f.options f.probed (buffer.drop f.cursor) = some e ∧
      span = .ofExtent f.cursor e ∧ g = { f with probed := 0 } := by
  cases hs : Line.find? f.options f.probed (buffer.drop f.cursor) with
  | none =>
    rw [nextLine_of_find?_eq_none hs] at h
    exact nomatch (Prod.mk.inj h).2
  | some e =>
    rw [nextLine_of_find?_eq_some hs] at h
    obtain ⟨hg, hspan⟩ := Prod.mk.inj h
    exact ⟨e, rfl, (Option.some.inj hspan).symm, hg.symm⟩

/-- The span of the line at `start` whose line feed is `lf` octets further on. -/
theorem ofExtent_endingAt (start lf : Nat) (crlf : Bool) (h : crlf = true → 0 < lf) :
    Machine.Span.ofExtent start (.endingAt lf crlf) =
      { contentEnd := if crlf then start + lf - 1 else start + lf, lineEnd := start + lf + 1 } := by
  cases crlf with
  | false => rfl
  | true =>
    have hsub : start + (lf - 1) = start + lf - 1 := (Nat.add_sub_assoc (h rfl) start).symm
    show Machine.Span.mk (start + (lf - 1)) _ = _
    rw [hsub]
    rfl

/-- A search that finds nothing has left nothing to find. -/
theorem ProbeHolds.not_endsLine_of_eq_none (h : f.ProbeHolds buffer)
    (hn : Line.find? f.options f.probed (buffer.drop f.cursor) = none) (lf : Nat) :
    ¬f.EndsLine buffer lf := by
  intro hends
  obtain ⟨i, rfl, ht⟩ := hends.exists_isTerminator
  rw [h.searched.find?_eq_search, Line.search_eq_none_iff] at hn
  exact hn i ht

/-- A search that finds an end finds the first one. -/
theorem ProbeHolds.exists_endsLine_of_eq_some (h : f.ProbeHolds buffer) {e : Line.Extent}
    (hs : Line.find? f.options f.probed (buffer.drop f.cursor) = some e) :
    ∃ lf, f.EndsLine buffer lf ∧ (∀ i < lf, ¬f.EndsLine buffer i) ∧
      Machine.Span.ofExtent f.cursor e =
        { contentEnd := if f.FollowsReturn buffer lf then lf - 1 else lf, lineEnd := lf + 1 } := by
  rw [h.searched.find?_eq_search] at hs
  obtain ⟨i, hi, hfirst, rfl⟩ := Line.search_eq_some hs
  refine ⟨f.cursor + i, endsLine_iff.2 hi, ?_, ?_⟩
  · intro lf hlt hends
    obtain ⟨j, rfl, hj⟩ := hends.exists_isTerminator
    exact hfirst j (Nat.lt_of_add_lt_add_left hlt) hj
  · have hpos : (Line.octetBefore? (buffer.drop f.cursor) i == some Octet.cr) = true → 0 < i := by
      intro hcr
      apply Nat.pos_of_ne_zero
      rintro rfl
      contradiction
    rw [ofExtent_endingAt _ _ _ hpos]
    simp only [beq_iff_eq, ← followsReturn_iff]

/-- A line that is found lies in the buffer. -/
theorem span_bounds {e : Line.Extent} (hc : f.cursor ≤ buffer.length)
    (hs : Line.find? f.options f.probed (buffer.drop f.cursor) = some e) :
    let span := Machine.Span.ofExtent f.cursor e
    f.cursor ≤ span.contentEnd ∧ span.contentEnd < span.lineEnd ∧
      span.lineEnd ≤ buffer.length := by
  have hlength := (Line.find?_bounds hs).2
  rw [List.length_drop] at hlength
  refine ⟨Nat.le_add_right _ _, Nat.add_lt_add_left (Line.search_content_lt hs) _, ?_⟩
  show f.cursor + e.length ≤ buffer.length
  omega

/-- If no line is found none is framed. -/
theorem takeLine_eq_stop (h : f.nextLine buffer = (g, none)) (log : List Event) :
    f.takeLine (buffer.drop f.cursor) log = .stop g log := by
  obtain ⟨hs, rfl⟩ := find?_of_nextLine_eq_none h
  rw [takeLine_of_find?_eq_none hs, List.length_drop]

/-- The line that is found is framed. -/
theorem takeLine_eq_next {span : Machine.Span} (hf : f.pending = 0)
    (h : f.nextLine buffer = (g, some span)) (log : List Event) :
    let content := (buffer.take span.contentEnd).drop f.cursor
    f.takeLine (buffer.drop f.cursor) log =
      .next { g with cursor := span.lineEnd, pending := Line.announced content }
        (buffer.drop span.lineEnd) (Line.continuations content)
        (log ++ [.ofLine content f.cursor span.lineEnd]) := by
  intro content
  obtain ⟨e, hs, rfl, rfl⟩ := find?_of_nextLine_eq_some h
  have hcontent : (buffer.drop f.cursor).take e.content = content := by
    show _ = (buffer.take (f.cursor + e.content)).drop f.cursor
    rw [List.drop_take, Nat.add_sub_cancel_left]
  rw [takeLine_of_find?_eq_some hf hs, hcontent, List.drop_drop, passLine,
    lineStart_of_pending_eq_zero hf]
  rfl

end Framer

/-- The machine makes the same search. -/
theorem Machine.nextLine_eq_ok {f : Framer} {buffer : Octets}
    (hw : buffer.length < Decimal.wordLimit) (hp : f.cursor + f.probed < Decimal.wordLimit) :
    nextLine f buffer = .ok (f.nextLine buffer) := nextLine_eq hw hp

namespace Framer

/-- The search finds the first end of the line at the cursor. It may begin in the middle of the
line, if what it leaves out holds no end. Then it finds a line exactly if an octet from the cursor
on ends it; that octet is the first one, the content stops before it or before its carriage return,
the line is in the buffer and the search begins anew behind it. If it finds none, all of the line
is searched, and that stays so whatever arrives. The machine finds the same, and the line that is
found is the one that a scan frames. -/
theorem nextLine_finds_first_end {f : Framer} {buffer : Octets} (h : f.ProbeHolds buffer) :
    ((f.nextLine buffer).2.isSome ↔ ∃ lf, f.EndsLine buffer lf) ∧
    (∀ g span, f.nextLine buffer = (g, some span) →
      (∃ lf, f.EndsLine buffer lf ∧ (∀ i < lf, ¬f.EndsLine buffer i) ∧
        span.lineEnd = lf + 1 ∧
        span.contentEnd = if f.FollowsReturn buffer lf then lf - 1 else lf) ∧
      f.cursor ≤ span.contentEnd ∧ span.contentEnd < span.lineEnd ∧
      span.lineEnd ≤ buffer.length ∧ g = { f with probed := 0 } ∧
      ∀ log, f.pending = 0 →
        let content := (buffer.take span.contentEnd).drop f.cursor
        f.takeLine (buffer.drop f.cursor) log =
          .next { g with cursor := span.lineEnd, pending := Line.announced content }
            (buffer.drop span.lineEnd) (Line.continuations content)
            (log ++ [.ofLine content f.cursor span.lineEnd])) ∧
    (∀ g, f.nextLine buffer = (g, none) →
      g = { f with probed := buffer.length - f.cursor } ∧
      (∀ more, g.ProbeHolds (buffer ++ more)) ∧
      ∀ log, f.takeLine (buffer.drop f.cursor) log = .stop g log) ∧
    (buffer.length < Decimal.wordLimit → Machine.nextLine f buffer = .ok (f.nextLine buffer)) := by
  have hlength := h.le_length
  have hc : f.cursor ≤ buffer.length := Nat.le_of_add_right_le hlength
  refine ⟨?_, ?_, ?_, fun hw => Machine.nextLine_eq_ok hw (by omega)⟩
  · cases hs : Line.find? f.options f.probed (buffer.drop f.cursor) with
    | none =>
      rw [nextLine_of_find?_eq_none hs]
      have hnone := h.not_endsLine_of_eq_none hs
      exact ⟨nofun, fun ⟨lf, hends⟩ => absurd hends (hnone lf)⟩
    | some e =>
      rw [nextLine_of_find?_eq_some hs]
      obtain ⟨lf, hends, -⟩ := h.exists_endsLine_of_eq_some hs
      exact ⟨fun _ => ⟨lf, hends⟩, fun _ => rfl⟩
  · intro g span hnext
    obtain ⟨e, hs, rfl, hg⟩ := find?_of_nextLine_eq_some hnext
    obtain ⟨lf, hends, hfirst, hspan⟩ := h.exists_endsLine_of_eq_some hs
    obtain ⟨hstart, hcontent, hstop⟩ := span_bounds hc hs
    refine ⟨⟨lf, hends, hfirst, ?_, ?_⟩, hstart, hcontent, hstop, hg, ?_⟩
    · rw [hspan]
    · rw [hspan]
    · intro log hf
      exact takeLine_eq_next hf hnext log
  · intro g hnext
    obtain ⟨hs, hg⟩ := find?_of_nextLine_eq_none hnext
    refine ⟨hg, ?_, takeLine_eq_stop hnext⟩
    intro more
    have hsearched := h.searched.of_find?_eq_none hs
    rw [List.length_drop] at hsearched
    rw [hg]
    exact (probeHolds_of_searched (f := { f with probed := buffer.length - f.cursor }) hc
      hsearched).append more

/-- Under the strict option a search begins behind a bare line feed, which follows the return of a
payload, and goes on over another one to an end that is cut. Without the option the line feed at
the cursor ends an empty line. -/
theorem nextLine_finds_first_end_behind_bare_line_feeds :
    let f : Framer := { options := { strictCrlf := true }, cursor := 1, probed := 2 }
    let buffer : Octets := [13, 10, 97, 10, 13]
    let g : Framer := { f with probed := 4 }
    f.ProbeHolds buffer ∧ f.nextLine buffer = (g, none) ∧ g.ProbeHolds (buffer ++ [10]) ∧
      Machine.nextLine f (buffer ++ [10]) =
        .ok ({ f with probed := 0 }, some { contentEnd := 4, lineEnd := 6 }) ∧
      ∃ lf, ({ cursor := 1 } : Framer).EndsLine buffer lf := by
  intro f buffer g
  have hprobe : f.ProbeHolds buffer := by decide
  have hnone : f.nextLine buffer = (g, none) := by decide +kernel
  have hsome : f.nextLine (buffer ++ [10]) =
      ({ f with probed := 0 }, some { contentEnd := 4, lineEnd := 6 }) := by decide +kernel
  obtain ⟨-, -, hsearched, -⟩ := nextLine_finds_first_end hprobe
  obtain ⟨-, hstays, -⟩ := hsearched g hnone
  obtain ⟨-, -, -, hmachine⟩ := nextLine_finds_first_end (hprobe.append [10])
  have hlenient : ({ cursor := 1 } : Framer).ProbeHolds buffer := by decide
  obtain ⟨hfound, -⟩ := nextLine_finds_first_end hlenient
  refine ⟨hprobe, hnone, hstays [10], ?_, hfound.1 (by decide +kernel)⟩
  rw [hmachine (by decide), hsome]

end Framer

end StreamFraming
