import StreamFraming.Bounded
import StreamFraming.Proofs.Machine.Scan

/-!
# How long a scan takes

A scan has two loops. Its turns go on from the cursor, and every turn that is followed by another
one moves the cursor (`Framer.exists_of_turn_eq_next`), whatever is pending: the length of a
payload has no part in it. The search for a line's end goes from one line feed to the next. So the
octets behind the cursor bound the turns and the line feeds among them the looks, and a loop that
may take that many rounds is not cut off (`Framer.scanWithin_eq_some`, `Line.searchWithin_eq_some`).

Nothing is asked of the framer or of the buffer. A buffer may even end before the cursor; then there
is one turn, which frames nothing (`Machine.scanFrom_of_length_le`).
-/

namespace StreamFraming

/-! ## Looks -/

namespace Line

variable {o : Options} {octets : Octets}

/-- A search takes one look for each line feed and a last one. -/
theorem searchWithin_eq_some {looks : Nat} (h : octets.count Octet.lf < looks) (offset : Nat)
    (last : Option UInt8) :
    searchWithin o looks offset last octets = some (search o offset last octets) := by
  induction looks generalizing offset last octets with
  | zero => exact absurd h (Nat.not_lt_zero _)
  | succ looks ih =>
    unfold searchWithin
    cases hs : splitAtLf? octets with
    | none => rw [search_eq_none hs]
    | some s =>
      obtain ⟨before, after⟩ := s
      have hcount : after.count Octet.lf < looks := by
        rw [splitAtLf?_eq_some hs, List.count_append, List.count_cons_self] at h
        omega
      rw [search_eq_of_splitAtLf? hs]
      dsimp only
      split
      · rfl
      · exact ih hcount _ _

/-- The octets that are searched already hold line feeds only to spare. -/
theorem searchWithin_eq_some_find? {line : Octets} {looks : Nat}
    (h : line.count Octet.lf < looks) (probed : Nat) :
    searchWithin o looks probed (octetBefore? line probed) (line.drop probed) =
      some (find? o probed line) := by
  apply searchWithin_eq_some
  exact Nat.lt_of_le_of_lt ((List.drop_sublist probed line).count_le _) h

end Line

/-! ## Turns -/

namespace Framer

variable {f g : Framer} {buffer rest : Octets}

/-- What a turn can come to. It moves the cursor over the first `k` octets of what is there; if
another turn follows, that is one at least, and the next turn has the others. -/
theorem turn_cases (f : Framer) (rest : Octets) :
    (∃ k g log, k ≤ rest.length ∧ g.cursor = f.cursor + k ∧ f.turn rest = .stop g log) ∨
      ∃ k g n log, 0 < k ∧ k ≤ rest.length ∧ g.cursor = f.cursor + k ∧
        f.turn rest = .next g (rest.drop k) n log := by
  by_cases hp : f.pending ≤ rest.length
  · have hturn := turn_of_le hp
    cases hs : Line.find? f.options f.probed (rest.drop f.pending) with
    | none =>
      rw [takeLine_of_find?_eq_none (f := f.atLine f.probed) hs] at hturn
      refine .inl ⟨f.pending, _, _, hp, ?_, hturn⟩
      rfl
    | some e =>
      obtain ⟨hpos, hlength⟩ := Line.find?_bounds hs
      rw [List.length_drop] at hlength
      rw [takeLine_of_find?_eq_some (f := f.atLine f.probed) rfl hs, List.drop_drop] at hturn
      refine .inr ⟨f.pending + e.length, _, _, _, by omega, by omega, ?_, hturn⟩
      exact Nat.add_assoc f.cursor f.pending e.length
  · refine .inl ⟨rest.length, _, _, Nat.le_refl _, ?_, turn_of_lt (Nat.lt_of_not_le hp)⟩
    rfl

/-- A turn that another one follows moves the cursor, and the next one begins there. -/
theorem exists_of_turn_eq_next {after : Octets} {n : Nat} {log : List Event}
    (h : f.turn rest = .next g after n log) :
    ∃ k, 0 < k ∧ k ≤ rest.length ∧ g.cursor = f.cursor + k ∧ after = rest.drop k := by
  rcases f.turn_cases rest with ⟨k, g, log, -, -, hturn⟩ | ⟨k, g, n, log, hpos, hle, hg, hturn⟩
  · rw [hturn] at h
    exact nomatch h
  · rw [hturn] at h
    injection h with hg' hafter
    exact ⟨k, hpos, hle, hg' ▸ hg, hafter.symm⟩

/-- A turn that is the last one leaves the cursor in what was there to frame. -/
theorem exists_of_turn_eq_stop {log : List Event} (h : f.turn rest = .stop g log) :
    ∃ k, k ≤ rest.length ∧ g.cursor = f.cursor + k := by
  rcases f.turn_cases rest with ⟨k, g, log, hle, hg, hturn⟩ | ⟨k, g, n, log, -, -, -, hturn⟩
  · rw [hturn] at h
    injection h with hg'
    exact ⟨k, hle, hg' ▸ hg⟩
  · rw [hturn] at h
    exact nomatch h

/-- A scan takes a turn for each octet at most and a last one. -/
theorem scanWithin_eq_some {turns : Nat} (h : rest.length < turns) (n : Nat) (log : List Event) :
    scanWithin turns f rest n log = some (f.scanFrom rest n log) := by
  induction turns generalizing f rest n log with
  | zero => exact absurd h (Nat.not_lt_zero _)
  | succ turns ih =>
    unfold scanWithin
    cases hturn : f.turn rest with
    | stop g new =>
      dsimp only
      rw [scanFrom_of_stop hturn, List.reverse_append, List.reverse_reverse]
    | next g after k new =>
      have hshorter := length_lt_of_turn hturn
      rw [scanFrom_of_next hturn]
      exact ih (by omega) _ _

/-- Where there is nothing to frame there is one turn, and it moves no cursor. -/
theorem exists_turn_nil (f : Framer) : ∃ g log, f.turn [] = .stop g log ∧ g.cursor = f.cursor := by
  cases hturn : f.turn [] with
  | next g after n log =>
    obtain ⟨k, hpos, hle, -⟩ := exists_of_turn_eq_next hturn
    exact absurd hle (Nat.not_le_of_lt hpos)
  | stop g log =>
    obtain ⟨k, hle, hcursor⟩ := exists_of_turn_eq_stop hturn
    obtain rfl := Nat.le_zero.1 hle
    exact ⟨g, log, rfl, hcursor⟩

/-- A scan does not move the cursor out of the buffer. -/
theorem cursor_scan_le_max (f : Framer) (buffer : Octets) :
    (f.scan buffer).framer.cursor ≤ max f.cursor buffer.length := by
  by_cases hc : f.cursor ≤ buffer.length
  · exact Nat.le_trans (cursor_scan_le hc) (Nat.le_max_right _ _)
  · have hrest : buffer.drop f.cursor = [] := List.drop_eq_nil_of_le (Nat.le_of_not_le hc)
    obtain ⟨g, log, hturn, hcursor⟩ := f.exists_turn_nil
    rw [scan, hrest, scanFrom_of_stop hturn]
    exact Nat.le_trans (Nat.le_of_eq hcursor) (Nat.le_max_left _ _)

end Framer

/-! ## The machine -/

namespace Machine

variable {f : Framer} {buffer : Octets}

/-- A buffer that ends at the cursor or before it has nothing to frame. -/
theorem turn_of_length_le (hc : buffer.length ≤ f.cursor)
    (hw : f.cursor + f.probed < Decimal.wordLimit) (n : Nat) :
    ∃ g, f.turn [] = .stop g [] ∧ turn f buffer n = .ok (.stop g []) := by
  have hrest : buffer.drop f.cursor = [] := List.drop_eq_nil_of_le hc
  have hnothing : buffer.length - f.cursor = 0 := Nat.sub_eq_zero_of_le hc
  by_cases hin : f.inLiteral = true
  · have hpending : 0 < f.pending := of_decide_eq_true hin
    have htaken : (if f.pending < Decimal.wordLimit then min f.pending (buffer.length - f.cursor)
        else buffer.length - f.cursor) = 0 := by
      split <;> omega
    have htake : takePayload f buffer = .ok f := by
      simp only [takePayload, htaken]
      rw [add_of_lt (by omega), ok_bind, word_of_lt (by decide), ok_bind,
        sub_of_le (Nat.zero_le _), ok_bind]
      rfl
    refine ⟨f, Framer.turn_of_lt hpending, ?_⟩
    unfold turn
    rw [if_pos hin, htake, ok_bind, if_pos hin]
  · have hpending : f.pending = 0 := by simpa [Framer.inLiteral] using hin
    have hnone : Line.find? f.options f.probed (buffer.drop f.cursor) = none := by
      rw [hrest, Line.find?, List.drop_nil]
      exact Line.search_nil ..
    have hle : f.pending ≤ ([] : Octets).length := Nat.le_of_eq hpending
    have hturn := Framer.turn_of_le hle
    rw [Framer.atLine_of_pending_eq_zero hpending, List.drop_nil, ← hrest,
      Framer.takeLine_of_find?_eq_none hnone, Framer.completion_of_pending_eq_zero hpending,
      hrest] at hturn
    refine ⟨_, hturn, ?_⟩
    unfold turn
    rw [if_neg hin, turnLine_of_find?_eq_none (by omega) hw hnone, hnothing]
    rfl

/-- A cursor at or beyond the end of the buffer leaves the checked scan nothing to do. -/
theorem scanFrom_of_length_le (hc : buffer.length ≤ f.cursor)
    (hw : f.cursor + f.probed < Decimal.wordLimit) :
    scanFrom f buffer 0 [] = .ok (f.scan buffer) := by
  obtain ⟨g, hturn, hmachine⟩ := turn_of_length_le hc hw 0
  rw [scanFrom_of_stop hmachine, Framer.scan, List.drop_eq_nil_of_le hc,
    Framer.scanFrom_of_stop hturn]
  rfl

end Machine

namespace Framer

/-- A scan comes to an end, and each of its turns to some effect. Of any framer and any buffer, one
that ends before the cursor included: a turn that another one follows moves the cursor, within the
buffer, and the next turn begins there, and so does a turn of the machine; the last turn does not
move it back or out of the buffer.
So a scan that may take a turn for each octet behind the cursor and one more is not cut off. The
search for the end of the line at the cursor goes on behind each line feed that is none; so a search
that may take a look for each line feed behind the cursor and one more is not cut off, wherever it
begins. Either comes to what it comes to without a limit, and so does the machine, as long as the
positions fit a word. -/
theorem scan_comes_to_an_end (f : Framer) (buffer : Octets) :
    (∀ g rest n log, f.turn (buffer.drop f.cursor) = .next g rest n log →
      f.cursor < g.cursor ∧ g.cursor ≤ buffer.length ∧ rest = buffer.drop g.cursor) ∧
    (∀ g log, f.turn (buffer.drop f.cursor) = .stop g log →
      f.cursor ≤ g.cursor ∧ g.cursor ≤ max f.cursor buffer.length) ∧
    (∀ g n m log, Machine.turn f buffer n = .ok (.next g m log) →
      f.cursor < g.cursor ∧ g.cursor ≤ buffer.length) ∧
    (f.scan buffer).framer.cursor ≤ max f.cursor buffer.length ∧
    (∀ turns, buffer.length - f.cursor < turns →
      scanWithin turns f (buffer.drop f.cursor) 0 [] = some (f.scan buffer)) ∧
    (∀ position next, Machine.look f.options buffer f.cursor position = .ok (.bare next) →
      position < next ∧ next ≤ buffer.length) ∧
    (∀ looks, (buffer.drop f.cursor).count Octet.lf < looks →
      let line := buffer.drop f.cursor
      Line.searchWithin f.options looks f.probed (Line.octetBefore? line f.probed)
          (line.drop f.probed) =
        some (Line.find? f.options f.probed line)) ∧
    (max f.cursor buffer.length + f.probed < Decimal.wordLimit →
      Machine.scanFrom f buffer 0 [] = .ok (f.scan buffer)) := by
  have hlength : (buffer.drop f.cursor).length = buffer.length - f.cursor := List.length_drop
  refine ⟨?_, ?_, fun g n m log => Machine.lt_cursor_of_turn, cursor_scan_le_max f buffer,
    ?_, fun position next => Machine.lt_of_look_eq_bare, ?_, ?_⟩
  · intro g rest n log hturn
    obtain ⟨k, hpos, hle, hcursor, rfl⟩ := exists_of_turn_eq_next hturn
    refine ⟨by omega, by omega, ?_⟩
    rw [List.drop_drop, hcursor]
  · intro g log hturn
    obtain ⟨k, hle, hcursor⟩ := exists_of_turn_eq_stop hturn
    omega
  · intro turns hturns
    rw [← hlength] at hturns
    exact scanWithin_eq_some hturns 0 []
  · intro looks hlooks
    exact Line.searchWithin_eq_some_find? hlooks f.probed
  · intro hw
    by_cases hc : f.cursor ≤ buffer.length
    · rw [Machine.scanFrom_eq hc (by omega) (Nat.zero_le _)]
      simp [Scan.following]
    · exact Machine.scanFrom_of_length_le (Nat.le_of_not_le hc) (by omega)

/-- The limits cannot be lower: every octet may be an empty line, and every one a bare line feed.
Literals without payload follow each other, and a buffer has shrunk below the cursor. -/
theorem scan_comes_to_an_end_no_sooner :
    let feeds : Octets := [10, 10, 10]
    let strict : Options := { strictCrlf := true }
    let empty : Octets := [123, 48, 125, 10, 123, 48, 43, 125, 10]
    let f : Framer := { cursor := 5, pending := 3, probed := 2 }
    (scanWithin 4 {} feeds 0 [] = some (({} : Framer).scan feeds) ∧
      scanWithin 3 {} feeds 0 [] = none) ∧
    (Line.searchWithin strict 4 0 none feeds = some (Line.find? strict 0 feeds) ∧
      Line.searchWithin strict 3 0 none feeds = none) ∧
    (({} : Framer).scan empty).framer.cursor = 9 ∧
    scanWithin 10 {} empty 0 [] = some (({} : Framer).scan empty) ∧
    Machine.scanFrom f [10] 0 [] = .ok { framer := f, synchronizing := 0, log := [] } := by
  intro feeds strict empty f
  obtain ⟨-, -, -, -, hturns, -, -, -⟩ := scan_comes_to_an_end {} feeds
  obtain ⟨-, -, -, -, -, -, hlooks, -⟩ := scan_comes_to_an_end { options := strict } feeds
  obtain ⟨-, -, -, -, hturns', -, -, -⟩ := scan_comes_to_an_end {} empty
  obtain ⟨-, -, -, -, -, -, -, hmachine⟩ := scan_comes_to_an_end f [10]
  have hscan : f.scan [10] = { framer := f, synchronizing := 0, log := [] } := by decide +kernel
  refine ⟨⟨hturns 4 (by decide), by decide +kernel⟩, ⟨hlooks 4 (by decide), by decide +kernel⟩,
    by decide +kernel, hturns' 10 (by decide), ?_⟩
  rw [hmachine (by decide), hscan]

end Framer

end StreamFraming
