import StreamFraming.Proofs.Shift
import StreamFraming.Window

/-!
# Removing framed octets between scans

A receiver may remove framed octets from its buffer whenever it likes. A scan does not notice:
it finds what it would have found, as many positions earlier as octets were removed
(`Framer.scan_consume_drop`). This holds of every framer and every buffer that reaches as far
as the cursor, whether or not the one has scanned the other.

`Window.Act` is what the owner of a window does, one thing at a time, and `Window.Lacks` relates
a window to the one from which nothing was removed. Every act keeps the two together
(`Lacks.append`, `Lacks.scan`, `Lacks.remove`), and so do any acts in any order
(`Lacks.scans_eq`).
-/

namespace StreamFraming

namespace Framer

variable {f : Framer} {buffer : Octets} {n : Nat}

/-- What a scan finds after framed octets were removed. -/
theorem scan_consume_drop (hn : n ≤ f.cursor) (hc : f.cursor ≤ buffer.length) :
    let whole := f.scan buffer
    let rest := (f.consume n).scan (buffer.drop n)
    n ≤ whole.framer.cursor ∧
    rest.framer = { whole.framer with cursor := whole.framer.cursor - n } ∧
    rest.synchronizing = whole.synchronizing ∧
    whole.log = rest.log.map (Event.shift n) := by
  intro whole rest
  have hwhole : whole = rest.shift n := scan_eq_shift_scan_consume hn hc
  rw [hwhole]
  refine ⟨Nat.le_add_left n _, ?_, rfl, rfl⟩
  show rest.framer = { rest.framer with cursor := rest.framer.cursor + n - n }
  rw [Nat.add_sub_cancel]

end Framer

namespace Window

/-- What the owner of a window does. -/
inductive Act where
  /-- Appends octets to the buffer. -/
  | append (received : Octets)
  /-- Has the buffer scanned. -/
  | scan
  /-- Removes the first `n` octets of the buffer and has them consumed. -/
  | remove (n : Nat)
deriving DecidableEq

/-- Whether an act leaves the octets of the buffer there. -/
def Act.keeps : Act → Bool
  | .append _ => true
  | .scan => true
  | .remove _ => false

/-- Whether all octets that are removed are framed by then. -/
def InFrame (w : Window) : List Act → Prop
  | [] => True
  | .append received :: acts => (w.append received).InFrame acts
  | .scan :: acts => w.scan.1.InFrame acts
  | .remove n :: acts => n ≤ w.framer.cursor ∧ (w.remove n).InFrame acts

/-- The scans that are made, each with the number of octets removed before it. Of these
`removed` were removed to begin with. -/
def scans (w : Window) (removed : Nat) : List Act → List (Nat × Scan)
  | [] => []
  | .append received :: acts => (w.append received).scans removed acts
  | .scan :: acts => (removed, w.scan.2) :: w.scan.1.scans removed acts
  | .remove n :: acts => (w.remove n).scans (removed + n) acts

instance decidableInFrame (w : Window) : (acts : List Act) → Decidable (w.InFrame acts)
  | [] => .isTrue trivial
  | .append received :: acts => decidableInFrame (w.append received) acts
  | .scan :: acts => decidableInFrame w.scan.1 acts
  | .remove n :: acts =>
    have := decidableInFrame (w.remove n) acts
    inferInstanceAs (Decidable (n ≤ w.framer.cursor ∧ (w.remove n).InFrame acts))

/-- The window `v` is `w` without its first octets, which are `before`. -/
structure Lacks (before : Octets) (w v : Window) : Prop where
  held_eq : w.held = before ++ v.held
  framer_eq : w.framer = v.framer.shift before.length
  cursor_le : v.framer.cursor ≤ v.held.length

variable {before : Octets} {w v : Window} {n : Nat}

theorem Lacks.append (h : Lacks before w v) (received : Octets) :
    Lacks before (w.append received) (v.append received) := by
  refine ⟨?_, h.framer_eq, ?_⟩
  · show w.held ++ received = before ++ (v.held ++ received)
    rw [h.held_eq, List.append_assoc]
  · show v.framer.cursor ≤ (v.held ++ received).length
    have hcursor := h.cursor_le
    rw [List.length_append]
    omega

/-- A scan finds the same in both. -/
theorem Lacks.scan_eq (h : Lacks before w v) : w.scan.2 = v.scan.2.shift before.length := by
  show w.framer.scan w.held = _
  rw [h.framer_eq, h.held_eq]
  exact Framer.scan_shift before h.cursor_le

/-- After a scan the one window still lacks what it lacked. -/
theorem Lacks.scan (h : Lacks before w v) : Lacks before w.scan.1 v.scan.1 := by
  refine ⟨h.held_eq, ?_, Framer.cursor_scan_le h.cursor_le⟩
  exact congrArg Scan.framer h.scan_eq

/-- A removal inside the frame adds to what the window lacks. -/
theorem Lacks.remove (h : Lacks before w v) (hn : n ≤ v.framer.cursor) :
    Lacks (before ++ v.held.take n) w (v.remove n) := by
  have hcursor := h.cursor_le
  have hlen : (before ++ v.held.take n).length = n + before.length := by
    rw [List.length_append, List.length_take_of_le (by omega), Nat.add_comm]
  refine ⟨?_, ?_, ?_⟩
  · show w.held = before ++ v.held.take n ++ v.held.drop n
    rw [List.append_assoc, List.take_append_drop, h.held_eq]
  · show w.framer = (v.framer.consume n).shift _
    rw [h.framer_eq, hlen, Framer.shift_add, Framer.shift_consume hn]
  · show (v.framer.consume n).cursor ≤ (v.held.drop n).length
    rw [Framer.consume_of_le hn, List.length_drop]
    exact Nat.sub_le_sub_right hcursor n

/-- However acts follow each other, their scans are those of the same acts without removals, as
many positions earlier as octets were removed before. -/
theorem Lacks.scans_eq (h : Lacks before w v) {acts : List Act} (hin : v.InFrame acts)
    (removed : Nat) :
    w.scans removed (acts.filter Act.keeps) =
      (v.scans before.length acts).map fun s => (removed, s.2.shift s.1) := by
  induction acts generalizing before w v with
  | nil => rfl
  | cons act acts ih =>
    cases act with
    | append received => exact ih (h.append received) hin
    | scan =>
      show (removed, w.scan.2) :: _ = (removed, v.scan.2.shift before.length) :: _
      rw [h.scan_eq, ih h.scan hin]
    | remove n =>
      obtain ⟨hn, hin⟩ := hin
      have hrest := ih (h.remove hn) hin
      rw [List.length_append, List.length_take_of_le (Nat.le_trans hn h.cursor_le)] at hrest
      exact hrest

/-- Consuming framed octets commutes with scanning. Of any framer, wherever it stands, and any
buffer that reaches as far as its cursor, framed octets may be removed before the scan: the
consuming is granted, the scan finds the same that many positions earlier, and it leaves the
framer that it would have left, less what was removed. So whatever is appended, scanned and
removed from there on, the scans are those of an owner who removes nothing. -/
theorem scan_commutes_with_removal (f : Framer) (buffer : Octets)
    (hc : f.cursor ≤ buffer.length) :
    (∀ n ≤ f.cursor,
      let whole := f.scan buffer
      let rest := (f.consume n).scan (buffer.drop n)
      f.tryConsume n = { result := .ok (), after := f.consume n, log := [] } ∧
      n ≤ whole.progress.valid ∧
      rest.progress = { whole.progress with valid := whole.progress.valid - n } ∧
      rest.framer = { whole.framer with cursor := whole.framer.cursor - n } ∧
      whole.log = rest.log.map (Event.shift n)) ∧
    (∀ acts : List Act, InFrame ⟨f, buffer⟩ acts →
      scans ⟨f, buffer⟩ 0 (acts.filter Act.keeps) =
        (scans ⟨f, buffer⟩ 0 acts).map fun s => (0, s.2.shift s.1)) := by
  refine ⟨?_, ?_⟩
  · intro n hn whole rest
    obtain ⟨hvalid, hframer, hsynchronizing, hlog⟩ := Framer.scan_consume_drop hn hc
    refine ⟨Framer.tryConsume_of_le hn, hvalid, ?_, hframer, hlog⟩
    show Progress.mk rest.framer.cursor rest.synchronizing = _
    rw [hsynchronizing, hframer]
    rfl
  · intro acts hin
    have hsame : Lacks [] ⟨f, buffer⟩ ⟨f, buffer⟩ := ⟨rfl, rfl, hc⟩
    exact hsame.scans_eq hin 0

/-- The framer has not scanned the buffer: it waits for payload and yet has searched octets. A
line's end is cut and octets are removed between its parts, and later a payload is cut. -/
theorem scan_commutes_with_removal_of_line_end_and_payload :
    let f : Framer := { options := { strictCrlf := true }, cursor := 3, pending := 2, probed := 1 }
    let buffer : Octets := [97, 13, 10, 98, 99, 100, 13]
    let acts : List Act :=
      [.remove 2, .scan, .remove 3, .append [10, 123, 51, 125, 13], .scan, .append [10, 120],
        .scan, .remove 8, .append [13, 10], .scan]
    f.cursor ≤ buffer.length ∧ InFrame ⟨f, buffer⟩ acts ∧
      (scans ⟨f, buffer⟩ 0 acts).map (fun s => (s.1, s.2.progress.valid)) =
        [(2, 3), (5, 3), (5, 9), (13, 3)] ∧
      (scans ⟨f, buffer⟩ 0 (acts.filter Act.keeps)).map (fun s => s.2.progress.valid) =
        [5, 8, 14, 16] ∧
      ((f.consume 2).scan (buffer.drop 2)).framer.probed = (f.scan buffer).framer.probed := by
  intro f buffer acts
  have hc : f.cursor ≤ buffer.length := by decide
  have hin : InFrame ⟨f, buffer⟩ acts := by decide +kernel
  obtain ⟨hone, hall⟩ := scan_commutes_with_removal f buffer hc
  obtain ⟨-, -, -, hframer, -⟩ := hone 2 (by decide)
  refine ⟨hc, hin, ?_, ?_, ?_⟩
  · decide +kernel
  · rw [hall acts hin]
    decide +kernel
  · rw [hframer]

end Window

end StreamFraming
