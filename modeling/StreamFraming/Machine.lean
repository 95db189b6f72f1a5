import StreamFraming.Framer
import StreamFraming.Machine.Operation

/-!
# A scan on a machine

A scan as a machine makes it that has words of 64 bits and reads a buffer by positions. It goes
the way of `Framer.scan` and shares nothing with it but what a framer remembers and how events
are reported. Wherever a machine could fail it goes through an operation that says so, and a
scan has a result only if none of its operations has failed.

`Framer.Driven` are the framers that a machine can come to hold, whatever buffers they are given.
-/

namespace StreamFraming

namespace Machine

/-! ## Declarations -/

/-- The octets before `b`, if that is the last one. -/
def stripLast? (b : UInt8) (octets : Octets) : Option Octets :=
  if octets.getLast? = some b then some octets.dropLast else none

/-- The last position at which `b` stands. -/
def lastIdx? (b : UInt8) : Octets → Option Nat
  | [] => none
  | c :: octets =>
    match lastIdx? b octets with
    | some i => some (i + 1)
    | none => if c = b then some 0 else none

/-- Reads on from the number `n` that the digits before have denoted. There is no number if it
does not fit a word. -/
def readDigits (n : Nat) : Octets → Except Fault (Option Nat)
  | [] => .ok (some n)
  | b :: digits => do
    let d ← sub b.toNat 48
    if 10 * n + d < Decimal.wordLimit then readDigits (10 * n + d) digits else .ok none

/-- Reads the length that `body` ends in, with the opening brace before it. -/
def readLength? (kind : Kind) (body : Octets) : Except Fault (Option Declaration) :=
  match lastIdx? Octet.openBrace body with
  | none => .ok none
  | some brace => do
    let first ← add brace 1
    let digits ← slice body first body.length
    if digits = [] ∨ digits.all Octet.isDigit = false then .ok none
    else
      match ← readDigits 0 digits with
      | none => .ok none
      | some n => do
        let binary ← follows Octet.tilde body 0 brace
        .ok (some { length := UInt64.ofNat n, kind, binary })

/-- Reads the declaration that `body` ends in but for its closing brace. -/
def readKind? (body : Octets) : Except Fault (Option Declaration) :=
  match stripLast? Octet.plus body with
  | some before => readLength? .nonSynchronizing before
  | none => readLength? .synchronizing body

/-- The declaration that a line ends in. -/
def parse? (line : Octets) : Except Fault (Option Declaration) :=
  match stripLast? Octet.closeBrace line with
  | some body => readKind? body
  | none => .ok none

/-! ## Lines -/

/-- Where the content and the whole of a line end in the buffer. -/
structure Span where
  contentEnd : Nat
  lineEnd : Nat
deriving DecidableEq

/-- What a look for a line feed comes to. -/
inductive Look where
  /-- There is none. -/
  | nothing
  /-- There is one, and it ends the line. -/
  | ended (span : Span)
  /-- There is one that does not end the line, and `next` is the position behind it. -/
  | bare (next : Nat)

/-- Where the content of a line ends whose line feed is at `lf`. -/
def endOfContent (lf : Nat) (crlf : Bool) : Except Fault Nat :=
  if crlf then sub lf 1 else .ok lf

/-- Looks for the first line feed from `position` on, in the line that begins at `start`. -/
def look (o : Options) (buffer : Octets) (start position : Nat) : Except Fault Look :=
  match (buffer.drop position).findIdx? (· == Octet.lf) with
  | none => .ok .nothing
  | some offset => do
    let lf ← add position offset
    let crlf ← follows Octet.cr buffer start lf
    let behind ← add lf 1
    if crlf || !o.strictCrlf then do
      let contentEnd ← endOfContent lf crlf
      .ok (.ended { contentEnd, lineEnd := behind })
    else .ok (.bare behind)

/-- What a look finds is behind where it began, and in the buffer. -/
theorem exists_lf_of_look {o : Options} {buffer : Octets} {start position : Nat} {l : Look}
    (h : look o buffer start position = .ok l) :
    l = .nothing ∨ ∃ lf, position ≤ lf ∧ lf < buffer.length ∧
      (l = .bare (lf + 1) ∨ ∃ contentEnd, l = .ended { contentEnd, lineEnd := lf + 1 }) := by
  unfold look at h
  split at h
  · exact .inl (Except.ok.inj h).symm
  · next offset hfind =>
    obtain ⟨hlt, -⟩ := List.findIdx?_eq_some_iff_getElem.1 hfind
    rw [List.length_drop] at hlt
    obtain ⟨lf, hlf, h⟩ := exists_of_bind_eq_ok h
    obtain ⟨crlf, -, h⟩ := exists_of_bind_eq_ok h
    obtain ⟨behind, hbehind, h⟩ := exists_of_bind_eq_ok h
    have hlf := eq_of_add_eq_ok hlf
    have hbehind := eq_of_add_eq_ok hbehind
    refine .inr ⟨lf, by omega, by omega, ?_⟩
    rw [← hbehind]
    split at h
    · obtain ⟨contentEnd, -, h⟩ := exists_of_bind_eq_ok h
      exact .inr ⟨contentEnd, (Except.ok.inj h).symm⟩
    · exact .inl (Except.ok.inj h).symm

/-- A bare line feed moves the search forward and not beyond the buffer. -/
theorem lt_of_look_eq_bare {o : Options} {buffer : Octets} {start position next : Nat}
    (h : look o buffer start position = .ok (.bare next)) :
    position < next ∧ next ≤ buffer.length := by
  rcases exists_lf_of_look h with h | ⟨lf, hle, hlt, h | ⟨contentEnd, h⟩⟩
  · contradiction
  · injection h with h
    omega
  · contradiction

/-- Searches the buffer from `position` on for the end of the line that begins at `start`. -/
def search (o : Options) (buffer : Octets) (start position : Nat) : Except Fault (Option Span) :=
  match _ : look o buffer start position with
  | .error fault => .error fault
  | .ok .nothing => .ok none
  | .ok (.ended span) => .ok (some span)
  | .ok (.bare next) => search o buffer start next
termination_by buffer.length - position
decreasing_by
  have := lt_of_look_eq_bare ‹_›
  omega

/-- A line that is found ends behind where the search began, and in the buffer. -/
theorem lt_lineEnd_of_search {o : Options} {buffer : Octets} {start position : Nat} {span : Span}
    (h : search o buffer start position = .ok (some span)) :
    position < span.lineEnd ∧ span.lineEnd ≤ buffer.length := by
  fun_induction search o buffer start position with
  | case1 => exact nomatch h
  | case2 => exact nomatch h
  | case3 position ended hlook =>
    injection h with h
    injection h with h
    rcases exists_lf_of_look hlook with hl | ⟨lf, hle, hlt, hl | ⟨contentEnd, hl⟩⟩
    · contradiction
    · contradiction
    · injection hl with hl
      subst h hl
      dsimp only
      omega
  | case4 position next hlook ih =>
    have hnext := lt_of_look_eq_bare hlook
    have hspan := ih h
    omega

/-! ## Turns -/

/-- Frames as much of the pending payload as the buffer holds. -/
def takePayload (f : Framer) (buffer : Octets) : Except Fault Framer := do
  -- a difference that cannot fail: it stops at zero
  let available := buffer.length - f.cursor
  let taken := if f.pending < Decimal.wordLimit then min f.pending available else available
  let cursor ← add f.cursor taken
  let taken ← word taken
  let pending ← sub f.pending taken
  .ok { f with cursor, pending }

/-- Searches on for the end of the line at the cursor. -/
def nextLine (f : Framer) (buffer : Octets) : Except Fault (Framer × Option Span) := do
  let position ← add f.cursor f.probed
  match ← search f.options buffer f.cursor position with
  | some span => .ok ({ f with probed := 0 }, some span)
  | none => .ok ({ f with probed := buffer.length - f.cursor }, none)

/-- The number of synchronizing literals with one more that was declared. -/
def count (d : Declaration) (synchronizing : Nat) : Except Fault Nat :=
  if d.isSynchronizing then add synchronizing 1 else .ok synchronizing

/-- Frames a line that was found: the framer behind it, the number of synchronizing literals up
to there, and its report. -/
def takeLine (f : Framer) (buffer : Octets) (span : Span) (synchronizing : Nat) :
    Except Fault (Framer × Nat × Event) := do
  let content ← slice buffer f.cursor span.contentEnd
  match ← parse? content with
  | some d => do
    let synchronizing ← count d synchronizing
    .ok ({ f with cursor := span.lineEnd, pending := d.length.toNat }, synchronizing,
      .declaration d span.lineEnd)
  | none =>
    .ok ({ f with cursor := span.lineEnd }, synchronizing,
      .line f.cursor span.lineEnd (Utf8.display content))

/-- What one turn of a scan comes to. -/
inductive Turn where
  /-- Nothing more can be framed. -/
  | stop (f : Framer) (log : List Event)
  /-- A line is framed. -/
  | next (f : Framer) (synchronizing : Nat) (log : List Event)

/-- Frames the line at the cursor, after the events of `log`. -/
def turnLine (f : Framer) (buffer : Octets) (synchronizing : Nat) (log : List Event) :
    Except Fault Turn := do
  let (f, span?) ← nextLine f buffer
  match span? with
  | none => .ok (.stop f log)
  | some span => do
    let (f, synchronizing, event) ← takeLine f buffer span synchronizing
    .ok (.next f synchronizing (log ++ [event]))

/-- Frames the pending payload and then one line. -/
def turn (f : Framer) (buffer : Octets) (synchronizing : Nat) : Except Fault Turn :=
  if f.inLiteral then do
    let f ← takePayload f buffer
    if f.inLiteral then .ok (.stop f [])
    else turnLine f buffer synchronizing [.payloadComplete f.cursor]
  else turnLine f buffer synchronizing []

/-- Taking payload never moves the cursor back. -/
theorem cursor_le_of_takePayload {f g : Framer} {buffer : Octets}
    (h : takePayload f buffer = .ok g) : f.cursor ≤ g.cursor := by
  obtain ⟨cursor, hcursor, h⟩ := exists_of_bind_eq_ok h
  obtain ⟨taken, -, h⟩ := exists_of_bind_eq_ok h
  obtain ⟨pending, -, h⟩ := exists_of_bind_eq_ok h
  injection h with h
  subst h
  rw [eq_of_add_eq_ok hcursor]
  exact Nat.le_add_right _ _

theorem cursor_of_takeLine {f g : Framer} {buffer : Octets} {span : Span} {n m : Nat}
    {event : Event} (h : takeLine f buffer span n = .ok (g, m, event)) :
    g.cursor = span.lineEnd := by
  obtain ⟨content, -, h⟩ := exists_of_bind_eq_ok h
  obtain ⟨d?, -, h⟩ := exists_of_bind_eq_ok h
  cases d? with
  | none =>
    injection h with h
    injection h with h
    rw [← h]
  | some d =>
    obtain ⟨m', -, h⟩ := exists_of_bind_eq_ok h
    injection h with h
    injection h with h
    rw [← h]

/-- A turn that takes a line moves the cursor forward and not beyond the buffer. -/
theorem lt_cursor_of_turnLine {f g : Framer} {buffer : Octets} {n m : Nat} {log log' : List Event}
    (h : turnLine f buffer n log = .ok (.next g m log')) :
    f.cursor < g.cursor ∧ g.cursor ≤ buffer.length := by
  obtain ⟨⟨f', span?⟩, hnext, h⟩ := exists_of_bind_eq_ok h
  obtain ⟨position, hposition, hnext⟩ := exists_of_bind_eq_ok hnext
  obtain ⟨found, hsearch, hnext⟩ := exists_of_bind_eq_ok hnext
  have hposition := eq_of_add_eq_ok hposition
  cases found with
  | none =>
    injection hnext with hnext
    injection hnext with hf hspan
    subst hspan
    exact nomatch h
  | some span =>
    injection hnext with hnext
    injection hnext with hf hspan
    subst hspan
    obtain ⟨⟨g', m', event⟩, htake, h⟩ := exists_of_bind_eq_ok h
    injection h with h
    injection h with hg
    rw [← hg, cursor_of_takeLine htake]
    have hspan := lt_lineEnd_of_search hsearch
    omega

/-- Each turn that does not end the scan frames at least one octet. -/
theorem lt_cursor_of_turn {f g : Framer} {buffer : Octets} {n m : Nat} {log : List Event}
    (h : turn f buffer n = .ok (.next g m log)) :
    f.cursor < g.cursor ∧ g.cursor ≤ buffer.length := by
  unfold turn at h
  split at h
  · obtain ⟨f', htake, h⟩ := exists_of_bind_eq_ok h
    have hcursor := cursor_le_of_takePayload htake
    split at h
    · exact nomatch h
    · have hline := lt_cursor_of_turnLine h
      omega
  · exact lt_cursor_of_turnLine h

/-- Takes turns until nothing more can be framed. What the turns before have found comes
along. -/
def scanFrom (f : Framer) (buffer : Octets) (synchronizing : Nat) (log : List Event) :
    Except Fault Scan :=
  match _ : turn f buffer synchronizing with
  | .error fault => .error fault
  | .ok (.stop g new) => .ok { framer := g, synchronizing, log := log ++ new }
  | .ok (.next g synchronizing new) => scanFrom g buffer synchronizing (log ++ new)
termination_by buffer.length - f.cursor
decreasing_by
  have := lt_cursor_of_turn ‹_›
  omega

/-- Frames as much of the buffer as can be framed. -/
def scan (f : Framer) (buffer : Octets) : Except Fault Scan :=
  if f.cursor ≤ buffer.length then scanFrom f buffer 0 [] else .error .shrunk

/-- The number of octets that no buffer has. -/
def bufferLimit : Nat := Decimal.wordLimit / 2

end Machine

/-- The framers that a machine can come to hold. They may be given any buffers at all, related
or not, that reach as far as the cursor. -/
inductive Framer.Driven : Framer → Prop where
  | start (o : Options) : Driven (start o)
  | scan {f : Framer} (buffer : Octets) : Driven f → f.cursor ≤ buffer.length →
      buffer.length < Machine.bufferLimit → Driven (f.scan buffer).framer
  | consume {f : Framer} (n : Nat) : Driven f → Driven (f.consume n)
  | tryConsume {f : Framer} (n : Nat) : Driven f → Driven (f.tryConsume n).after
  | reset {f : Framer} : Driven f → Driven f.reset

end StreamFraming
