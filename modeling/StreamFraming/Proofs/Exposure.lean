import StreamFraming.Proofs.Account
import StreamFraming.Proofs.Encoding

/-!
# What is exposed is what is decided

A receiver may use the framed part of a stream before the rest arrives. `Framer.role?` says
what an octet of that part is, as the events of a scan tell: a part of an ordinary line, a part
of a line that declares a literal, or payload.

This can be relied on, since every framed octet has a role and keeps it whatever arrives
(`role?_append`), and payload that is still to come has its role already. And no more could be
exposed: an octet that is not framed belongs to a line without an end, and becomes a part of an
ordinary line or of a declaration as the rest of the line decides
(`scan_exposes_what_is_decided`).
-/

namespace StreamFraming

/-- What an octet of a stream may be. -/
inductive Role where
  /-- A part of an ordinary line. -/
  | line
  /-- A part of a line that declares a literal. -/
  | declaration
  /-- A part of a literal's payload. -/
  | payload
deriving DecidableEq

/-- The role of the octet at position `i`, by the first event that reaches beyond it. -/
def Event.role? (i : Nat) : List Event → Option Role
  | [] => none
  | .line _ stop _ :: log => if i < stop then some .line else role? i log
  | .declaration d stop :: log =>
    if i < stop then some .declaration
    else if i < stop + d.length.toNat then some .payload
    else role? i log
  | .payloadComplete _ :: log => role? i log
  | .consumed _ _ :: log => role? i log

/-- The role of the octet at position `i` of a stream, if the octet is framed. -/
def Framer.role? (o : Options) (stream : Octets) (i : Nat) : Option Role :=
  if i < ((start o).scan stream).framer.cursor then Event.role? i ((start o).scan stream).log
  else none

/-! ## Roles are kept -/

/-- The first events that give an octet a role decide which. -/
theorem Event.role?_append (i : Nat) (log more : List Event) :
    role? i (log ++ more) = (role? i log).or (role? i more) := by
  induction log with
  | nil => rfl
  | cons e log ih =>
    cases e with
    | line first stop text =>
      simp only [List.cons_append, role?, ih]
      split <;> rfl
    | declaration d stop =>
      simp only [List.cons_append, role?, ih]
      split
      · rfl
      · split <;> rfl
    | payloadComplete stop => exact ih
    | consumed count buffered => exact ih

/-- A line gives its octets the role that its content decides. -/
theorem Event.role?_ofLine (content : Octets) {start stop i : Nat} (hi : i < stop) :
    role? i [ofLine content start stop] =
      if (Declaration.parse? content).isSome then some .declaration else some .line := by
  unfold ofLine
  cases Declaration.parse? content with
  | some d => exact if_pos hi
  | none => exact if_pos hi

namespace Account

variable {o : Options} {stream : Octets} {start valid left i : Nat} {log : List Event}

/-- An account leaves out no octet of what is framed. -/
theorem exists_role? (h : Account o stream start log valid left) (hstart : start ≤ i)
    (hi : i < valid) : ∃ r, Event.role? i log = some r := by
  induction h with
  | unended => omega
  | @line content start stop valid left log hspans hd hrest ih =>
    by_cases hstop : i < stop
    · exact ⟨.line, if_pos hstop⟩
    · obtain ⟨r, hr⟩ := ih (Nat.le_of_not_lt hstop) hi
      exact ⟨r, (if_neg hstop).trans hr⟩
  | @empty content d start stop valid left log hspans hd hzero hrest ih =>
    by_cases hstop : i < stop
    · exact ⟨.declaration, if_pos hstop⟩
    · obtain ⟨r, hr⟩ := ih (Nat.le_of_not_lt hstop) hi
      refine ⟨r, ?_⟩
      rw [Event.role?, if_neg hstop, hzero, Nat.add_zero, if_neg hstop, hr]
  | @literal content d start stop valid left log hspans hd hpos hrest ih =>
    by_cases hstop : i < stop
    · exact ⟨.declaration, if_pos hstop⟩
    · by_cases hpayload : i < stop + d.length.toNat
      · refine ⟨.payload, ?_⟩
        rw [Event.role?, if_neg hstop, if_pos hpayload]
      · obtain ⟨r, hr⟩ := ih (Nat.le_of_not_lt hpayload) hi
        refine ⟨r, ?_⟩
        rw [Event.role?, if_neg hstop, if_neg hpayload, Event.role?, hr]
  | @unfinished content d start stop hspans hd hlt =>
    by_cases hstop : i < stop
    · exact ⟨.declaration, if_pos hstop⟩
    · refine ⟨.payload, ?_⟩
      rw [Event.role?, if_neg hstop, if_pos (Nat.lt_trans hi hlt)]

/-- Behind what is framed the octets that are still to come are payload, and no others have a
role yet. -/
theorem role?_of_valid_le (h : Account o stream start log valid left) (hi : valid ≤ i) :
    Event.role? i log = if i < valid + left then some .payload else none := by
  induction h with
  | @unended start hstart => exact (if_neg (Nat.not_lt_of_le hi)).symm
  | @line content start stop valid left log hspans hd hrest ih =>
    have hstop := hrest.le_valid
    rw [Event.role?, if_neg (by omega), ih hi]
  | @empty content d start stop valid left log hspans hd hzero hrest ih =>
    have hstop := hrest.le_valid
    rw [Event.role?, if_neg (by omega), if_neg (by omega), ih hi]
  | @literal content d start stop valid left log hspans hd hpos hrest ih =>
    have hstop := hrest.le_valid
    rw [Event.role?, if_neg (by omega), if_neg (by omega), Event.role?, ih hi]
  | @unfinished content d start stop hspans hd hlt =>
    have hstop := hspans.stop_le_length
    have hend : stream.length + (stop + d.length.toNat - stream.length) =
        stop + d.length.toNat := by omega
    rw [Event.role?, if_neg (by omega), hend, Event.role?]

end Account

namespace Framer

variable {o : Options} {stream : Octets}

/-- A scan of a longer stream has reported what a scan of the stream has. It takes nothing back
and has framed what is pending as far as it is there. -/
theorem exists_scan_start_append (o : Options) (stream more : Octets) :
    ∃ s : Scan, (start o).scan (stream ++ more) = ((start o).scan stream).andThen s ∧
      ((start o).scan stream).framer.cursor ≤ s.framer.cursor ∧
      min ((start o).scan stream).framer.lineStart (stream ++ more).length ≤ s.framer.cursor := by
  have hcursor := (inStep_scan_start o stream).cursor_le
  have hlen := (List.prefix_append stream more).length_le
  have hmin := min_lineStart_le_cursor_scan (Nat.le_trans hcursor hlen)
  refine ⟨_, scan_append (inStep_start o stream) more, ?_, hmin⟩
  unfold lineStart at hmin
  omega

/-- Every framed octet has a role. -/
theorem exists_role? {i : Nat} (hi : i < ((start o).scan stream).framer.cursor) :
    ∃ r, role? o stream i = some r := by
  obtain ⟨r, hr⟩ := (account_scan_start o stream).exists_role? (Nat.zero_le i) hi
  exact ⟨r, (if_pos hi).trans hr⟩

/-- A framed octet keeps its role, whatever arrives. -/
theorem role?_append {i : Nat} {r : Role} (h : role? o stream i = some r) (more : Octets) :
    role? o (stream ++ more) i = some r := by
  unfold role? at h ⊢
  split at h
  · next hi =>
    obtain ⟨s, hs, hcursor, -⟩ := exists_scan_start_append o stream more
    rw [hs]
    refine (if_pos (Nat.lt_of_lt_of_le hi hcursor)).trans ?_
    show Event.role? i (((start o).scan stream).log ++ s.log) = some r
    rw [Event.role?_append, h, Option.some_or]
  · contradiction

/-- What is pending is payload when it arrives. -/
theorem role?_append_eq_payload {i : Nat} (more : Octets) (hi : stream.length ≤ i)
    (hlt : i < stream.length + min ((start o).scan stream).framer.pending more.length) :
    role? o (stream ++ more) i = some .payload := by
  obtain ⟨s, hs, -, hmin⟩ := exists_scan_start_append o stream more
  have hpending : 0 < ((start o).scan stream).framer.pending := by omega
  have hend := (settled_scan_start o stream).cursor_eq hpending
  have hi' : i < s.framer.cursor := by
    rw [List.length_append] at hmin
    unfold lineStart at hmin
    omega
  have hrole := (account_scan_start o stream).role?_of_valid_le (i := i) (by omega)
  rw [if_pos (by omega)] at hrole
  unfold role?
  rw [hs]
  refine (if_pos hi').trans ?_
  show Event.role? i (((start o).scan stream).log ++ s.log) = some .payload
  rw [Event.role?_append, hrole, Option.some_or]

/-! ## What is not framed is open -/

/-- The unfinished line ends as soon as an end is written behind it. -/
theorem scan_start_append_crlf {x : Octets} (hp : ((start o).scan stream).framer.pending = 0)
    (hx : Octet.lf ∉ x)
    (hannounced :
      Line.announced (stream.drop ((start o).scan stream).framer.cursor ++ x) = 0) :
    let whole := (start o).scan stream
    let text := stream.drop whole.framer.cursor ++ x
    let line := x ++ Ending.crlf.octets
    (start o).scan (stream ++ line) =
      { framer := behind o (stream ++ line).length
        synchronizing := whole.synchronizing + Line.continuations text
        log := whole.log ++ [.ofLine text whole.framer.cursor (stream ++ line).length] } := by
  intro whole text line
  have hstep : whole.framer.InStep stream := inStep_scan_start o stream
  have hsettled : whole.framer.Settled stream := settled_scan_start o stream
  have hoptions : whole.framer.options = o := options_scan_start o stream
  have hunbroken : Segment.Unbroken whole.framer.options text := by
    apply Segment.Unbroken.append _ hx
    rw [Segment.unbroken_iff]
    exact hstep.not_isTerminator hsettled hp
  have hdrop : (stream ++ line).drop whole.framer.cursor = text ++ Ending.crlf.octets ++ [] := by
    rw [List.drop_append_of_le_length hstep.cursor_le, List.append_nil, List.append_assoc]
  have hstop : whole.framer.cursor + (text ++ Ending.crlf.octets).length =
      (stream ++ line).length := by
    have hle := hstep.cursor_le
    simp only [text, line, List.length_append, List.length_drop]
    omega
  have hpass : whole.framer.passLine text (text ++ Ending.crlf.octets).length =
      behind o (stream ++ line).length := by
    unfold passLine
    rw [lineStart_of_pending_eq_zero hp, hstop, hannounced, hoptions]
    rfl
  rw [scan_append (inStep_start o stream) line]
  show whole.andThen (whole.framer.scan (stream ++ line)) = _
  rw [(hstep.append line).scan_of_ending hp hdrop hunbroken trivial, hpass, scan_behind, hstop]
  simp [Scan.andThen, Scan.following]

/-- Such an end gives the octets of the unfinished line the role that its content decides. -/
theorem role?_append_crlf {x : Octets} (hp : ((start o).scan stream).framer.pending = 0)
    (hx : Octet.lf ∉ x)
    (hannounced :
      Line.announced (stream.drop ((start o).scan stream).framer.cursor ++ x) = 0)
    {i : Nat} (hi : ((start o).scan stream).framer.cursor ≤ i) (hlt : i < stream.length) :
    role? o (stream ++ (x ++ Ending.crlf.octets)) i =
      if (Declaration.parse? (stream.drop ((start o).scan stream).framer.cursor ++ x)).isSome
      then some .declaration else some .line := by
  have hscan := scan_start_append_crlf hp hx hannounced
  have hrole := (account_scan_start o stream).role?_of_valid_le hi
  rw [hp, Nat.add_zero, if_neg (Nat.not_lt_of_le hi)] at hrole
  have hlen : i < (stream ++ (x ++ Ending.crlf.octets)).length :=
    Nat.lt_of_lt_of_le hlt (List.prefix_append stream _).length_le
  unfold role?
  rw [hscan]
  refine (if_pos hlen).trans ?_
  rw [Event.role?_append, hrole, Option.none_or, Event.role?_ofLine _ hlen]

/-- If not all is framed, no payload is pending. -/
theorem pending_eq_zero_of_cursor_lt
    (h : ((start o).scan stream).framer.cursor < stream.length) :
    ((start o).scan stream).framer.pending = 0 := by
  rcases Nat.eq_zero_or_pos ((start o).scan stream).framer.pending with hp | hp
  · exact hp
  · have hend := (settled_scan_start o stream).cursor_eq hp
    omega

/-- An unfinished line may become an ordinary line: a blank before its end keeps it from
declaring a literal. -/
theorem exists_ordinary_line (hp : ((start o).scan stream).framer.pending = 0) :
    ∃ (more : Octets) (text : String),
      (start o).scan (stream ++ more) =
        { framer := behind o (stream ++ more).length
          synchronizing := ((start o).scan stream).synchronizing
          log := ((start o).scan stream).log ++
            [.line ((start o).scan stream).framer.cursor (stream ++ more).length text] } ∧
      ∀ i, ((start o).scan stream).framer.cursor ≤ i → i < stream.length →
        role? o (stream ++ more) i = some .line := by
  have hparse :
      Declaration.parse? (stream.drop ((start o).scan stream).framer.cursor ++ [32]) = none := by
    apply Declaration.parse?_eq_none_of_getLast?
    rw [List.getLast?_concat]
    decide
  have hannounced :
      Line.announced (stream.drop ((start o).scan stream).framer.cursor ++ [32]) = 0 := by
    rw [Line.announced, hparse]
  have hblank : Octet.lf ∉ ([32] : Octets) := by decide
  refine ⟨[32] ++ Ending.crlf.octets,
    Utf8.display (stream.drop ((start o).scan stream).framer.cursor ++ [32]), ?_, ?_⟩
  · rw [scan_start_append_crlf hp hblank hannounced, Line.continuations, Event.ofLine, hparse]
    rfl
  · intro i hi hlt
    rw [role?_append_crlf hp hblank hannounced hi hlt, hparse]
    rfl

/-- An unfinished line may become the declaration of a synchronizing literal. -/
theorem exists_declaring_line (hp : ((start o).scan stream).framer.pending = 0) :
    ∃ (more : Octets) (d : Declaration), d.kind = .synchronizing ∧
      (start o).scan (stream ++ more) =
        { framer := behind o (stream ++ more).length
          synchronizing := ((start o).scan stream).synchronizing + 1
          log := ((start o).scan stream).log ++ [.declaration d (stream ++ more).length] } ∧
      ∀ i, ((start o).scan stream).framer.cursor ≤ i → i < stream.length →
        role? o (stream ++ more) i = some .declaration := by
  -- a tilde of its own makes the literal binary, whatever the line ends in so far
  let d : Declaration := { length := 0, kind := .synchronizing, binary := true }
  have hparse :
      Declaration.parse? (stream.drop ((start o).scan stream).framer.cursor ++ d.write) =
        some d :=
    Declaration.parse?_append_write nofun
  have hannounced :
      Line.announced (stream.drop ((start o).scan stream).framer.cursor ++ d.write) = 0 := by
    rw [Line.announced, hparse]
    rfl
  have hwrite := Declaration.lf_not_mem_write d
  refine ⟨d.write ++ Ending.crlf.octets, d, rfl, ?_, ?_⟩
  · rw [scan_start_append_crlf hp hwrite hannounced, Line.continuations, Event.ofLine, hparse]
    rfl
  · intro i hi hlt
    rw [role?_append_crlf hp hwrite hannounced hi hlt, hparse]
    rfl

/-- A framer exposes what is decided, and nothing else is. Whatever arrives, framed octets stay
framed in the roles they have, what was counted and reported stays so, and pending octets are
payload when they arrive. Octets that are not framed belong to a line that has no end yet, and
there are two ways to go on: one makes it an ordinary line, with no literal more, and one makes
it the declaration of a synchronizing literal. -/
theorem scan_exposes_what_is_decided (o : Options) (stream : Octets) :
    let whole := (start o).scan stream
    let valid := whole.progress.valid
    let count := whole.progress.synchronizing
    (∀ more : Octets,
      let longer := (start o).scan (stream ++ more)
      valid ≤ longer.progress.valid ∧ count ≤ longer.progress.synchronizing ∧
      whole.log <+: longer.log ∧
      (∀ i < valid, ∃ r, role? o stream i = some r ∧ role? o (stream ++ more) i = some r) ∧
      (∀ i, stream.length ≤ i → i < stream.length + min whole.framer.pending more.length →
        role? o (stream ++ more) i = some .payload)) ∧
    (valid < stream.length →
      whole.framer.inLiteral = false ∧
      (∀ i, ¬Line.IsTerminator o (stream.drop valid) i) ∧
      ∃ (more₁ more₂ : Octets) (text : String) (d : Declaration),
        let ordinary := (start o).scan (stream ++ more₁)
        let declaring := (start o).scan (stream ++ more₂)
        ordinary.progress = { valid := (stream ++ more₁).length, synchronizing := count } ∧
        ordinary =
          { framer := behind o (stream ++ more₁).length
            synchronizing := count
            log := whole.log ++ [.line valid (stream ++ more₁).length text] } ∧
        d.kind = .synchronizing ∧
        declaring.progress =
          { valid := (stream ++ more₂).length, synchronizing := count + 1 } ∧
        declaring =
          { framer := behind o (stream ++ more₂).length
            synchronizing := count + 1
            log := whole.log ++ [.declaration d (stream ++ more₂).length] } ∧
        ∀ i, valid ≤ i → i < stream.length →
          role? o (stream ++ more₁) i = some .line ∧
            role? o (stream ++ more₂) i = some .declaration) := by
  intro whole valid count
  have hstep : whole.framer.InStep stream := inStep_scan_start o stream
  refine ⟨?_, ?_⟩
  · intro more longer
    obtain ⟨s, hs, hcursor, -⟩ := exists_scan_start_append o stream more
    have hlonger : longer = whole.andThen s := hs
    refine ⟨?_, ?_, ?_, ?_, ?_⟩
    · rw [hlonger]
      exact hcursor
    · rw [hlonger]
      exact Nat.le_add_right _ _
    · rw [hlonger]
      exact List.prefix_append _ _
    · intro i hi
      obtain ⟨r, hr⟩ := exists_role? hi
      exact ⟨r, hr, role?_append hr more⟩
    · intro i hi hlt
      exact role?_append_eq_payload more hi hlt
  · intro hlt
    have hp : whole.framer.pending = 0 := pending_eq_zero_of_cursor_lt hlt
    have hsettled : whole.framer.Settled stream := settled_scan_start o stream
    have hoptions : whole.framer.options = o := options_scan_start o stream
    obtain ⟨more₁, text, hline, hroles₁⟩ := exists_ordinary_line hp
    obtain ⟨more₂, d, hkind, hdeclaration, hroles₂⟩ := exists_declaring_line hp
    refine ⟨?_, ?_, more₁, more₂, text, d, congrArg Scan.progress hline, hline, hkind,
      congrArg Scan.progress hdeclaration, hdeclaration, ?_⟩
    · unfold inLiteral
      rw [hp]
      rfl
    · rw [← hoptions]
      exact hstep.not_isTerminator hsettled hp
    · intro i hi hi'
      exact ⟨hroles₁ i hi hi', hroles₂ i hi hi'⟩

/-- Under the strict option the line behind `a`, which holds a bare LF and ends in a carriage
return, is open, while `a` and its end are decided. -/
theorem scan_exposes_what_is_decided_of_unfinished_line :
    let o : Options := { strictCrlf := true }
    let stream : Octets := [97, 13, 10, 126, 123, 49, 50, 10, 13]
    ((start o).scan stream).progress.valid = 3 ∧
      (∀ more, role? o (stream ++ more) 2 = some .line) ∧
      ∃ more₁ more₂, role? o (stream ++ more₁) 8 = some .line ∧
        role? o (stream ++ more₂) 8 = some .declaration := by
  intro o stream
  have hvalid : ((start o).scan stream).progress.valid = 3 := by decide +kernel
  have hrole : role? o stream 2 = some .line := by decide +kernel
  obtain ⟨hkept, hopen⟩ := scan_exposes_what_is_decided o stream
  rw [hvalid] at hkept hopen
  obtain ⟨-, -, more₁, more₂, -, -, -, -, -, -, -, hroles⟩ := hopen (by decide)
  refine ⟨hvalid, ?_, more₁, more₂, hroles 8 (by decide) (by decide)⟩
  intro more
  obtain ⟨-, -, -, hroles', -⟩ := hkept more
  obtain ⟨r, hr, hr'⟩ := hroles' 2 (by decide)
  exact hr'.trans (hr.symm.trans hrole)

end Framer

end StreamFraming
