import StreamFraming.Octet
import StreamFraming.Options

/-!
# Lines

Where the first line of some octets ends. A line ends at a line feed; the carriage return
right before the line feed, if the line has one there, belongs to the line's end and not to
its content. Under the strict option a line feed without that carriage return is content.

`search` goes from one line feed to the next. It may begin in the middle of the line, with
the octet before as its only memory, so that octets already searched are not searched again;
`find?` is the search of a line of which the first `probed` octets are known to hold no end.
`IsTerminator` says what an end is without searching.
-/

namespace StreamFraming.Line

/-- The measures of a line that has ended. -/
structure Extent where
  /-- The number of octets of its content. -/
  content : Nat
  /-- The number of octets with its end. -/
  length : Nat
deriving DecidableEq, Inhabited

/-- The extent of a line whose line feed is at position `lf`. -/
def Extent.endingAt (lf : Nat) (crlf : Bool) : Extent where
  content := if crlf then lf - 1 else lf
  length := lf + 1

/-- The octets before the first line feed and those after it. -/
def splitAtLf? (octets : Octets) : Option (Octets × Octets) :=
  match octets.dropWhile (· != Octet.lf) with
  | [] => none
  | _ :: after => some (octets.takeWhile (· != Octet.lf), after)

/-- The two parts are what stands before a line feed and behind it. -/
theorem splitAtLf?_eq_some {octets before after : Octets}
    (h : splitAtLf? octets = some (before, after)) : octets = before ++ Octet.lf :: after := by
  have whole := List.takeWhile_append_dropWhile (p := (· != Octet.lf)) (l := octets)
  rw [splitAtLf?] at h
  split at h
  · exact nomatch h
  · next b rest hd =>
    have hb := List.head_dropWhile_not (· != Octet.lf) (l := octets) (by simp [hd])
    simp only [hd, List.head_cons, bne_eq_false_iff_eq] at hb
    simp only [Option.some.injEq, Prod.mk.injEq] at h
    obtain ⟨rfl, rfl⟩ := h
    rw [hd, hb] at whole
    exact whole.symm

/-- Searches `octets`, which start `offset` octets into the line and follow `last`, for the
line's end. There is no octet before the first one of a line. -/
def search (o : Options) (offset : Nat) (last : Option UInt8) (octets : Octets) :
    Option Extent :=
  match h : splitAtLf? octets with
  | none => none
  | some (before, after) =>
    let lf := offset + before.length
    let crlf := before.getLast?.or last == some Octet.cr
    if crlf || !o.strictCrlf then some (.endingAt lf crlf)
    else search o (lf + 1) (some Octet.lf) after
termination_by octets.length
decreasing_by simp [splitAtLf?_eq_some h]; omega

/-- The octet right before position `i`, if there is one. -/
def octetBefore? (octets : Octets) : Nat → Option UInt8
  | 0 => none
  | i + 1 => octets[i]?

/-- The extent of the first line of `line`, whose first `probed` octets hold no end. -/
def find? (o : Options) (probed : Nat) (line : Octets) : Option Extent :=
  search o probed (octetBefore? line probed) (line.drop probed)

/-- The octet at position `i` ends the line that the octets begin: it is a line feed, and a
carriage return is right before it unless any line feed will do. -/
def IsTerminator (o : Options) (octets : Octets) (i : Nat) : Prop :=
  octets[i]? = some Octet.lf ∧ (o.strictCrlf = false ∨ octetBefore? octets i = some Octet.cr)

instance (o : Options) (octets : Octets) (i : Nat) : Decidable (IsTerminator o octets i) :=
  inferInstanceAs (Decidable (_ ∧ _))

/-! ## One octet at a time

A search may also be seen as going through the octets one by one: a line feed ends the line
if the octet before it lets it, and every other octet only becomes the octet before the next.
-/

@[simp] theorem splitAtLf?_nil : splitAtLf? [] = none := rfl

@[simp] theorem splitAtLf?_lf (octets : Octets) :
    splitAtLf? (Octet.lf :: octets) = some ([], octets) := by
  simp [splitAtLf?]

/-- An octet other than a line feed joins the first part. -/
theorem splitAtLf?_cons {b : UInt8} (hb : b ≠ Octet.lf) (octets : Octets) :
    splitAtLf? (b :: octets) = (splitAtLf? octets).map fun s => (b :: s.1, s.2) := by
  simp only [splitAtLf?, List.dropWhile_cons, List.takeWhile_cons, bne_iff_ne, ne_eq, hb,
    not_false_eq_true, if_true]
  split <;> rfl

/-- Without a line feed there is no terminator. -/
theorem search_eq_none {o : Options} {offset : Nat} {last : Option UInt8} {octets : Octets}
    (h : splitAtLf? octets = none) : search o offset last octets = none := by
  rw [search]
  split
  · rfl
  · next h' => rw [h] at h'; exact nomatch h'

/-- The search decides at each line feed by the octet before it, and goes on behind the line feed
where it is refused. -/
theorem search_eq_of_splitAtLf? {o : Options} {offset : Nat} {last : Option UInt8}
    {octets before after : Octets} (h : splitAtLf? octets = some (before, after)) :
    search o offset last octets =
      if before.getLast?.or last == some Octet.cr || !o.strictCrlf then
        some (.endingAt (offset + before.length) (before.getLast?.or last == some Octet.cr))
      else search o (offset + before.length + 1) (some Octet.lf) after := by
  rw [search]
  split
  · next h' => rw [h] at h'; exact nomatch h'
  · next h' =>
    rw [h] at h'
    simp only [Option.some.injEq, Prod.mk.injEq] at h'
    obtain ⟨rfl, rfl⟩ := h'
    rfl

@[simp] theorem search_nil (o : Options) (offset : Nat) (last : Option UInt8) :
    search o offset last [] = none := search_eq_none splitAtLf?_nil

theorem search_lf (o : Options) (offset : Nat) (last : Option UInt8) (octets : Octets) :
    search o offset last (Octet.lf :: octets) =
      if last == some Octet.cr || !o.strictCrlf then
        some (.endingAt offset (last == some Octet.cr))
      else search o (offset + 1) (some Octet.lf) octets := by
  rw [search_eq_of_splitAtLf? (splitAtLf?_lf octets)]
  rfl

/-- The search passes over any octet but a line feed, and keeps it as the last one seen. -/
theorem search_cons {b : UInt8} (hb : b ≠ Octet.lf) (o : Options) (offset : Nat)
    (last : Option UInt8) (octets : Octets) :
    search o offset last (b :: octets) = search o (offset + 1) (some b) octets := by
  cases hs : splitAtLf? octets with
  | none => rw [search_eq_none hs, search_eq_none (by rw [splitAtLf?_cons hb, hs]; rfl)]
  | some s =>
    have hl : (b :: s.1).getLast?.or last = s.1.getLast?.or (some b) := by
      cases s.1 <;> simp [List.getLast?_cons]
    have ho : offset + (b :: s.1).length = offset + 1 + s.1.length := by
      rw [List.length_cons]; omega
    rw [search_eq_of_splitAtLf? hs,
      search_eq_of_splitAtLf? (by rw [splitAtLf?_cons hb, hs]; rfl), hl, ho]

/-- A search that finds nothing can be taken up again where it stopped. -/
theorem search_append {o : Options} {offset : Nat} {last : Option UInt8} {octets : Octets}
    (h : search o offset last octets = none) (more : Octets) :
    search o offset last (octets ++ more) =
      search o (offset + octets.length) (octets.getLast?.or last) more := by
  induction octets generalizing offset last with
  | nil => rfl
  | cons b octets ih =>
    have hl : (b :: octets).getLast?.or last = octets.getLast?.or (some b) := by
      cases octets <;> simp [List.getLast?_cons]
    have ho : offset + (b :: octets).length = offset + 1 + octets.length := by
      rw [List.length_cons]; omega
    rw [List.cons_append, hl, ho]
    by_cases hb : b = Octet.lf
    · subst hb
      rw [search_lf] at h ⊢
      split at h
      · exact nomatch h
      · next hn => rw [if_neg hn, ih h]
    · rw [search_cons hb] at h ⊢
      exact ih h

/-- The octet before the probe is the last of the octets already probed. -/
theorem octetBefore?_eq_getLast? {line : Octets} {probed : Nat} (h : probed ≤ line.length) :
    octetBefore? line probed = (line.take probed).getLast? := by
  cases probed with
  | zero => rfl
  | succ i =>
    rw [List.getLast?_eq_getElem?, List.length_take, Nat.min_eq_left h]
    simp [octetBefore?]

/-- Octets that hold no end of the line need not be searched. -/
theorem find?_eq_search {o : Options} {probed : Nat} {line : Octets} (hp : probed ≤ line.length)
    (h : search o 0 none (line.take probed) = none) :
    find? o probed line = search o 0 none line := by
  have := search_append h (line.drop probed)
  rw [List.take_append_drop, List.length_take, Nat.min_eq_left hp, Nat.zero_add, Option.or_none,
    ← octetBefore?_eq_getLast? hp] at this
  exact this.symm

/-! ## Bounds -/

/-- A terminator that is found ends behind the offset and within the text. -/
theorem search_bounds {o : Options} {offset : Nat} {last : Option UInt8} {octets : Octets}
    {e : Extent} (h : search o offset last octets = some e) :
    offset < e.length ∧ e.length ≤ offset + octets.length := by
  fun_induction search o offset last octets with
  | case1 => exact nomatch h
  | case2 offset last octets before after hs =>
    simp only [Option.some.injEq] at h
    subst h
    rw [splitAtLf?_eq_some hs]
    simp [Extent.endingAt]
    omega
  | case3 offset last octets before after hs lf crlf hc ih =>
    have := ih h
    rw [splitAtLf?_eq_some hs]
    simp [lf] at this ⊢
    omega

/-- A line that is found is not empty and lies within the octets searched. -/
theorem find?_bounds {o : Options} {probed : Nat} {line : Octets} {e : Extent}
    (h : find? o probed line = some e) : 0 < e.length ∧ e.length ≤ line.length := by
  have := search_bounds h
  simp only [List.length_drop] at this
  omega

end StreamFraming.Line
