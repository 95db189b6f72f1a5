import StreamFraming.Line

/-!
# Line ends and searches

`IsTerminator` says where a line ends and `search` looks for it. This file connects the two:

* what comes after an octet, or is cut off before it, has no part in whether it ends the line
  (`isTerminator_append_iff`, `IsTerminator.of_drop`);
* a search fails exactly on octets without an end (`search_eq_none_iff`), and one that
  succeeds is not changed by octets that arrive later (`find?_append`);
* a search may also be seen as going from one line feed to the next
  (`find?_of_findIdx?_eq_some`);
* `Searched` says that the octets a framer has searched hold no end of its line. Searching on
  from there is searching the whole line (`Searched.find?_eq_search`).
-/

namespace StreamFraming.Line

variable {o : Options} {line : Octets}

/-! ## Line ends -/

theorem IsTerminator.lt_length {i : Nat} (h : IsTerminator o line i) : i < line.length :=
  (List.getElem?_eq_some_iff.1 h.1).1

theorem octetBefore?_append {i : Nat} (h : i ≤ line.length) (more : Octets) :
    octetBefore? (line ++ more) i = octetBefore? line i := by
  cases i with
  | zero => rfl
  | succ i => exact List.getElem?_append_left h

theorem octetBefore?_append_length (before after : Octets) :
    octetBefore? (before ++ after) before.length = before.getLast? := by
  rw [octetBefore?_append (Nat.le_refl _), octetBefore?_eq_getLast? (Nat.le_refl _),
    List.take_length]

/-- Whether an octet ends a line is decided when it arrives. -/
theorem isTerminator_append_iff {i : Nat} (h : i < line.length) (more : Octets) :
    IsTerminator o (line ++ more) i ↔ IsTerminator o line i := by
  unfold IsTerminator
  rw [List.getElem?_append_left h, octetBefore?_append (Nat.le_of_lt h)]

/-- A line that starts later has no end that the longer line does not have. -/
theorem IsTerminator.of_drop {n i : Nat} (h : IsTerminator o (line.drop n) i) :
    IsTerminator o line (n + i) := by
  obtain ⟨hlf, hcr⟩ := h
  rw [List.getElem?_drop] at hlf
  refine ⟨hlf, ?_⟩
  apply hcr.imp_right
  intro hcr
  cases i with
  | zero => exact nomatch hcr
  | succ i =>
    have hbefore : octetBefore? line (n + (i + 1)) = (line.drop n)[i]? := List.getElem?_drop.symm
    rw [hbefore]
    exact hcr

/-- The octet after `before` ends the line if it is a line feed that may. -/
theorem isTerminator_length_iff (before : Octets) (b : UInt8) (after : Octets) :
    IsTerminator o (before ++ b :: after) before.length ↔
      b = Octet.lf ∧ (before.getLast? == some Octet.cr || !o.strictCrlf) = true := by
  unfold IsTerminator
  rw [octetBefore?_append_length]
  simp [or_comm]

/-! ## Searching -/

/-- A search that is on its way finds nothing exactly where nothing ahead is a terminator. -/
theorem search_eq_none_iff_from (before octets : Octets) :
    search o before.length before.getLast? octets = none ↔
      ∀ i, before.length ≤ i → ¬IsTerminator o (before ++ octets) i := by
  induction octets generalizing before with
  | nil =>
    constructor
    · intro _ i hi h
      have hlt := h.lt_length
      rw [List.append_nil] at hlt
      omega
    · intro _
      exact search_nil ..
  | cons b octets ih =>
    have hfirst := isTerminator_length_iff (o := o) before b octets
    have hrest := ih (before ++ [b])
    rw [List.append_assoc, List.singleton_append, List.length_append, List.length_singleton,
      List.getLast?_concat] at hrest
    -- the first octet either ends the line or leaves the search to the others
    have hsplit : (∀ i, before.length ≤ i → ¬IsTerminator o (before ++ b :: octets) i) ↔
        ¬IsTerminator o (before ++ b :: octets) before.length ∧
          ∀ i, before.length + 1 ≤ i → ¬IsTerminator o (before ++ b :: octets) i := by
      constructor
      · intro h
        exact ⟨h _ (Nat.le_refl _), fun i hi => h i (Nat.le_of_succ_le hi)⟩
      · intro h i hi
        rcases Nat.eq_or_lt_of_le hi with rfl | hi
        · exact h.1
        · exact h.2 i hi
    rw [hsplit, ← hrest, hfirst]
    by_cases hb : b = Octet.lf
    · subst hb
      rw [search_lf]
      split
      · next hc => simp [hc]
      · next hc => simp [hc]
    · rw [search_cons hb]
      simp [hb]

/-- A search fails exactly if no octet ends the line. -/
theorem search_eq_none_iff (line : Octets) :
    search o 0 none line = none ↔ ∀ i, ¬IsTerminator o line i := by
  have := search_eq_none_iff_from (o := o) [] line
  simpa using this

/-- A search that is on its way finds the first terminator ahead. -/
theorem search_eq_some_from (before : Octets) {octets : Octets} {e : Extent}
    (h : search o before.length before.getLast? octets = some e) :
    ∃ i, IsTerminator o (before ++ octets) i ∧
      (∀ j, before.length ≤ j → j < i → ¬IsTerminator o (before ++ octets) j) ∧
      e = .endingAt i (octetBefore? (before ++ octets) i == some Octet.cr) := by
  induction octets generalizing before with
  | nil =>
    rw [search_nil] at h
    contradiction
  | cons b octets ih =>
    have hfirst := isTerminator_length_iff (o := o) before b octets
    have hrest := ih (before ++ [b])
    rw [List.append_assoc, List.singleton_append, List.length_append, List.length_singleton,
      List.getLast?_concat] at hrest
    -- an end behind the first octet is the first one if that octet is none
    have hlater (hb : ¬IsTerminator o (before ++ b :: octets) before.length)
        (hs : search o (before.length + 1) (some b) octets = some e) :
        ∃ i, IsTerminator o (before ++ b :: octets) i ∧
          (∀ j, before.length ≤ j → j < i → ¬IsTerminator o (before ++ b :: octets) j) ∧
          e = .endingAt i (octetBefore? (before ++ b :: octets) i == some Octet.cr) := by
      obtain ⟨i, hi, hnone, he⟩ := hrest hs
      refine ⟨i, hi, ?_, he⟩
      intro j hj hlt
      rcases Nat.eq_or_lt_of_le hj with rfl | hj
      · exact hb
      · exact hnone j hj hlt
    by_cases hb : b = Octet.lf
    · subst hb
      rw [search_lf] at h
      split at h
      · next hc =>
        refine ⟨before.length, hfirst.2 ⟨rfl, hc⟩, ?_, ?_⟩
        · intro j hj hlt
          omega
        · rw [octetBefore?_append_length]
          exact (Option.some.inj h).symm
      · next hc => exact hlater (fun ht => hc (hfirst.1 ht).2) h
    · rw [search_cons hb] at h
      exact hlater (fun ht => hb (hfirst.1 ht).1) h

/-- A search finds the first octet that ends the line. -/
theorem search_eq_some {e : Extent} (h : search o 0 none line = some e) :
    ∃ i, IsTerminator o line i ∧ (∀ j < i, ¬IsTerminator o line j) ∧
      e = .endingAt i (octetBefore? line i == some Octet.cr) := by
  obtain ⟨i, hi, hnone, he⟩ := search_eq_some_from [] h
  exact ⟨i, hi, fun j hj => hnone j (Nat.zero_le j) hj, he⟩

/-- An end that is found stays the first one, whatever arrives after it. -/
theorem search_append_of_eq_some {offset : Nat} {last : Option UInt8} {octets : Octets}
    {e : Extent} (h : search o offset last octets = some e) (more : Octets) :
    search o offset last (octets ++ more) = some e := by
  induction octets generalizing offset last with
  | nil =>
    rw [search_nil] at h
    exact nomatch h
  | cons b octets ih =>
    rw [List.cons_append]
    by_cases hb : b = Octet.lf
    · subst hb
      rw [search_lf] at h ⊢
      split at h
      · next hc => rw [if_pos hc, h]
      · next hc =>
        rw [if_neg hc]
        exact ih h
    · rw [search_cons hb] at h ⊢
      exact ih h

theorem Extent.content_endingAt_lt (lf : Nat) (crlf : Bool) :
    (endingAt lf crlf).content < (endingAt lf crlf).length := by
  unfold endingAt
  cases crlf
  · exact Nat.lt_succ_self lf
  · show lf - 1 < lf + 1
    omega

theorem search_content_lt {offset : Nat} {last : Option UInt8} {octets : Octets} {e : Extent}
    (h : search o offset last octets = some e) : e.content < e.length := by
  fun_induction search o offset last octets with
  | case1 => contradiction
  | case2 offset last octets before after hs =>
    simp only [Option.some.injEq] at h
    subst h
    exact Extent.content_endingAt_lt ..
  | case3 offset last octets before after hs lf crlf hc ih => exact ih h

/-- A terminator that is found stays the one whatever is received. -/
theorem find?_append {probed : Nat} {e : Extent} (hp : probed ≤ line.length)
    (h : find? o probed line = some e) (more : Octets) :
    find? o probed (line ++ more) = some e := by
  unfold find? at h ⊢
  rw [octetBefore?_append hp, List.drop_append_of_le_length hp]
  exact search_append_of_eq_some h more

/-- A line that is searched to its end is not searched again. -/
theorem find?_length (line : Octets) : find? o line.length line = none := by
  unfold find?
  rw [List.drop_length]
  exact search_nil ..

/-- The octet that arrives ends the line if it is a line feed that may. -/
theorem find?_concat (seen : Octets) (b : UInt8) :
    find? o seen.length (seen ++ [b]) =
      if b = Octet.lf ∧ (seen.getLast? == some Octet.cr || !o.strictCrlf) = true then
        some (.endingAt seen.length (seen.getLast? == some Octet.cr))
      else none := by
  unfold find?
  rw [octetBefore?_append_length, List.drop_left]
  by_cases hb : b = Octet.lf
  · subst hb
    rw [search_lf, search_nil]
    simp
  · rw [search_cons hb, search_nil, if_neg (fun h => hb h.1)]

/-! ## From one line feed to the next -/

theorem splitAtLf?_eq (octets : Octets) :
    splitAtLf? octets =
      (octets.findIdx? (· == Octet.lf)).map fun i => (octets.take i, octets.drop (i + 1)) := by
  induction octets with
  | nil => rfl
  | cons b octets ih =>
    rw [List.findIdx?_cons]
    by_cases hb : b = Octet.lf
    · subst hb
      simp
    · rw [splitAtLf?_cons hb, ih]
      cases octets.findIdx? (· == Octet.lf) with
      | none => simp [hb]
      | some i => simp [hb]

/-- The octet before one that is found is the last one passed over, or the one before them. -/
theorem getLast?_take_or {probed i : Nat} (hi : probed + i ≤ line.length) :
    ((line.drop probed).take i).getLast?.or (octetBefore? line probed) =
      octetBefore? line (probed + i) := by
  cases i with
  | zero => rfl
  | succ i =>
    have hlt : i < (line.drop probed).length := by
      rw [List.length_drop]
      omega
    have hlast : ((line.drop probed).take (i + 1)).getLast? = (line.drop probed)[i]? := by
      rw [List.take_succ_eq_append_getElem hlt, List.getLast?_concat, List.getElem?_eq_getElem hlt]
    rw [hlast, List.getElem?_eq_getElem hlt, Option.some_or, ← List.getElem?_eq_getElem hlt,
      List.getElem?_drop]
    rfl

theorem find?_of_findIdx?_eq_none {probed : Nat}
    (h : (line.drop probed).findIdx? (· == Octet.lf) = none) : find? o probed line = none := by
  apply search_eq_none
  rw [splitAtLf?_eq, h]
  rfl

/-- A search goes from one line feed to the next until one ends the line. -/
theorem find?_of_findIdx?_eq_some {probed i : Nat}
    (h : (line.drop probed).findIdx? (· == Octet.lf) = some i) :
    find? o probed line =
      if octetBefore? line (probed + i) == some Octet.cr || !o.strictCrlf then
        some (.endingAt (probed + i) (octetBefore? line (probed + i) == some Octet.cr))
      else find? o (probed + i + 1) line := by
  obtain ⟨hlt, hlf, -⟩ := List.findIdx?_eq_some_iff_getElem.1 h
  have hsplit : splitAtLf? (line.drop probed) =
      some ((line.drop probed).take i, (line.drop probed).drop (i + 1)) := by
    rw [splitAtLf?_eq, h]
    rfl
  have hbehind : octetBefore? line (probed + i + 1) = some Octet.lf := by
    rw [octetBefore?, ← List.getElem?_drop, List.getElem?_eq_getElem hlt, beq_iff_eq.1 hlf]
  rw [List.length_drop] at hlt
  have htake : ((line.drop probed).take i).length = i := by
    rw [List.length_take_of_le]
    rw [List.length_drop]
    omega
  unfold find?
  rw [search_eq_of_splitAtLf? hsplit, getLast?_take_or (by omega), htake, hbehind, List.drop_drop,
    ← Nat.add_assoc]

/-! ## What is searched already -/

/-- The first `probed` octets of a line hold no end of it. -/
structure Searched (o : Options) (probed : Nat) (line : Octets) : Prop where
  le_length : probed ≤ line.length
  not_isTerminator : ∀ i < probed, ¬IsTerminator o line i

theorem searched_zero (o : Options) (line : Octets) : Searched o 0 line :=
  ⟨Nat.zero_le _, fun _ h => absurd h (Nat.not_lt_zero _)⟩

theorem Searched.append {probed : Nat} (h : Searched o probed line) (more : Octets) :
    Searched o probed (line ++ more) := by
  refine ⟨?_, ?_⟩
  · exact Nat.le_trans h.le_length (List.prefix_append line more).length_le
  · intro i hi
    rw [isTerminator_append_iff (Nat.lt_of_lt_of_le hi h.le_length)]
    exact h.not_isTerminator i hi

theorem Searched.drop {probed : Nat} (h : Searched o probed line) (n : Nat) :
    Searched o (probed - n) (line.drop n) := by
  refine ⟨?_, ?_⟩
  · rw [List.length_drop]
    exact Nat.sub_le_sub_right h.le_length n
  · intro i hi ht
    exact h.not_isTerminator (n + i) (by omega) ht.of_drop

/-- Octets that are searched already need not be searched again. -/
theorem Searched.find?_eq_search {probed : Nat} (h : Searched o probed line) :
    find? o probed line = search o 0 none line := by
  apply Line.find?_eq_search h.le_length
  rw [search_eq_none_iff]
  intro i ht
  have hlt := ht.lt_length
  rw [List.length_take] at hlt
  apply h.not_isTerminator i (by omega)
  rw [← List.take_append_drop probed line]
  exact (isTerminator_append_iff ht.lt_length _).2 ht

/-- After a search that fails all of the line is searched. -/
theorem Searched.of_find?_eq_none {probed : Nat} (h : Searched o probed line)
    (hn : find? o probed line = none) : Searched o line.length line := by
  rw [h.find?_eq_search, search_eq_none_iff] at hn
  exact ⟨Nat.le_refl _, fun i _ => hn i⟩

end StreamFraming.Line
