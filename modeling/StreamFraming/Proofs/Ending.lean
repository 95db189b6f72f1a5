import StreamFraming.CommandStream
import StreamFraming.Proofs.Terminator

/-!
# Texts and line ends

A sender writes a text and a line's end behind it. This file says when a search for the line's
end finds what was written: a text is unbroken if no octet of it ends the line
(`unbroken_iff`), a search finds the end that is written behind such a text
(`search_append_ending`), and what any search finds is an unbroken text with its end
(`exists_ending_of_search`).
-/

namespace StreamFraming.Segment

open Line (IsTerminator octetBefore? octetBefore?_eq_getLast? search search_eq_some)

variable {o : Options} {text octets : Octets} {ending : Ending}

/-! ## Unbroken texts -/

/-- A CRLF somewhere in the text is a carriage return with a line feed right behind it. -/
theorem crlf_infix_iff (text : Octets) :
    [Octet.cr, Octet.lf] <:+: text ↔
      ∃ i : Nat, text[i]? = some Octet.cr ∧ text[i + 1]? = some Octet.lf := by
  rw [List.infix_iff_getElem?]
  constructor
  · rintro ⟨k, -, h⟩
    have hcr := h 0 (by decide)
    have hlf := h 1 (by decide)
    rw [Nat.zero_add] at hcr
    rw [Nat.add_comm] at hlf
    exact ⟨k, hcr, hlf⟩
  · rintro ⟨k, hcr, hlf⟩
    have hlt := (List.getElem?_eq_some_iff.1 hlf).1
    refine ⟨k, ?_, ?_⟩
    · show 2 + k ≤ text.length
      omega
    · intro i hi
      rcases Nat.le_one_iff_eq_zero_or_eq_one.1 (Nat.le_of_lt_succ hi) with rfl | rfl
      · rw [Nat.zero_add]
        exact hcr
      · rw [Nat.add_comm]
        exact hlf

/-- A text is unbroken if no octet of it ends the line. -/
theorem unbroken_iff (o : Options) (text : Octets) :
    Unbroken o text ↔ ∀ i, ¬IsTerminator o text i := by
  unfold Unbroken IsTerminator
  cases hs : o.strictCrlf with
  | false =>
    rw [if_neg Bool.false_ne_true, List.mem_iff_getElem?, not_exists]
    simp
  | true =>
    rw [if_pos rfl, crlf_infix_iff, not_exists]
    constructor
    · rintro h i ⟨hlf, hcr⟩
      have hbefore := hcr.resolve_left Bool.noConfusion
      cases i with
      | zero => exact nomatch hbefore
      | succ i => exact h i ⟨hbefore, hlf⟩
    · rintro h i ⟨hcr, hlf⟩
      exact h (i + 1) ⟨hlf, Or.inr hcr⟩

/-- A text is unbroken if a search finds no end in it. -/
theorem unbroken_iff_search_eq_none (o : Options) (text : Octets) :
    Unbroken o text ↔ search o 0 none text = none := by
  rw [unbroken_iff, Line.search_eq_none_iff]

instance (o : Options) (text : Octets) : Decidable (Unbroken o text) :=
  decidable_of_iff _ (unbroken_iff_search_eq_none o text).symm

instance (o : Options) (text : Octets) : (ending : Ending) → Decidable (Ends o text ending)
  | .lf => inferInstanceAs (Decidable (_ ∧ _))
  | .crlf => .isTrue trivial

instance (o : Options) : (s : Segment) → Decidable (s.IsClear o)
  | .line _ _ => inferInstanceAs (Decidable (_ ∧ _ ∧ _))
  | .literal _ _ _ _ _ => inferInstanceAs (Decidable (_ ∧ _ ∧ _))

/-- What is written behind a text on the same line does not break it. -/
theorem Unbroken.append {more : Octets} (h : Unbroken o text) (hmore : Octet.lf ∉ more) :
    Unbroken o (text ++ more) := by
  rw [unbroken_iff] at h ⊢
  intro i ht
  rcases Nat.lt_or_ge i text.length with hi | hi
  · exact h i ((Line.isTerminator_append_iff hi more).1 ht)
  · have hlf := ht.1
    rw [List.getElem?_append_right hi] at hlf
    exact hmore (List.mem_of_getElem? hlf)

/-! ## Searching for an end -/

/-- A search finds the end that is written behind a text. -/
theorem search_append_ending (hu : Unbroken o text) (he : Ends o text ending) (rest : Octets) :
    search o 0 none (text ++ ending.octets ++ rest) =
      some { content := text.length, length := (text ++ ending.octets).length } := by
  have hnone := (unbroken_iff_search_eq_none o text).1 hu
  rw [List.append_assoc, Line.search_append hnone, Nat.zero_add, Option.or_none]
  cases ending with
  | lf =>
    obtain ⟨hstrict, hlast⟩ := he
    show search o text.length text.getLast? (Octet.lf :: rest) = _
    have hcrlf : (text.getLast? == some Octet.cr) = false := beq_eq_false_iff_ne.2 hlast
    rw [Line.search_lf, hcrlf, hstrict]
    simp [Line.Extent.endingAt, Ending.octets]
  | crlf =>
    show search o text.length text.getLast? (Octet.cr :: Octet.lf :: rest) = _
    rw [Line.search_cons (by decide), Line.search_lf]
    simp [Line.Extent.endingAt, Ending.octets]

/-- What a search finds is an unbroken text with its end. -/
theorem exists_ending_of_search {e : Line.Extent} (h : search o 0 none octets = some e) :
    ∃ ending : Ending, octets.take e.length = octets.take e.content ++ ending.octets ∧
      Unbroken o (octets.take e.content) ∧ Ends o (octets.take e.content) ending := by
  obtain ⟨i, ⟨hlf, hcr⟩, hfirst, rfl⟩ := search_eq_some h
  have hlt := (List.getElem?_eq_some_iff.1 hlf).1
  -- no octet before the end breaks the text
  have hunbroken {n : Nat} (hn : n ≤ i) : Unbroken o (octets.take n) := by
    rw [unbroken_iff]
    intro j ht
    have hj := ht.lt_length
    rw [List.length_take] at hj
    apply hfirst j (by omega)
    rw [← List.take_append_drop n octets]
    exact (Line.isTerminator_append_iff ht.lt_length _).2 ht
  by_cases hbefore : octetBefore? octets i = some Octet.cr
  · cases i with
    | zero => exact nomatch hbefore
    | succ i =>
      have hi : octets[i]? = some Octet.cr := hbefore
      rw [hbefore]
      refine ⟨.crlf, ?_, hunbroken (Nat.le_succ i), trivial⟩
      show octets.take (i + 1 + 1) = octets.take i ++ [Octet.cr, Octet.lf]
      rw [List.take_add_one, List.take_add_one, hi, hlf, List.append_assoc]
      rfl
  · rw [beq_eq_false_iff_ne.2 hbefore]
    refine ⟨.lf, ?_, hunbroken (Nat.le_refl i), hcr.resolve_right hbefore, ?_⟩
    · show octets.take (i + 1) = octets.take i ++ [Octet.lf]
      rw [List.take_add_one, hlf]
      rfl
    · show (octets.take i).getLast? ≠ some Octet.cr
      rw [← octetBefore?_eq_getLast? (Nat.le_of_lt hlt)]
      exact hbefore

end StreamFraming.Segment
