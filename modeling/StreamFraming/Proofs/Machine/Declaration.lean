import StreamFraming.Machine
import StreamFraming.Proofs.Grammar
import StreamFraming.Proofs.Terminator

/-!
# Declarations on a machine

The machine reads a declaration by positions: it looks for the last opening brace, cuts the
digits out behind it and looks at the octet before it. None of this can fail in a line that is
not too long for a word, and what is read is what `Declaration.parse?` reads (`Machine.parse?_eq`).

The two look for the brace in different ways. They find the same one because digits are no
braces, so that the brace right before the digits is the last of the line.
-/

namespace StreamFraming.Machine

variable {b : UInt8} {octets : Octets}

/-- Looking at the octet before a position does not fail in the buffer. -/
theorem follows_eq {start i : Nat} (hs : start ≤ i) (hi : i ≤ octets.length) :
    follows b octets start i =
      .ok (Line.octetBefore? (octets.drop start) (i - start) == some b) := by
  unfold follows
  split
  · next hlt =>
    have hlast : i - 1 < octets.length := by omega
    have hbefore : Line.octetBefore? (octets.drop start) (i - start) = some octets[i - 1] := by
      have hsucc : i - start = i - 1 - start + 1 := by omega
      have hpos : start + (i - 1 - start) = i - 1 := by omega
      rw [hsucc, Line.octetBefore?, List.getElem?_drop, hpos, List.getElem?_eq_getElem hlast]
    rw [sub_of_le (by omega), ok_bind, octetAt_of_getElem? (List.getElem?_eq_getElem hlast),
      ok_bind, hbefore]
    rfl
  · next hge =>
    have hzero : i - start = 0 := by omega
    rw [hzero]
    rfl

/-- What stands right before an octet is what the octets before it end in. -/
theorem follows_append {before after : Octets} :
    follows b (before ++ after) 0 before.length = .ok (decide (before.getLast? = some b)) := by
  have hi : before.length ≤ (before ++ after).length := by simp
  rw [follows_eq (Nat.zero_le _) hi, List.drop_zero, Nat.sub_zero,
    Line.octetBefore?_append_length, Except.ok.injEq, Bool.eq_iff_iff]
  simp

/-! ## The last brace -/

/-- Nothing is found exactly where the octet does not occur. -/
theorem lastIdx?_eq_none_iff : lastIdx? b octets = none ↔ b ∉ octets := by
  induction octets with
  | nil => simp [lastIdx?]
  | cons c octets ih =>
    rw [lastIdx?, List.mem_cons, not_or, ← ih]
    cases lastIdx? b octets with
    | none => simp [eq_comm]
    | some i => simp

/-- The last occurrence is the one behind which there is none. -/
theorem lastIdx?_append_cons (before : Octets) {after : Octets} (h : b ∉ after) :
    lastIdx? b (before ++ b :: after) = some before.length := by
  induction before with
  | nil => simp [lastIdx?, lastIdx?_eq_none_iff.2 h]
  | cons c before ih =>
    rw [List.cons_append, lastIdx?, ih]
    rfl

theorem exists_of_lastIdx?_eq_some {i : Nat} (h : lastIdx? b octets = some i) :
    ∃ before after, octets = before ++ b :: after ∧ b ∉ after := by
  induction octets generalizing i with
  | nil => exact nomatch h
  | cons c octets ih =>
    rw [lastIdx?] at h
    split at h
    · next j hrest =>
      obtain ⟨before, after, rfl, hafter⟩ := ih hrest
      exact ⟨c :: before, after, rfl, hafter⟩
    · next hrest =>
      split at h
      · next hc =>
        subst hc
        exact ⟨[], octets, rfl, lastIdx?_eq_none_iff.1 hrest⟩
      · exact nomatch h

/-! ## The length -/

/-- Digits hold no brace. -/
theorem openBrace_not_mem {digits : Octets} (h : ∀ b ∈ digits, Octet.isDigit b = true) :
    Octet.openBrace ∉ digits := by
  intro hmem
  have hbrace := h _ hmem
  contradiction

/-- A length that is read has its digits behind the last brace. -/
theorem exists_cut_of_readLength? {kind : Kind} {body : Octets} {d : Declaration}
    (h : Declaration.readLength? kind body.reverse = some d) :
    ∃ lead digits : Octets, digits ≠ [] ∧ (∀ b ∈ digits, Octet.isDigit b = true) ∧
      body = lead ++ Octet.openBrace :: digits := by
  obtain ⟨digits, before, hne, hdigits, hbody⟩ := Declaration.exists_digits_of_readLength? h
  refine ⟨before.reverse, digits, hne, hdigits, ?_⟩
  rw [← List.reverse_inj, hbody]
  simp

/-- Without an opening brace there is no declaration. -/
theorem declared_eq_none_of_not_mem {body : Octets} (h : Octet.openBrace ∉ body) (kind : Kind) :
    Declaration.readLength? kind body.reverse = none := by
  rw [Option.eq_none_iff_forall_ne_some]
  intro d hd
  obtain ⟨lead, digits, -, -, rfl⟩ := exists_cut_of_readLength? hd
  exact h (List.mem_append_right lead List.mem_cons_self)

/-- Anything but digits behind the last opening brace is no declaration. -/
theorem declared_eq_none_of_not_digits {lead digits : Octets} (h : Octet.openBrace ∉ digits)
    (hbad : digits = [] ∨ digits.all Octet.isDigit = false) (kind : Kind) :
    Declaration.readLength? kind (lead ++ Octet.openBrace :: digits).reverse = none := by
  rw [Option.eq_none_iff_forall_ne_some]
  intro d hd
  -- the digits that are read would be these, behind the same brace
  obtain ⟨lead', digits', hne, hdigits, hbody⟩ := exists_cut_of_readLength? hd
  have hlast := lastIdx?_append_cons lead h
  rw [hbody, lastIdx?_append_cons lead' (openBrace_not_mem hdigits), Option.some.injEq] at hlast
  obtain ⟨-, hcons⟩ := List.append_inj hbody hlast.symm
  obtain ⟨-, rfl⟩ := List.cons.inj hcons
  rcases hbad with hnil | hall
  · exact hne hnil
  · rw [List.all_eq_true.2 hdigits] at hall
    contradiction

/-- The machine accumulates digits without a fault and stops where they leave the word. -/
theorem readDigits_eq {digits : Octets} (h : ∀ b ∈ digits, Octet.isDigit b = true) (n : Nat) :
    readDigits n digits =
      .ok (Decimal.readFrom? Decimal.wordLimit n (digits.map Octet.digitValue)) := by
  induction digits generalizing n with
  | nil => rfl
  | cons b digits ih =>
    have hb := Octet.isDigit_iff.1 (h b List.mem_cons_self)
    have hdigits : ∀ b ∈ digits, Octet.isDigit b = true :=
      fun c hc => h c (List.mem_cons_of_mem b hc)
    -- a digit is not below the first digit, which is what the difference needs
    rw [readDigits, sub_of_le hb.1, ok_bind, List.map_cons, Decimal.readFrom?]
    show (if 10 * n + Octet.digitValue b < Decimal.wordLimit then _ else _) = _
    split
    · exact ih hdigits _
    · rfl

/-- Behind the last brace the machine reads what stands there. -/
theorem readLength?_append_cons {lead digits : Octets}
    (hw : (lead ++ Octet.openBrace :: digits).length < Decimal.wordLimit)
    (hnot : Octet.openBrace ∉ digits) (kind : Kind) :
    readLength? kind (lead ++ Octet.openBrace :: digits) =
      .ok (Declaration.readLength? kind (lead ++ Octet.openBrace :: digits).reverse) := by
  have hlength : (lead ++ Octet.openBrace :: digits).length = lead.length + 1 + digits.length := by
    rw [List.length_append, List.length_cons, Nat.add_right_comm, Nat.add_assoc]
  have hdrop : (lead ++ Octet.openBrace :: digits).drop (lead.length + 1) = digits := by
    rw [← List.drop_drop, List.drop_left]
    rfl
  unfold readLength?
  rw [lastIdx?_append_cons lead hnot]
  dsimp only
  rw [add_of_lt (by omega), ok_bind, slice_of_le (by omega) (Nat.le_refl _), ok_bind,
    List.take_length, hdrop]
  split
  · next hbad => rw [declared_eq_none_of_not_digits hnot hbad]
  · next hgood =>
    rw [not_or, Bool.not_eq_false, List.all_eq_true] at hgood
    let s : Declaration.Spelling :=
      { lead, digits, kind, digits_ne_nil := hgood.1, isDigit_of_mem := hgood.2 }
    have hreverse : (lead ++ Octet.openBrace :: digits).reverse =
        s.digits.reverse ++ Octet.openBrace :: s.lead.reverse := by
      simp [s]
    rw [hreverse, Declaration.readLength?_spelled, readDigits_eq hgood.2, ok_bind]
    show _ = Except.ok ((Decimal.readFrom? _ 0 _).map _)
    cases Decimal.readFrom? Decimal.wordLimit 0 (digits.map Octet.digitValue) with
    | none => rfl
    | some n =>
      dsimp only
      rw [follows_append, ok_bind, Option.map_some]

/-- The machine reads the length as the reader of the reversed line does. -/
theorem readLength?_eq {body : Octets} (hw : body.length < Decimal.wordLimit) (kind : Kind) :
    readLength? kind body = .ok (Declaration.readLength? kind body.reverse) := by
  cases hlast : lastIdx? Octet.openBrace body with
  | none =>
    rw [declared_eq_none_of_not_mem (lastIdx?_eq_none_iff.1 hlast)]
    simp only [readLength?, hlast]
  | some brace =>
    obtain ⟨lead, digits, rfl, hnot⟩ := exists_of_lastIdx?_eq_some hlast
    exact readLength?_append_cons hw hnot kind

/-! ## The line -/

theorem stripLast?_concat (octets : Octets) (b c : UInt8) :
    stripLast? b (octets ++ [c]) = if c = b then some octets else none := by
  simp [stripLast?]

/-- The machine takes off the sign of the kind as the reader of the reversed line does. -/
theorem readKind?_eq {body : Octets} (hw : body.length < Decimal.wordLimit) :
    readKind? body =
      .ok (Declaration.readLength? (Declaration.splitKind body.reverse).1
        (Declaration.splitKind body.reverse).2) := by
  rcases List.eq_nil_or_concat body with rfl | ⟨before, c, rfl⟩
  · exact readLength?_eq hw .synchronizing
  · rw [List.concat_eq_append] at hw ⊢
    have hreverse : (before ++ [c]).reverse = c :: before.reverse := by simp
    have hbefore : before.length < Decimal.wordLimit := by
      rw [List.length_append] at hw
      omega
    unfold readKind?
    rw [stripLast?_concat, hreverse, Declaration.splitKind]
    by_cases hc : c = Octet.plus
    · simp only [hc, if_true]
      exact readLength?_eq hbefore .nonSynchronizing
    · simp only [hc, if_false]
      rw [← hreverse]
      exact readLength?_eq hw .synchronizing

/-- The machine reads every line that is not too long, and reads in it what is declared. -/
theorem parse?_eq {line : Octets} (hw : line.length < Decimal.wordLimit) :
    parse? line = .ok (Declaration.parse? line) := by
  rcases List.eq_nil_or_concat line with rfl | ⟨body, c, rfl⟩
  · rfl
  · rw [List.concat_eq_append] at hw ⊢
    have hbody : body.length < Decimal.wordLimit := by
      rw [List.length_append] at hw
      omega
    have hreverse : (body ++ [c]).reverse = c :: body.reverse := by simp
    unfold parse? Declaration.parse?
    rw [stripLast?_concat, hreverse, Declaration.readReversed?]
    by_cases hc : c = Octet.closeBrace
    · simp only [hc, if_true]
      exact readKind?_eq hbody
    · simp only [hc, if_false]

end StreamFraming.Machine
