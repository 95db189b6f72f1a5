import Mathlib.Data.List.Chain
import StreamFraming.Proofs.Json.Number

/-!
# Reading tokens

The reader takes a JSON text apart into tokens as `Layout` puts it together from them: it reads a
token from each of its spellings, and whatever it reads is spelled (`readToken?_append`,
`exists_spells_of_readToken?`). Two numbers without anything between them would be read as one, so
what is said of a whole text is said of tokens in which no number runs into the next token
(`readTokens?_of_layout`). The other way round every text that is read is a layout of its tokens
(`exists_layout_of_readTokens?`).
-/

namespace StreamFraming.Json

/-! ## Strings -/

/-- A piece of a string is read from each of its spellings. -/
theorem readPieces?_append_of_spells {piece : Piece} {text : List Char} (h : SpellsPiece piece text)
    (done : List Piece) (rest : List Char) :
    readPieces? done (text ++ rest) = readPieces? (piece :: done) rest := by
  cases h with
  | @plain c hquote hbackslash hcontrol =>
    have hplain : ¬(c = '\\' ∨ c.toNat < 0x20) := by
      rintro (h | h)
      · exact hbackslash h
      · exact Nat.not_lt_of_le hcontrol h
    rw [List.singleton_append, readPieces?, if_neg hplain]
    · exact hquote
    · intro _ _ _ _ _ h
      exact absurd h hbackslash
    · intro _ _ h
      exact absurd h hbackslash
  | @escape letter c hc =>
    -- the letter of an escape that is a number is no letter of a named one
    have hletter : letter ≠ 'u' := by
      rintro rfl
      cases hc
    show readPieces? done ('\\' :: letter :: rest) = _
    rw [readPieces?, hc]
    rintro _ _ _ _ _ _ rfl
    contradiction
  | @unit a b c d n hn =>
    show readPieces? done ('\\' :: 'u' :: a :: b :: c :: d :: rest) = _
    rw [readPieces?, hn]

/-- The pieces of a string are read up to the quotation mark that ends it. -/
theorem readPieces?_append {pieces : List Piece} {text : List Char} (h : SpellsPieces pieces text)
    (done : List Piece) (rest : List Char) :
    readPieces? done (text ++ '"' :: rest) = some (done.reverse ++ pieces, rest) := by
  induction h generalizing done with
  | nil =>
    rw [List.nil_append, readPieces?, List.append_nil]
  | cons hpiece _ ih =>
    rw [List.append_assoc, readPieces?_append_of_spells hpiece, ih, List.reverse_cons,
      List.append_assoc, List.singleton_append]

/-- What is read as the pieces of a string spells them. -/
theorem exists_of_readPieces? {done pieces : List Piece} {text rest : List Char}
    (h : readPieces? done text = some (pieces, rest)) :
    ∃ new spelled, SpellsPieces new spelled ∧ pieces = done.reverse ++ new ∧
      text = spelled ++ '"' :: rest := by
  -- a piece that is spelled comes before what is read behind it
  have first {done : List Piece} {piece : Piece} {spelled text : List Char}
      (hpiece : SpellsPiece piece spelled)
      (hrest : ∃ new spelled, SpellsPieces new spelled ∧
        pieces = (piece :: done).reverse ++ new ∧ text = spelled ++ '"' :: rest) :
      ∃ new spelled', SpellsPieces new spelled' ∧ pieces = done.reverse ++ new ∧
        spelled ++ text = spelled' ++ '"' :: rest := by
    obtain ⟨new, spelled', hnew, hpieces, rfl⟩ := hrest
    refine ⟨piece :: new, spelled ++ spelled', .cons hpiece hnew, ?_, ?_⟩
    · rw [hpieces, List.reverse_cons, List.append_assoc, List.singleton_append]
    · rw [List.append_assoc]
  fun_induction readPieces? done text with
  | case1 => cases h
  | case2 done rest' =>
    injection h with h
    obtain ⟨rfl, rfl⟩ := Prod.mk.inj h
    exact ⟨[], [], .nil, (List.append_nil _).symm, rfl⟩
  | case3 done a b c d rest' n hn ih => exact first (.unit hn) (ih h)
  | case4 => cases h
  | case5 done letter rest' _ c hc ih => exact first (.escape hc) (ih h)
  | case6 => cases h
  | case7 => cases h
  | case8 done c rest' hquote _ _ hplain ih =>
    obtain ⟨hbackslash, hcontrol⟩ := not_or.1 hplain
    exact first (.plain hquote hbackslash (Nat.le_of_not_lt hcontrol)) (ih h)

theorem readString?_append {pieces : List Piece} {text : List Char} (h : SpellsPieces pieces text)
    (rest : List Char) :
    readString? (text ++ '"' :: rest) =
      some (.string ((charsOf? [] pieces).map String.ofList), rest) := by
  rw [readString?, readPieces?_append h]
  rfl

/-- What is read as a string is the spelling of one. -/
theorem exists_spells_of_readString? {text rest : List Char} {t : Token}
    (h : readString? text = some (t, rest)) :
    ∃ spelled, Spells t spelled ∧ '"' :: text = spelled ++ rest := by
  rw [readString?] at h
  split at h
  · next pieces rest' hpieces =>
    obtain ⟨rfl, rfl⟩ := Prod.mk.inj (Option.some.inj h)
    obtain ⟨new, spelled, hnew, rfl, rfl⟩ := exists_of_readPieces? hpieces
    refine ⟨'"' :: spelled ++ ['"'], .string hnew, ?_⟩
    rw [List.append_assoc]
    rfl
  · cases h

/-! ## Words -/

theorem readWord?_append (t : Token) (letters rest : List Char) :
    readWord? t letters (letters ++ rest) = some (t, rest) := by
  induction letters with
  | nil => rfl
  | cons letter letters ih =>
    rw [List.cons_append, readWord?, if_pos rfl]
    exact ih

theorem eq_of_readWord? {t t' : Token} {letters text rest : List Char}
    (h : readWord? t letters text = some (t', rest)) : t' = t ∧ text = letters ++ rest := by
  fun_induction readWord? t letters text with
  | case1 =>
    injection h with h
    obtain ⟨rfl, rfl⟩ := Prod.mk.inj h
    exact ⟨rfl, rfl⟩
  | case2 => cases h
  | case3 letter letters text ih =>
    obtain ⟨rfl, rfl⟩ := ih h
    exact ⟨rfl, rfl⟩
  | case4 => cases h

/-- A word is spelled by its first letter and those that are still to come. -/
theorem exists_spells_of_readWord? {t t' : Token} {c : Char} {letters text rest : List Char}
    (hword : Spells t (c :: letters)) (h : readWord? t letters text = some (t', rest)) :
    ∃ spelled, Spells t' spelled ∧ c :: text = spelled ++ rest := by
  obtain ⟨rfl, rfl⟩ := eq_of_readWord? h
  exact ⟨c :: letters, hword, rfl⟩

/-! ## Tokens -/

/-- Whether a token is a number. -/
def Token.isNumber : Token → Bool
  | .number _ => true
  | _ => false

theorem punctuation?_of_isDigit {c : Char} (h : c.isDigit = true) : punctuation? c = none := by
  unfold punctuation?
  split <;> first | rfl | exact absurd h (by decide)

/-- A digit begins a number without a sign. -/
theorem readToken?_of_isDigit {c : Char} (h : c.isDigit = true) (rest : List Char) :
    readToken? (c :: rest) = readUnsigned? false (c :: rest) := by
  have hne {letter : Char} (hletter : letter.isDigit = false) : c ≠ letter := by
    rintro rfl
    rw [h] at hletter
    contradiction
  simp only [readToken?, punctuation?_of_isDigit h, if_neg (hne (rfl : '"'.isDigit = false)),
    if_neg (hne (rfl : 'n'.isDigit = false)), if_neg (hne (rfl : 't'.isDigit = false)),
    if_neg (hne (rfl : 'f'.isDigit = false)), if_neg (hne (rfl : '-'.isDigit = false))]

/-- A number that is not negative is read from its first digit on. -/
theorem readToken?_chars (n : Nat) (rest : List Char) :
    readToken? (Decimal.chars n ++ rest) = readUnsigned? false (Decimal.chars n ++ rest) := by
  obtain ⟨c, more, hchars, hc⟩ := Decimal.exists_chars_eq_cons n
  rw [hchars]
  exact readToken?_of_isDigit hc _

/-- A token is read from each of its spellings, a number if it ends there. -/
theorem readToken?_append {t : Token} {text rest : List Char} (h : Spells t text)
    (hr : t.isNumber = true → EndsNumber rest) : readToken? (text ++ rest) = some (t, rest) := by
  cases h with
  | openObject => rfl
  | closeObject => rfl
  | openArray => rfl
  | closeArray => rfl
  | comma => rfl
  | colon => rfl
  | null => exact readWord?_append .null ['u', 'l', 'l'] rest
  | true => exact readWord?_append (.bool true) ['r', 'u', 'e'] rest
  | false => exact readWord?_append (.bool false) ['a', 'l', 's', 'e'] rest
  | @natural n hn =>
    have hread := readUnsigned?_spelled false n .absent .absent (hr rfl)
    rw [kept_natural hn] at hread
    rw [readToken?_chars]
    exact hread
  | @number sign fraction exponent whole hs hf hx hnone =>
    simp only [List.append_assoc]
    cases hs with
    | plus =>
      have hread := readUnsigned?_spelled false whole hf hx (hr rfl)
      have hnone' := hnone.resolve_left (absurd rfl)
      rw [kept_eq_none (.inr hnone')] at hread
      rw [List.nil_append, readToken?_chars]
      exact hread
    | minus =>
      have hread := readUnsigned?_spelled true whole hf hx (hr rfl)
      rw [kept_eq_none (.inl rfl)] at hread
      exact hread
  | @string pieces text hpieces =>
    rw [List.append_assoc]
    exact readString?_append hpieces rest

/-- A number is spelled by its parts, whether its value is kept or not. -/
theorem spells_number {sign fraction exponent : List Char} {negative : Bool} (whole : Nat)
    (hs : Sign sign) (hnegative : negative = true ↔ sign ≠ []) (hf : Fraction fraction)
    (hx : Exponent exponent) :
    Spells (.number (kept negative whole fraction exponent))
      (sign ++ (Decimal.chars whole ++ (fraction ++ exponent))) := by
  by_cases h : sign ≠ [] ∨ fraction ≠ [] ∨ exponent ≠ [] ∨ Decimal.wordLimit ≤ whole
  · rw [kept_eq_none (h.imp_left hnegative.2)]
    have hspells := Spells.number hs hf hx h
    simpa only [List.append_assoc] using hspells
  · simp only [not_or, ne_eq, Classical.not_not, Nat.not_le] at h
    obtain ⟨rfl, rfl, rfl, hwhole⟩ := h
    have hplus : negative = false := by simpa using hnegative
    rw [hplus, kept_natural hwhole]
    simpa using Spells.natural hwhole

theorem spells_of_punctuation? {c : Char} {t : Token} (h : punctuation? c = some t) :
    Spells t [c] := by
  unfold punctuation? at h
  split at h
  · exact Option.some.inj h ▸ .openObject
  · exact Option.some.inj h ▸ .closeObject
  · exact Option.some.inj h ▸ .openArray
  · exact Option.some.inj h ▸ .closeArray
  · exact Option.some.inj h ▸ .comma
  · exact Option.some.inj h ▸ .colon
  · cases h

/-- Whatever is read as a token spells it. -/
theorem exists_spells_of_readToken? {text rest : List Char} {t : Token}
    (h : readToken? text = some (t, rest)) :
    ∃ spelled, Spells t spelled ∧ text = spelled ++ rest := by
  cases text with
  | nil => cases h
  | cons c text =>
    rw [readToken?] at h
    split at h
    · next hp =>
      obtain ⟨rfl, rfl⟩ := Prod.mk.inj (Option.some.inj h)
      exact ⟨[c], spells_of_punctuation? hp, rfl⟩
    · split at h
      · next hc => exact hc ▸ exists_spells_of_readString? h
      split at h
      · next hc => exact exists_spells_of_readWord? (hc ▸ .null) h
      split at h
      · next hc => exact exists_spells_of_readWord? (hc ▸ .true) h
      split at h
      · next hc => exact exists_spells_of_readWord? (hc ▸ .false) h
      split at h
      · next hc =>
        obtain ⟨whole, fraction, exponent, hf, hx, rfl, rfl⟩ := exists_of_readUnsigned? h
        refine ⟨_, spells_number whole .minus (by simp) hf hx, ?_⟩
        simp [hc]
      · obtain ⟨whole, fraction, exponent, hf, hx, htext, rfl⟩ := exists_of_readUnsigned? h
        refine ⟨_, spells_number whole .plus (by simp) hf hx, ?_⟩
        simp [htext]

/-! ## Texts -/

/-- Whether two tokens stay apart without white space between them. -/
def Token.Apart (t t' : Token) : Prop := t.isNumber = true → t'.isNumber = false

theorem isBlank_eq_false_of_isDigit {c : Char} (h : c.isDigit = true) : isBlank c = false := by
  have hne {blank : Char} (hblank : blank.isDigit = false) : c ≠ blank := by
    rintro rfl
    rw [h] at hblank
    contradiction
  simp only [isBlank, hne (rfl : ' '.isDigit = false), hne (rfl : '\t'.isDigit = false),
    hne (rfl : '\n'.isDigit = false), hne (rfl : '\r'.isDigit = false), decide_false, Bool.or_false]

theorem goesOn_eq_false_of_isBlank {c : Char} (h : isBlank c = true) : goesOn c = false := by
  simp only [isBlank, Bool.or_eq_true, decide_eq_true_eq] at h
  rcases h with ((rfl | rfl) | rfl) | rfl <;> decide

/-- A spelling starts with no white space, and only that of a number can go on with one. -/
theorem exists_cons_of_spells {t : Token} {text : List Char} (h : Spells t text) :
    ∃ c more, text = c :: more ∧ isBlank c = false ∧ (t.isNumber = false → goesOn c = false) := by
  cases h with
  | openObject => exact ⟨'{', _, rfl, rfl, fun _ => rfl⟩
  | closeObject => exact ⟨'}', _, rfl, rfl, fun _ => rfl⟩
  | openArray => exact ⟨'[', _, rfl, rfl, fun _ => rfl⟩
  | closeArray => exact ⟨']', _, rfl, rfl, fun _ => rfl⟩
  | comma => exact ⟨',', _, rfl, rfl, fun _ => rfl⟩
  | colon => exact ⟨':', _, rfl, rfl, fun _ => rfl⟩
  | null => exact ⟨'n', _, rfl, rfl, fun _ => rfl⟩
  | true => exact ⟨'t', _, rfl, rfl, fun _ => rfl⟩
  | false => exact ⟨'f', _, rfl, rfl, fun _ => rfl⟩
  | @natural n hn =>
    obtain ⟨c, more, hchars, hc⟩ := Decimal.exists_chars_eq_cons n
    exact ⟨c, more, hchars, isBlank_eq_false_of_isDigit hc, nofun⟩
  | @number sign fraction exponent whole hs hf hx hnone =>
    cases hs with
    | plus =>
      obtain ⟨c, more, hchars, hc⟩ := Decimal.exists_chars_eq_cons whole
      refine ⟨c, more ++ fraction ++ exponent, ?_, isBlank_eq_false_of_isDigit hc, nofun⟩
      rw [List.nil_append, hchars, List.cons_append, List.cons_append]
    | minus => exact ⟨'-', _, rfl, rfl, nofun⟩
  | string hpieces => exact ⟨'"', _, rfl, rfl, fun _ => rfl⟩

/-- A text that does not start with a number ends a number before it. -/
theorem Layout.endsNumber {ts : List Token} {text : List Char} (h : Layout ts text)
    (hfirst : ∀ t ∈ ts.head?, t.isNumber = false) : EndsNumber text := by
  have blank {blanks rest : List Char} (hb : AreBlank blanks) (hr : EndsNumber rest) :
      EndsNumber (blanks ++ rest) := by
    cases blanks with
    | nil => exact hr
    | cons b blanks =>
      intro c hc
      obtain rfl := Option.some.inj hc
      exact goesOn_eq_false_of_isBlank (hb b List.mem_cons_self)
  cases h with
  | nil hb =>
    rw [← List.append_nil text]
    exact blank hb nofun
  | @cons t _ _ _ _ hb ht hmore =>
    obtain ⟨c, more, rfl, -, hgoes⟩ := exists_cons_of_spells ht
    rw [List.append_assoc]
    apply blank hb
    intro d hd
    obtain rfl := Option.some.inj hd
    exact hgoes (hfirst t rfl)

/-- The tokens of a layout are read from it, if no two numbers stand next to each other. -/
theorem readTokens?_of_layout {ts : List Token} {text : List Char} (h : Layout ts text)
    (hs : ts.IsChain Token.Apart) (done : List Token) :
    readTokens? done text = some (done.reverse ++ ts) := by
  induction h generalizing done with
  | nil hb =>
    rw [readTokens?, if_pos, List.append_nil]
    rw [List.isEmpty_iff, List.dropWhile_eq_nil_iff]
    exact hb
  | @cons t ts blanks text more hb ht hmore ih =>
    obtain ⟨hfirst, hs⟩ := List.isChain_cons.1 hs
    have hread : readToken? (text ++ more) = some (t, more) :=
      readToken?_append ht fun hn => hmore.endsNumber fun t' ht' => hfirst t' ht' hn
    have hdrop : (blanks ++ text ++ more).dropWhile isBlank = text ++ more := by
      obtain ⟨c, rest, rfl, hc, -⟩ := exists_cons_of_spells ht
      rw [List.append_assoc, dropWhile_append_of_stop hb]
      intro d hd
      obtain rfl := Option.some.inj hd
      exact hc
    have hne : (text ++ more).isEmpty = false := by
      obtain ⟨c, rest, rfl, -⟩ := exists_cons_of_spells ht
      rfl
    rw [readTokens?, if_neg (by rw [hdrop, hne]; exact Bool.false_ne_true)]
    split
    · next hnone =>
      rw [hdrop, hread] at hnone
      cases hnone
    · next hsome =>
      rw [hdrop, hread] at hsome
      obtain ⟨rfl, rfl⟩ := Prod.mk.inj (Option.some.inj hsome)
      rw [ih hs, List.reverse_cons, List.append_assoc, List.singleton_append]

/-- Whatever is read as tokens is a layout of them. -/
theorem exists_layout_of_readTokens? {done ts : List Token} {text : List Char}
    (h : readTokens? done text = some ts) : ∃ new, ts = done.reverse ++ new ∧ Layout new text := by
  fun_induction readTokens? done text with
  | case1 done text hempty =>
    rw [List.isEmpty_iff, List.dropWhile_eq_nil_iff] at hempty
    exact ⟨[], by rw [List.append_nil, Option.some.inj h], .nil hempty⟩
  | case2 => cases h
  | case3 done text _ t rest hread ih =>
    obtain ⟨new, rfl, hnew⟩ := ih h
    obtain ⟨spelled, ht, hdrop⟩ := exists_spells_of_readToken? hread
    have hlayout := Layout.cons (fun c => List.mem_takeWhile_imp (l := text)) ht hnew
    rw [List.append_assoc, ← hdrop, List.takeWhile_append_dropWhile] at hlayout
    refine ⟨t :: new, ?_, hlayout⟩
    rw [List.reverse_cons, List.append_assoc, List.singleton_append]

end StreamFraming.Json
