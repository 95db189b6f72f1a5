import StreamFraming.Json.Lawful

/-!
# Texts of values

How a text of a value is put together from texts of its parts: layouts can be put behind each other
(`Layout.append`), and with commas between them they lay out what commas separate
(`layout_separate`).
-/

namespace StreamFraming.Json

/-! ## The tokens of a container -/

/-- The tokens of a member of an object. -/
def memberTokens (member : Option String × Value) : List Token :=
  .string member.1 :: .colon :: member.2.tokens

theorem Value.tokensOfItems_eq_map (items : List Value) :
    Value.tokensOfItems items = items.map Value.tokens := by
  induction items with
  | nil => rfl
  | cons v items ih => rw [Value.tokensOfItems, ih, List.map_cons]

theorem Value.tokensOfMembers_eq_map (members : List (Option String × Value)) :
    Value.tokensOfMembers members = members.map memberTokens := by
  induction members with
  | nil => rfl
  | cons member members ih => rw [Value.tokensOfMembers, ih, List.map_cons, memberTokens]

/-- An array is its items between brackets, with commas between them. -/
theorem Value.tokens_array (items : List Value) :
    (Value.array items).tokens =
      .openArray :: separate (items.map Value.tokens) ++ [.closeArray] := by
  rw [Value.tokens, Value.tokensOfItems_eq_map]

theorem Value.tokens_object (members : List (Option String × Value)) :
    (Value.object members).tokens =
      .openObject :: separate (members.map memberTokens) ++ [.closeObject] := by
  rw [Value.tokens, Value.tokensOfMembers_eq_map]

theorem separate_cons_cons (ts us : List Token) (parts : List (List Token)) :
    separate (ts :: us :: parts) = ts ++ .comma :: separate (us :: parts) := rfl

/-- Separating parts by commas loses no token of them. -/
theorem mem_separate {parts : List (List Token)} {ts : List Token} {t : Token} (h : ts ∈ parts)
    (ht : t ∈ ts) : t ∈ separate parts := by
  fun_induction separate parts with
  | case1 => cases h
  | case2 us => exact List.mem_singleton.1 h ▸ ht
  | case3 us parts _ ih =>
    rcases List.mem_cons.1 h with rfl | h
    · exact List.mem_append_left _ ht
    · exact List.mem_append_right _ (List.mem_cons_of_mem _ (ih h))

/-! ## Texts put together -/

theorem Layout.single {t : Token} {text : List Char} (h : Spells t text) : Layout [t] text := by
  have hnone : AreBlank [] := nofun
  have hlayout := Layout.cons hnone h (.nil hnone)
  rwa [List.nil_append, List.append_nil] at hlayout

/-- Two layouts that stand next to each other lay out the tokens of both. -/
theorem Layout.append {ts us : List Token} {text more : List Char} (h : Layout ts text)
    (hmore : Layout us more) : Layout (ts ++ us) (text ++ more) := by
  induction h with
  | @nil blanks hb =>
    -- the white space is put before that of the first token behind it
    have hblanks {blanks' : List Char} (hb' : AreBlank blanks') : AreBlank (blanks ++ blanks') :=
      fun c hc => (List.mem_append.1 hc).elim (hb c) (hb' c)
    rw [List.nil_append]
    cases hmore with
    | nil hb' => exact .nil (hblanks hb')
    | cons hb' ht hrest =>
      rw [← List.append_assoc, ← List.append_assoc]
      exact .cons (hblanks hb') ht hrest
  | cons hb ht _ ih =>
    rw [List.cons_append, List.append_assoc]
    exact .cons hb ht ih

/-- A number that a text gives the value of is below the word limit. -/
theorem lt_of_number_mem_layout {ts : List Token} {text : List Char} {n : Nat}
    (h : Layout ts text) (hmem : Token.number (some n) ∈ ts) : n < Decimal.wordLimit := by
  induction h with
  | nil => cases hmem
  | cons hb ht hmore ih =>
    cases hmem with
    | head =>
      cases ht with
      | natural hn => exact hn
    | tail _ hmem => exact ih hmem

/-- Texts with commas between them lay out their tokens with commas between them. -/
theorem layout_separate {parts : List (List Token)} {texts : List (List Char)}
    (h : List.Forall₂ Layout parts texts) : Layout (separate parts) ([','].intercalate texts) := by
  induction h with
  | nil => exact .nil nofun
  | @cons ts text parts texts hts hparts ih =>
    cases hparts with
    | nil =>
      rw [List.intercalate_singleton]
      exact hts
    | cons hus hparts =>
      rw [separate_cons_cons, List.intercalate_cons_cons, List.append_assoc]
      exact hts.append ((Layout.single .comma).append ih)

/-! ## Texts of scalars -/

/-- Plain characters are kept as they are. -/
theorem charsOf?_map_char (found chars : List Char) :
    charsOf? found (chars.map .char) = some (found.reverse ++ chars) := by
  induction chars generalizing found with
  | nil => rw [List.map_nil, charsOf?, List.append_nil]
  | cons c chars ih =>
    rw [List.map_cons, charsOf?, ih, List.reverse_cons, List.append_assoc, List.singleton_append]

theorem spellsPieces_of_plain {chars : List Char} (h : chars.all isPlain = true) :
    SpellsPieces (chars.map .char) chars := by
  induction chars with
  | nil => exact .nil
  | cons c chars ih =>
    rw [List.all_cons, Bool.and_eq_true] at h
    have hplain : (c ≠ '"' ∧ c ≠ '\\') ∧ 0x20 ≤ c.toNat := by
      simpa only [isPlain, Bool.and_eq_true, bne_iff_ne, decide_eq_true_eq] using h.1
    exact .cons (.plain hplain.1.1 hplain.1.2 hplain.2) (ih h.2)

/-- A text with nothing to escape is a string between quotes. -/
theorem isText_quote {text : String} (h : IsPlain text) :
    (Value.string (some text)).IsText (quote text) := by
  have hspells := Spells.string (spellsPieces_of_plain h)
  rw [charsOf?_map_char, List.reverse_nil, List.nil_append, Option.map_some,
    String.ofList_toList] at hspells
  have hquote : (quote text).toList = '"' :: text.toList ++ ['"'] := by simp [quote]
  rw [Value.IsText, hquote]
  exact .single hspells

/-- The decimal digits of a number that fits a word are a text of it. -/
theorem isText_natural {n : Nat} (h : n < Decimal.wordLimit) :
    (Value.number (some n)).IsText (Decimal.text n) := by
  rw [Value.IsText, Decimal.text, String.toList_ofList]
  exact .single (.natural h)

theorem isText_bool (b : Bool) : (Value.bool b).IsText (if b then "true" else "false") := by
  cases b with
  | false => exact .single .false
  | true => exact .single .true

end StreamFraming.Json
