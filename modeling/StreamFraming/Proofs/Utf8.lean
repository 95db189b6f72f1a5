import Mathlib.Data.List.Forall2
import StreamFraming.Utf8

/-!
# What octets are displayed as

`Utf8.display` takes one octet after the other. `Shows` says what it displays without doing so:
where the octets of a character stand, the character is displayed, and where none stand, the
maximal part that is no character is displayed as one replacement character. Every list of octets
shows exactly one text, and that is its display (`display_eq_iff`); so a text is the display of its
own octets (`display_toByteArray`).

The table of the octets that may follow a leading octet is right in both directions: the octets of
a character follow it (`exists_followers?_of_encode`), and octets that follow it are those of a
character (`encode_ofNat_number`).
-/

namespace StreamFraming.Utf8

/-! ## What is displayed -/

/-- The octets of a character. -/
def encode (c : Char) : Octets := String.utf8EncodeChar c

/-- Whether octets are all of a character or the start of one. -/
def Begins (octets : Octets) : Prop := ∃ c, octets <+: encode c

/-- Whether `part` is the maximal part that is no character, with `rest` behind it: no character
stands there, and nothing longer begins one. If nothing at all does, it is a single octet. -/
structure IsMaximalPart (part rest : Octets) : Prop where
  ne_nil : part ≠ []
  not_encode : ∀ c, ¬encode c <+: part ++ rest
  begins : Begins part ∨ part.length = 1
  longest : ∀ longer, longer <+: part ++ rest → part.length < longer.length → ¬Begins longer

/-- What octets are displayed as. -/
inductive Shows : Octets → List Char → Prop where
  | nil : Shows [] []
  /-- A character is displayed as it is. -/
  | character {rest : Octets} {text : List Char} (c : Char) :
    Shows rest text → Shows (encode c ++ rest) (c :: text)
  /-- A maximal part that is no character is displayed as one replacement character. -/
  | replaced {part rest : Octets} {text : List Char} :
    IsMaximalPart part rest → Shows rest text → Shows (part ++ rest) (replacement :: text)

/-! ## The octets of a character -/

/-- Whether octets lie in these ranges, one in each. -/
def Follow (ranges : List Range) (octets : Octets) : Prop :=
  List.Forall₂ (fun r b => r.contains b = true) ranges octets

/-- The bits of a character when more of its octets are taken. -/
def bitsAfter (bits : Nat) (octets : Octets) : Nat :=
  octets.foldl (fun bits b => 64 * bits + b.toNat % 64) bits

/-- The number of the character that a leading octet and those after it are. -/
def number (lead : UInt8) : Octets → Nat
  | [] => lead.toNat
  | b :: octets => bitsAfter (leadBits lead (octets.length + 1)) (b :: octets)

theorem number_two (lead b : UInt8) :
    number lead [b] = 64 * (lead.toNat % 32) + b.toNat % 64 := by
  simp [number, bitsAfter, leadBits]

theorem number_three (lead b c : UInt8) :
    number lead [b, c] = 64 * (64 * (lead.toNat % 16) + b.toNat % 64) + c.toNat % 64 := by
  simp [number, bitsAfter, leadBits]

theorem number_four (lead b c d : UInt8) :
    number lead [b, c, d] =
      64 * (64 * (64 * (lead.toNat % 8) + b.toNat % 64) + c.toNat % 64) + d.toNat % 64 := by
  simp [number, bitsAfter, leadBits]

theorem contains_iff {r : Range} {b : UInt8} :
    r.contains b = true ↔ r.first.toNat ≤ b.toNat ∧ b.toNat ≤ r.last.toNat := by
  simp [Range.contains, UInt8.le_iff_toNat_le]

theorem continuation_contains_iff {b : UInt8} :
    continuation.contains b = true ↔ 0x80 ≤ b.toNat ∧ b.toNat ≤ 0xBF :=
  contains_iff

/-- The table with its octets as numbers. -/
theorem followers?_eq (lead : UInt8) :
    followers? lead =
      if lead.toNat ≤ 0x7F then some []
      else if lead.toNat ≤ 0xC1 then none
      else if lead.toNat ≤ 0xDF then some [continuation]
      else if lead.toNat = 0xE0 then some [⟨0xA0, 0xBF⟩, continuation]
      else if lead.toNat = 0xED then some [⟨0x80, 0x9F⟩, continuation]
      else if lead.toNat ≤ 0xEF then some [continuation, continuation]
      else if lead.toNat = 0xF0 then some [⟨0x90, 0xBF⟩, continuation, continuation]
      else if lead.toNat ≤ 0xF3 then some [continuation, continuation, continuation]
      else if lead.toNat = 0xF4 then some [⟨0x80, 0x8F⟩, continuation, continuation]
      else none := by
  simp only [followers?, UInt8.le_iff_toNat_le, ← UInt8.toNat_inj]
  rfl

/-- An octet up to 7F is a character by itself. -/
theorem followers?_one {lead : UInt8} (h : lead.toNat ≤ 0x7F) : followers? lead = some [] := by
  rw [followers?_eq, if_pos h]

/-- A leading octet from C2 to DF has one continuation behind it. -/
theorem followers?_two {lead : UInt8} (h : 0xC2 ≤ lead.toNat) (h' : lead.toNat ≤ 0xDF) :
    followers? lead = some [continuation] := by
  rw [followers?_eq, if_neg (by omega), if_neg (by omega), if_pos h']

/-- The second octet of three keeps the number from being too small, or that of a surrogate. -/
theorem exists_followers?_three (lead : UInt8) (h : 0xE0 ≤ lead.toNat) (h' : lead.toNat ≤ 0xEF) :
    ∃ r, followers? lead = some [r, continuation] ∧ ∀ b, r.contains b = true ↔
      continuation.contains b = true ∧ 0x20 ≤ 64 * (lead.toNat % 16) + b.toNat % 64 ∧
        ¬(0x360 ≤ 64 * (lead.toNat % 16) + b.toNat % 64 ∧
          64 * (lead.toNat % 16) + b.toNat % 64 < 0x380) := by
  rw [followers?_eq, if_neg (by omega), if_neg (by omega), if_neg (by omega)]
  split
  · refine ⟨_, rfl, fun b => ?_⟩
    rw [contains_iff, continuation_contains_iff]
    simp only [UInt8.reduceToNat]
    omega
  · split
    · refine ⟨_, rfl, fun b => ?_⟩
      rw [contains_iff, continuation_contains_iff]
      simp only [UInt8.reduceToNat]
      omega
    · refine ⟨_, rfl, fun b => ?_⟩
      rw [continuation_contains_iff]
      omega

/-- The second octet of four keeps the number from being too small or too large. -/
theorem exists_followers?_four (lead : UInt8) (h : 0xF0 ≤ lead.toNat) (h' : lead.toNat ≤ 0xF4) :
    ∃ r, followers? lead = some [r, continuation, continuation] ∧ ∀ b, r.contains b = true ↔
      continuation.contains b = true ∧ 0x10 ≤ 64 * (lead.toNat % 8) + b.toNat % 64 ∧
        64 * (lead.toNat % 8) + b.toNat % 64 < 0x110 := by
  rw [followers?_eq, if_neg (by omega), if_neg (by omega), if_neg (by omega), if_neg (by omega),
    if_neg (by omega), if_neg (by omega)]
  split
  · refine ⟨_, rfl, fun b => ?_⟩
    rw [contains_iff, continuation_contains_iff]
    simp only [UInt8.reduceToNat]
    omega
  · split
    · refine ⟨_, rfl, fun b => ?_⟩
      rw [continuation_contains_iff]
      omega
    · rw [if_pos (by omega)]
      refine ⟨_, rfl, fun b => ?_⟩
      rw [contains_iff, continuation_contains_iff]
      simp only [UInt8.reduceToNat]
      omega

/-- A leading octet begins a character of one, two, three or four octets. -/
theorem lead_cases {lead : UInt8} {ranges : List Range} (h : followers? lead = some ranges) :
    lead.toNat ≤ 0x7F ∨ (0xC2 ≤ lead.toNat ∧ lead.toNat ≤ 0xDF) ∨
      (0xE0 ≤ lead.toNat ∧ lead.toNat ≤ 0xEF) ∨ 0xF0 ≤ lead.toNat ∧ lead.toNat ≤ 0xF4 := by
  rw [followers?_eq] at h
  by_contra hnot
  rw [if_neg (by omega)] at h
  split at h
  · exact nomatch h
  · rw [if_neg (by omega), if_neg (by omega), if_neg (by omega), if_neg (by omega),
      if_neg (by omega), if_neg (by omega), if_neg (by omega)] at h
    exact nomatch h

/-- The octets of a character, by the size of its number. -/
theorem encode_eq (c : Char) :
    encode c =
      if c.toNat ≤ 0x7F then [.ofNat c.toNat]
      else if c.toNat ≤ 0x7FF then [.ofNat (c.toNat / 64 % 32 + 192), .ofNat (c.toNat % 64 + 128)]
      else if c.toNat ≤ 0xFFFF then
        [.ofNat (c.toNat / 4096 % 16 + 224), .ofNat (c.toNat / 64 % 64 + 128),
          .ofNat (c.toNat % 64 + 128)]
      else
        [.ofNat (c.toNat / 262144 % 8 + 240), .ofNat (c.toNat / 4096 % 64 + 128),
          .ofNat (c.toNat / 64 % 64 + 128), .ofNat (c.toNat % 64 + 128)] := rfl

theorem toNat_ofNat {n : Nat} (h : n < 256) : (UInt8.ofNat n).toNat = n :=
  UInt8.toNat_ofNat_of_lt' h

theorem ofNat_eq {n : Nat} {b : UInt8} (h : n = b.toNat) : UInt8.ofNat n = b := by
  rw [h, UInt8.ofNat_toNat]

/-- The octet that continues a character with six bits of its number. -/
theorem toNat_continuation (n : Nat) : (UInt8.ofNat (n % 64 + 128)).toNat = n % 64 + 128 :=
  toNat_ofNat (by omega)

theorem continuation_contains_ofNat (n : Nat) :
    continuation.contains (.ofNat (n % 64 + 128)) = true := by
  rw [continuation_contains_iff, toNat_continuation]
  omega

/-- The octets of a character follow the table, and give its number. -/
theorem exists_followers?_of_encode (c : Char) :
    ∃ lead octets ranges, encode c = lead :: octets ∧ followers? lead = some ranges ∧
      Follow ranges octets ∧ number lead octets = c.toNat := by
  have hvalid : c.toNat < 0xD800 ∨ 0xDFFF < c.toNat ∧ c.toNat < 0x110000 := c.valid
  rw [encode_eq]
  split
  · next hone =>
    have hlead : (UInt8.ofNat c.toNat).toNat = c.toNat := toNat_ofNat (by omega)
    exact ⟨_, [], [], rfl, followers?_one (by omega), .nil, hlead⟩
  split
  · next hone htwo =>
    have hlead : (UInt8.ofNat (c.toNat / 64 % 32 + 192)).toNat = _ := toNat_ofNat (by omega)
    refine ⟨_, _, _, rfl, followers?_two (by omega) (by omega),
      .cons (continuation_contains_ofNat _) .nil, ?_⟩
    rw [number_two, hlead, toNat_continuation]
    omega
  split
  · next hone htwo hthree =>
    have hlead : (UInt8.ofNat (c.toNat / 4096 % 16 + 224)).toNat = _ := toNat_ofNat (by omega)
    obtain ⟨r, hf, hr⟩ := exists_followers?_three (.ofNat (c.toNat / 4096 % 16 + 224))
      (by omega) (by omega)
    refine ⟨_, _, _, rfl, hf, .cons ((hr _).2 ⟨continuation_contains_ofNat _, ?_⟩)
      (.cons (continuation_contains_ofNat _) .nil), ?_⟩
    · rw [hlead, toNat_continuation]
      omega
    · rw [number_three, hlead, toNat_continuation, toNat_continuation]
      omega
  · next hone htwo hthree =>
    have hlead : (UInt8.ofNat (c.toNat / 262144 % 8 + 240)).toNat = _ := toNat_ofNat (by omega)
    obtain ⟨r, hf, hr⟩ := exists_followers?_four (.ofNat (c.toNat / 262144 % 8 + 240))
      (by omega) (by omega)
    refine ⟨_, _, _, rfl, hf, .cons ((hr _).2 ⟨continuation_contains_ofNat _, ?_⟩)
      (.cons (continuation_contains_ofNat _) (.cons (continuation_contains_ofNat _) .nil)), ?_⟩
    · rw [hlead, toNat_continuation]
      omega
    · rw [number_four, hlead, toNat_continuation, toNat_continuation, toNat_continuation]
      omega

theorem toNat_charOfNat {n : Nat} (h : n < 0xD800 ∨ 0xDFFF < n ∧ n < 0x110000) :
    (Char.ofNat n).toNat = n := by
  have hvalid : n.isValidChar := h
  rw [Char.ofNat, dif_pos hvalid]
  rfl

/-- Octets that follow the table are those of a character. -/
theorem encode_ofNat_number {lead : UInt8} {octets : Octets} {ranges : List Range}
    (hf : followers? lead = some ranges) (ho : Follow ranges octets) :
    encode (Char.ofNat (number lead octets)) = lead :: octets := by
  rcases lead_cases hf with hone | ⟨hlow, hhigh⟩ | ⟨hlow, hhigh⟩ | ⟨hlow, hhigh⟩
  · obtain rfl := Option.some.inj (hf.symm.trans (followers?_one hone))
    obtain rfl : octets = [] := List.forall₂_nil_left_iff.1 ho
    have hn : (Char.ofNat (number lead [])).toNat = lead.toNat :=
      toNat_charOfNat (.inl (show lead.toNat < 0xD800 by omega))
    rw [encode_eq, hn, if_pos hone, UInt8.ofNat_toNat]
  · obtain rfl := Option.some.inj (hf.symm.trans (followers?_two hlow hhigh))
    obtain ⟨b, _, hb, hnil, rfl⟩ := List.forall₂_cons_left_iff.1 ho
    obtain rfl := List.forall₂_nil_left_iff.1 hnil
    rw [continuation_contains_iff] at hb
    have hn := number_two lead b
    rw [encode_eq, toNat_charOfNat (by omega), if_neg (by omega), if_pos (by omega),
      ofNat_eq (b := lead) (by omega), ofNat_eq (b := b) (by omega)]
  · obtain ⟨r, htable, hr⟩ := exists_followers?_three lead hlow hhigh
    obtain rfl := Option.some.inj (hf.symm.trans htable)
    obtain ⟨b, _, hb, hrest, rfl⟩ := List.forall₂_cons_left_iff.1 ho
    obtain ⟨c, _, hc, hnil, rfl⟩ := List.forall₂_cons_left_iff.1 hrest
    obtain rfl := List.forall₂_nil_left_iff.1 hnil
    rw [hr, continuation_contains_iff] at hb
    rw [continuation_contains_iff] at hc
    have hn := number_three lead b c
    rw [encode_eq, toNat_charOfNat (by omega), if_neg (by omega), if_neg (by omega),
      if_pos (by omega), ofNat_eq (b := lead) (by omega), ofNat_eq (b := b) (by omega),
      ofNat_eq (b := c) (by omega)]
  · obtain ⟨r, htable, hr⟩ := exists_followers?_four lead hlow hhigh
    obtain rfl := Option.some.inj (hf.symm.trans htable)
    obtain ⟨b, _, hb, hrest, rfl⟩ := List.forall₂_cons_left_iff.1 ho
    obtain ⟨c, _, hc, hlast, rfl⟩ := List.forall₂_cons_left_iff.1 hrest
    obtain ⟨d, _, hd, hnil, rfl⟩ := List.forall₂_cons_left_iff.1 hlast
    obtain rfl := List.forall₂_nil_left_iff.1 hnil
    rw [hr, continuation_contains_iff] at hb
    rw [continuation_contains_iff] at hc hd
    have hn := number_four lead b c d
    rw [encode_eq, toNat_charOfNat (by omega), if_neg (by omega), if_neg (by omega),
      if_neg (by omega), ofNat_eq (b := lead) (by omega), ofNat_eq (b := b) (by omega),
      ofNat_eq (b := c) (by omega), ofNat_eq (b := d) (by omega)]

/-- The octets of a character follow those of its leading octet. -/
theorem follow_of_encode {c : Char} {lead : UInt8} {octets : Octets} {ranges : List Range}
    (hc : encode c = lead :: octets) (hf : followers? lead = some ranges) :
    Follow ranges octets ∧ number lead octets = c.toNat := by
  obtain ⟨lead', octets', ranges', hc', hf', hfollow⟩ := exists_followers?_of_encode c
  obtain ⟨rfl, rfl⟩ := List.cons.inj (hc.symm.trans hc')
  obtain rfl := Option.some.inj (hf.symm.trans hf')
  exact hfollow

/-- Of the octets that may follow a leading octet, there is one at each place. -/
theorem follow_first {lead : UInt8} {ranges : List Range} (h : followers? lead = some ranges) :
    ∀ r ∈ ranges, r.contains r.first = true := by
  have hall : ∀ rs ∈ followers? lead, rs.all (fun r => r.contains r.first) = true := by
    unfold followers?
    repeat' split
    all_goals decide
  exact List.all_eq_true.1 (hall ranges h)

/-! ## Parts of characters -/

/-- Whether octets are the start of a character, the octets in the ranges `lacking` are still to
come, and these are the bits so far. -/
def IsBegun (part : Octets) (lacking : List Range) (bits : Nat) : Prop :=
  ∃ lead taken ranges, part = lead :: taken ∧ followers? lead = some (ranges ++ lacking) ∧
    Follow ranges taken ∧ bits = bitsAfter (leadBits lead (ranges ++ lacking).length) taken

variable {part rest : Octets} {lacking : List Range} {r : Range} {bits : Nat} {b : UInt8}

theorem isBegun_singleton (h : followers? b = some lacking) :
    IsBegun [b] lacking (leadBits b lacking.length) :=
  ⟨b, [], [], rfl, h, .nil, rfl⟩

theorem Follow.concat {ranges : List Range} {octets : Octets} (h : Follow ranges octets)
    (hb : r.contains b = true) : Follow (ranges ++ [r]) (octets ++ [b]) :=
  List.rel_append h (.cons hb .nil)

theorem bitsAfter_concat (octets : Octets) :
    bitsAfter bits (octets ++ [b]) = 64 * bitsAfter bits octets + b.toNat % 64 :=
  List.foldl_concat ..

/-- One more octet of a character is taken. -/
theorem IsBegun.concat (h : IsBegun part (r :: lacking) bits) (hb : r.contains b = true) :
    IsBegun (part ++ [b]) lacking (64 * bits + b.toNat % 64) := by
  obtain ⟨lead, taken, ranges, rfl, hf, hfollow, rfl⟩ := h
  refine ⟨lead, taken ++ [b], ranges ++ [r], rfl, ?_, hfollow.concat hb, ?_⟩
  · rw [hf, List.append_assoc, List.singleton_append]
  · rw [bitsAfter_concat, List.append_assoc, List.singleton_append]

/-- The last octet of a character is taken. -/
theorem IsBegun.encode_eq (h : IsBegun part [r] bits) (hb : r.contains b = true) :
    encode (Char.ofNat (64 * bits + b.toNat % 64)) = part ++ [b] := by
  obtain ⟨lead, taken, ranges, rfl, hf, hfollow, rfl⟩ := h
  have hall := hfollow.concat hb
  have hnumber : number lead (taken ++ [b]) =
      64 * bitsAfter (leadBits lead (ranges ++ [r]).length) taken + b.toNat % 64 := by
    rw [← bitsAfter_concat, hall.length_eq]
    cases taken <;> rfl
  rw [← hnumber, encode_ofNat_number hf hall]
  rfl

/-- What is begun can be completed. -/
theorem IsBegun.begins (h : IsBegun part lacking bits) : Begins part := by
  obtain ⟨lead, taken, ranges, rfl, hf, hfollow, -⟩ := h
  have hlast : Follow lacking (lacking.map Range.first) := by
    rw [Follow, List.forall₂_map_right_iff, List.forall₂_same]
    exact fun r hr => follow_first hf r (List.mem_append_right ranges hr)
  have hall : Follow (ranges ++ lacking) (taken ++ lacking.map Range.first) :=
    List.rel_append hfollow hlast
  refine ⟨Char.ofNat (number lead (taken ++ lacking.map Range.first)), ?_⟩
  rw [encode_ofNat_number hf hall]
  exact List.prefix_append (lead :: taken) _

/-- Characters that start with what is begun have in the ranges what it lacks. -/
theorem IsBegun.exists_encode_eq (h : IsBegun part lacking bits) {c : Char}
    (hc : part <+: encode c) : ∃ last, encode c = part ++ last ∧ Follow lacking last := by
  obtain ⟨lead, taken, ranges, rfl, hf, hfollow, -⟩ := h
  obtain ⟨last, hlast⟩ := hc
  have hall : Follow (ranges ++ lacking) (taken ++ last) := (follow_of_encode hlast.symm hf).1
  have hdrop := List.forall₂_drop ranges.length hall
  rw [List.drop_left, hfollow.length_eq, List.drop_left] at hdrop
  exact ⟨last, hlast.symm, hdrop⟩

/-- A character that stands where another is begun is no shorter than what is begun. -/
theorem IsBegun.isPrefix_encode (h : IsBegun part lacking bits) {c : Char}
    (hc : encode c <+: part ++ rest) : part <+: encode c := by
  obtain ⟨lead, taken, ranges, rfl, hf, hfollow, -⟩ := h
  refine List.prefix_of_prefix_length_le (List.prefix_append _ rest) hc ?_
  obtain ⟨lead', octets, -, henc, -⟩ := exists_followers?_of_encode c
  rw [henc] at hc ⊢
  obtain ⟨rfl, -⟩ := List.cons_prefix_cons.1 hc
  have hlength := (follow_of_encode henc hf).1.length_eq
  have hlength' := hfollow.length_eq
  rw [List.length_append] at hlength
  simp only [List.length_cons]
  omega

/-- What is begun is a maximal part if the octet behind it does not continue it. -/
theorem IsBegun.isMaximalPart (h : IsBegun part (r :: lacking) bits)
    (hrest : ∀ b, rest.head? = some b → r.contains b = false) : IsMaximalPart part rest := by
  have hlongest : ∀ longer, longer <+: part ++ rest → part.length < longer.length →
      ¬Begins longer := by
    rintro longer hlonger hlength ⟨c, hc⟩
    obtain ⟨more, rfl⟩ := List.prefix_of_prefix_length_le (List.prefix_append part rest) hlonger
      (Nat.le_of_lt hlength)
    obtain ⟨last, henc, hlast⟩ :=
      h.exists_encode_eq ((List.prefix_append part more).trans hc)
    obtain ⟨b, last, hb, -, rfl⟩ := List.forall₂_cons_left_iff.1 hlast
    -- the next octet of `longer` is that of the character, and stands behind the part
    have hmore := (List.prefix_append_right_inj part).1 hlonger
    rw [henc] at hc
    have hmore' := (List.prefix_append_right_inj part).1 hc
    cases more with
    | nil => simp at hlength
    | cons b' more =>
      obtain ⟨rfl, -⟩ := List.cons_prefix_cons.1 hmore'
      obtain ⟨behind, rfl, -⟩ := List.cons_prefix_iff.1 hmore
      rw [hrest _ rfl] at hb
      contradiction
  refine ⟨?_, ?_, .inl h.begins, hlongest⟩
  · obtain ⟨lead, taken, ranges, rfl, -⟩ := h
    exact List.cons_ne_nil lead taken
  · intro c hc
    obtain ⟨last, henc, hlast⟩ := h.exists_encode_eq (h.isPrefix_encode hc)
    have hlength := hlast.length_eq
    refine hlongest _ hc ?_ ⟨c, List.prefix_refl _⟩
    rw [henc, List.length_append, ← hlength, List.length_cons]
    omega

/-- An octet that begins no character is a maximal part by itself. -/
theorem isMaximalPart_singleton (h : followers? b = none) : IsMaximalPart [b] rest := by
  have hnone : ∀ octets, octets ≠ [] → octets <+: [b] ++ rest → ¬Begins octets := by
    rintro octets hne hoctets ⟨c, hc⟩
    obtain ⟨lead, last, ranges, henc, hf, -⟩ := exists_followers?_of_encode c
    cases octets with
    | nil => exact hne rfl
    | cons b' octets =>
      obtain ⟨rfl, -⟩ := List.cons_prefix_cons.1 hoctets
      rw [henc] at hc
      obtain ⟨rfl, -⟩ := List.cons_prefix_cons.1 hc
      rw [h] at hf
      exact nomatch hf
  refine ⟨List.cons_ne_nil b [], ?_, .inr rfl, ?_⟩
  · intro c hc
    obtain ⟨lead, last, ranges, henc, -⟩ := exists_followers?_of_encode c
    exact hnone _ (henc ▸ List.cons_ne_nil lead last) hc ⟨c, List.prefix_refl _⟩
  · intro longer hlonger hlength
    exact hnone longer (List.ne_nil_of_length_pos (Nat.zero_lt_of_lt hlength)) hlonger

/-! ## The display -/

/-- Whether a display has taken `part` of a character, which is nothing if it is between two. -/
def Display.Holds (d : Display) (part : Octets) : Prop :=
  (d.lacking = [] ∧ part = []) ∨ (d.lacking ≠ [] ∧ IsBegun part d.lacking d.bits)

/-- An octet that continues no character is displayed, or begins one. -/
theorem Display.exists_of_begin (d : Display) (b : UInt8) :
    ∃ text part, (d.begin b).shown.reverse = d.shown.reverse ++ text ∧ (d.begin b).Holds part ∧
      ∀ rest more, Shows (part ++ rest) more → Shows (b :: rest) (text ++ more) := by
  unfold begin
  split
  · next hf =>
    refine ⟨[replacement], [], List.reverse_cons, .inl ⟨rfl, rfl⟩, ?_⟩
    exact fun rest more h => .replaced (isMaximalPart_singleton hf) h
  · next hf =>
    refine ⟨[Char.ofNat b.toNat], [], List.reverse_cons, .inl ⟨rfl, rfl⟩, ?_⟩
    intro rest more h
    have henc : encode (Char.ofNat b.toNat) = [b] := encode_ofNat_number hf .nil
    have hshows := Shows.character (Char.ofNat b.toNat) h
    rw [henc] at hshows
    exact hshows
  · next ranges hne hf =>
    refine ⟨[], [b], (List.append_nil _).symm, .inr ⟨?_, isBegun_singleton hf⟩, fun _ _ h => h⟩
    rintro rfl
    exact hne rfl

/-- One octet more: what was held is displayed, or held on, or replaced. -/
theorem Display.exists_of_step {d : Display} (h : d.Holds part) (b : UInt8) :
    ∃ text next, (d.step b).shown.reverse = d.shown.reverse ++ text ∧ (d.step b).Holds next ∧
      ∀ rest more, Shows (next ++ rest) more → Shows (part ++ b :: rest) (text ++ more) := by
  rcases h with ⟨hnone, rfl⟩ | ⟨hsome, hbegun⟩
  · rw [step, hnone]
    exact d.exists_of_begin b
  · unfold step
    split
    · next hnone => exact absurd hnone hsome
    next r ranges hlacking =>
    rw [hlacking] at hbegun
    split
    · next hb =>
      cases ranges with
      | nil =>
        -- the character is complete
        refine ⟨[Char.ofNat (64 * d.bits + b.toNat % 64)], [], List.reverse_cons,
          .inl ⟨rfl, rfl⟩, ?_⟩
        intro rest more hmore
        have hshows := Shows.character (Char.ofNat (64 * d.bits + b.toNat % 64)) hmore
        rw [hbegun.encode_eq hb, List.append_assoc] at hshows
        exact hshows
      | cons next ranges =>
        refine ⟨[], part ++ [b], (List.append_nil _).symm,
          .inr ⟨List.cons_ne_nil next ranges, hbegun.concat hb⟩, ?_⟩
        intro rest more hmore
        rw [List.append_assoc] at hmore
        exact hmore
    · next hb =>
      obtain ⟨text, next, hshown, hholds, hrest⟩ := (d.put replacement).exists_of_begin b
      refine ⟨replacement :: text, next, ?_, hholds, ?_⟩
      · rw [hshown]
        show (replacement :: d.shown).reverse ++ text = _
        rw [List.reverse_cons, List.append_assoc, List.singleton_append]
      · intro rest more hmore
        have hpart : IsMaximalPart part (b :: rest) := by
          refine hbegun.isMaximalPart fun b' hb' => ?_
          obtain rfl := Option.some.inj hb'
          exact Bool.eq_false_iff.2 hb
        exact .replaced hpart (hrest rest more hmore)

/-- However far a display is, what is held and the octets to come are displayed behind what is
displayed already. -/
theorem Display.exists_of_foldl {d : Display} (h : d.Holds part) (octets : Octets) :
    ∃ text, (octets.foldl step d).finish = d.shown.reverse ++ text ∧
      Shows (part ++ octets) text := by
  induction octets generalizing d part with
  | nil =>
    rcases h with ⟨hnone, rfl⟩ | ⟨hsome, hbegun⟩
    · refine ⟨[], ?_, .nil⟩
      simp [finish, hnone]
    · obtain ⟨r, ranges, hlacking⟩ := List.exists_cons_of_ne_nil hsome
      rw [hlacking] at hbegun
      refine ⟨[replacement], ?_, .replaced (hbegun.isMaximalPart nofun) .nil⟩
      simp [finish, hlacking]
  | cons b octets ih =>
    obtain ⟨text, next, hshown, hholds, hrest⟩ := exists_of_step h b
    obtain ⟨more, hfinish, hmore⟩ := ih hholds
    refine ⟨text ++ more, ?_, hrest octets more hmore⟩
    rw [List.foldl_cons, hfinish, hshown, List.append_assoc]

/-- The display of octets is what they show. -/
theorem shows_display (octets : Octets) : Shows octets (display octets).toList := by
  have hholds : Display.Holds {} [] := .inl ⟨rfl, rfl⟩
  obtain ⟨text, hfinish, hshows⟩ := Display.exists_of_foldl hholds octets
  have htext : (display octets).toList = text := by
    rw [display, String.toList_ofList, hfinish]
    rfl
  rw [htext]
  exact hshows

/-! ## One display -/

/-- What is shown begins with a character or with a replaced part. -/
theorem Shows.cases {octets : Octets} {text : List Char} (h : Shows octets text) :
    (octets = [] ∧ text = []) ∨
      (∃ c rest more, octets = encode c ++ rest ∧ text = c :: more ∧ Shows rest more) ∨
      ∃ part rest more, octets = part ++ rest ∧ text = replacement :: more ∧
        IsMaximalPart part rest ∧ Shows rest more := by
  cases h with
  | nil => exact .inl ⟨rfl, rfl⟩
  | character c hrest => exact .inr (.inl ⟨c, _, _, rfl, rfl, hrest⟩)
  | replaced hpart hrest => exact .inr (.inr ⟨_, _, _, rfl, rfl, hpart, hrest⟩)

/-- No character is encoded as nothing. -/
theorem encode_ne_nil (c : Char) : encode c ≠ [] := by
  obtain ⟨lead, octets, -, henc, -⟩ := exists_followers?_of_encode c
  rw [henc]
  exact List.cons_ne_nil lead octets

/-- No two characters start the same octets. -/
theorem eq_of_encode_isPrefix {c d : Char} {octets : Octets} (hc : encode c <+: octets)
    (hd : encode d <+: octets) : c = d := by
  obtain ⟨lead, cs, ranges, hcs, hf, hfollow, hn⟩ := exists_followers?_of_encode c
  obtain ⟨lead', ds, -, hds, -⟩ := exists_followers?_of_encode d
  rw [hcs] at hc
  rw [hds] at hd
  obtain ⟨tail, rfl, hcs'⟩ := List.cons_prefix_iff.1 hc
  obtain ⟨rfl, hds'⟩ := List.cons_prefix_cons.1 hd
  obtain ⟨hfollow', hn'⟩ := follow_of_encode hds hf
  have hlength : cs.length = ds.length := hfollow.length_eq.symm.trans hfollow'.length_eq
  have hsame : cs = ds :=
    (List.prefix_of_prefix_length_le hcs' hds' (Nat.le_of_eq hlength)).eq_of_length hlength
  rw [← Char.toNat_inj, ← hn, ← hn', hsame]

/-- Two maximal parts of the same octets are one. -/
theorem IsMaximalPart.unique {part' rest' : Octets} (h : IsMaximalPart part rest)
    (h' : IsMaximalPart part' rest') (heq : part ++ rest = part' ++ rest') :
    part = part' ∧ rest = rest' := by
  have hle {p q r s : Octets} (hp : IsMaximalPart p r) (hq : IsMaximalPart q s)
      (heq : p ++ r = q ++ s) : q.length ≤ p.length := by
    apply Nat.le_of_not_lt
    intro hlt
    -- the longer part begins no character, so it is one octet, and the other one nothing
    have hnot := hp.longest q (heq ▸ List.prefix_append q s) hlt
    have hone := hq.begins.resolve_left hnot
    exact hp.ne_nil (List.length_eq_zero_iff.1 (by omega))
  exact List.append_inj heq (Nat.le_antisymm (hle h' h heq.symm) (hle h h' heq))

/-- Octets show one text only. -/
theorem Shows.unique {octets : Octets} {text text' : List Char} (h : Shows octets text)
    (h' : Shows octets text') : text = text' := by
  induction h generalizing text' with
  | nil =>
    rcases h'.cases with ⟨-, rfl⟩ | ⟨c, rest, more, heq, -⟩ | ⟨part, rest, more, heq, -, hpart, -⟩
    · rfl
    · exact absurd (List.append_eq_nil_iff.1 heq.symm).1 (encode_ne_nil c)
    · exact absurd (List.append_eq_nil_iff.1 heq.symm).1 hpart.ne_nil
  | character c hrest ih =>
    rcases h'.cases with ⟨heq, -⟩ | ⟨d, rest, more, heq, rfl, hmore⟩ |
      ⟨part, rest, more, heq, -, hpart, -⟩
    · exact absurd (List.append_eq_nil_iff.1 heq).1 (encode_ne_nil c)
    · obtain rfl := eq_of_encode_isPrefix (List.prefix_append (encode c) _)
        (heq ▸ List.prefix_append (encode d) rest)
      obtain rfl := List.append_cancel_left heq
      rw [ih hmore]
    · exact absurd (heq ▸ List.prefix_append (encode c) _) (hpart.not_encode c)
  | replaced hpart hrest ih =>
    rcases h'.cases with ⟨heq, -⟩ | ⟨d, rest, more, heq, -, -⟩ |
      ⟨part, rest, more, heq, rfl, hpart', hmore⟩
    · exact absurd (List.append_eq_nil_iff.1 heq).1 hpart.ne_nil
    · exact absurd (heq ▸ List.prefix_append (encode d) rest) (hpart.not_encode d)
    · obtain ⟨rfl, rfl⟩ := hpart.unique hpart' heq
      rw [ih hmore]

/-- The display of octets is the one text that they show: the characters that stand there as they
are, and one replacement character for each maximal part that is none. -/
theorem display_eq_iff (octets : Octets) (text : String) :
    display octets = text ↔ Shows octets text.toList := by
  constructor
  · rintro rfl
    exact shows_display octets
  · intro h
    exact String.toList_inj.1 ((shows_display octets).unique h)

theorem shows_encode (text : List Char) : Shows (text.flatMap encode) text := by
  induction text with
  | nil => exact .nil
  | cons c text ih => exact .character c ih

/-- A text is displayed as it is. -/
theorem display_toByteArray (text : String) : display text.toByteArray.data.toList = text := by
  have hoctets : text.toByteArray.data.toList = text.toList.flatMap encode := by
    rw [← String.utf8Encode_toList, List.utf8Encode, List.data_toByteArray]
    rfl
  rw [display_eq_iff, hoctets]
  exact shows_encode text.toList

/-- The octets of a surrogate, which are no character, and a character without its last octet. -/
example : display [97, 0xED, 0xA0, 0x80, 0xE2, 0x82, 98] = "a\uFFFD\uFFFD\uFFFD\uFFFDb" := by decide

end StreamFraming.Utf8
