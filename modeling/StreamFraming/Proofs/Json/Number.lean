import Mathlib.Data.List.TakeWhile
import StreamFraming.Json.Layout
import StreamFraming.Json.Reader

/-!
# Reading numbers

A number of a JSON text is read from what `Decimal.chars`, `Fraction` and `Exponent` spell, and
from nothing else (`readUnsigned?_spelled`, `exists_of_readUnsigned?`). A number has no end of its
own, so what stands after it must not go on with it (`EndsNumber`). Since a number of more than one
digit does not start with zero, its digits are those in which its value is written
(`Decimal.digits_value`).
-/

namespace StreamFraming

namespace Decimal

/-! ## Digits -/

/-- Digits without a leading zero stand for a positive number. -/
theorem value_pos {ds : List Nat} (h : ds ≠ []) (hz : ds.head? ≠ some 0) : 0 < value ds := by
  cases ds with
  | nil => contradiction
  | cons d ds =>
    have hd : d ≠ 0 := fun hd => hz (congrArg some hd)
    have hle : 10 * 0 + d ≤ value (d :: ds) := le_foldl (10 * 0 + d) ds
    omega

/-- Digits without a leading zero are those in which the number that they denote is written. -/
theorem digits_value {ds : List Nat} (hne : ds ≠ []) (hten : ∀ d ∈ ds, d < 10)
    (hzero : ds.head? = some 0 → ds = [0]) : digits (value ds) = ds := by
  induction hlen : ds.length generalizing ds with
  | zero => exact absurd (List.length_eq_zero_iff.1 hlen) hne
  | succ n ih =>
    obtain ⟨front, d, rfl⟩ : ∃ front d, ds = front ++ [d] :=
      ⟨ds.dropLast, ds.getLast hne, (List.dropLast_concat_getLast hne).symm⟩
    have hd : d < 10 := hten d (List.mem_append_right front (List.mem_singleton_self d))
    rw [value_append_singleton]
    by_cases hfront : front = []
    · subst hfront
      rw [value_nil, Nat.mul_zero, Nat.zero_add, digits, if_pos hd, List.nil_append]
    · -- there is another digit before the last one, and so the first one is not zero
      have hnonzero : front.head? ≠ some 0 := by
        intro h
        have hhead : (front ++ [d]).head? = some 0 := by rw [List.head?_append, h, Option.some_or]
        have hlength := congrArg List.length (hzero hhead)
        rw [List.length_append] at hlength
        exact hfront (List.length_eq_zero_iff.1 (Nat.succ.inj hlength))
      have hpos := value_pos hfront hnonzero
      have hdiv : (10 * value front + d) / 10 = value front := by omega
      have hmod : (10 * value front + d) % 10 = d := by omega
      have hlength : front.length = n := by
        rw [List.length_append] at hlen
        exact Nat.succ.inj hlen
      have hfront' : digits (value front) = front :=
        ih hfront (fun c hc => hten c (List.mem_append_left [d] hc)) (fun h => absurd h hnonzero)
          hlength
      rw [digits, if_neg (by omega), hdiv, hmod, hfront']

/-- A number is read from its digits if it is below the bound. -/
theorem readBelow?_digits (n : Nat) :
    readBelow? wordLimit (digits n) = if n < wordLimit then some n else none := by
  have hbound : 0 < wordLimit := by decide
  split
  · next h => exact (readBelow?_eq_some_iff hbound).2 ⟨value_digits n, h⟩
  · next h =>
    rw [readBelow?_eq_none_iff hbound, value_digits]
    exact Nat.le_of_not_lt h

/-! ## Characters -/

theorem isDigit_iff {c : Char} : c.isDigit = true ↔ 48 ≤ c.toNat ∧ c.toNat ≤ 57 := by
  simp only [Char.isDigit, Bool.and_eq_true, decide_eq_true_eq, ge_iff_le, UInt32.le_iff_toNat_le]
  rfl

theorem toNat_ofNat_digit {d : Nat} (h : d < 10) : (Char.ofNat (48 + d)).toNat = 48 + d := by
  have hvalid : (48 + d).isValidChar := Or.inl (by omega)
  rw [Char.ofNat, dif_pos hvalid]
  rfl

/-- A number is written with digits only. -/
theorem isDigit_of_mem_chars {n : Nat} {c : Char} (h : c ∈ chars n) : c.isDigit = true := by
  obtain ⟨d, hd, rfl⟩ := List.mem_map.1 h
  have hten := lt_ten_of_mem_digits hd
  rw [isDigit_iff, toNat_ofNat_digit hten]
  omega

theorem chars_ne_nil (n : Nat) : chars n ≠ [] := by
  intro h
  exact digits_ne_nil n (List.map_eq_nil_iff.1 h)

/-- The written form of a number starts with a digit. -/
theorem exists_chars_eq_cons (n : Nat) : ∃ c more, chars n = c :: more ∧ c.isDigit = true := by
  obtain ⟨c, more, h⟩ := List.exists_cons_of_ne_nil (chars_ne_nil n)
  exact ⟨c, more, h, isDigit_of_mem_chars (h ▸ List.mem_cons_self)⟩

/-- The digits of a number are read back from its characters. -/
theorem map_chars (n : Nat) : (chars n).map (fun c => c.toNat - 48) = digits n := by
  have hdigit : ∀ d ∈ digits n, (Char.ofNat (48 + d)).toNat - 48 = d := by
    intro d hd
    rw [toNat_ofNat_digit (lt_ten_of_mem_digits hd), Nat.add_sub_cancel_left]
  rw [chars, List.map_map]
  exact (List.map_congr_left hdigit).trans (List.map_id' _)

/-- Digits without a leading zero are the characters of a number. -/
theorem exists_chars_eq {text : List Char} (hne : text ≠ [])
    (hdigit : ∀ c ∈ text, c.isDigit = true) (hzero : text.head? = some '0' → text = ['0']) :
    ∃ n, text = chars n := by
  have hback : ∀ c ∈ text, Char.ofNat (48 + (c.toNat - 48)) = c := by
    intro c hc
    have hrange := isDigit_iff.1 (hdigit c hc)
    rw [Nat.add_sub_of_le hrange.1, Char.ofNat_toNat]
  refine ⟨value (text.map fun c => c.toNat - 48), ?_⟩
  rw [chars, digits_value, List.map_map]
  · exact ((List.map_congr_left hback).trans (List.map_id' _)).symm
  · exact fun h => hne (List.map_eq_nil_iff.1 h)
  · intro d hd
    obtain ⟨c, hc, rfl⟩ := List.mem_map.1 hd
    have hrange := isDigit_iff.1 (hdigit c hc)
    omega
  · intro h
    -- the first digit is zero, and so its character is
    cases text with
    | nil => contradiction
    | cons c text =>
      have hc := hback c List.mem_cons_self
      have hvalue : c.toNat - 48 = 0 := Option.some.inj h
      rw [hvalue] at hc
      rw [hzero (congrArg some hc.symm)]
      rfl

/-- Only zero is written with a zero first. -/
theorem chars_eq_of_head? {n : Nat} (h : (chars n).head? = some '0') : chars n = ['0'] := by
  rw [chars, List.head?_map, Option.map_eq_some_iff] at h
  obtain ⟨d, hd, hzero⟩ := h
  have hten := lt_ten_of_mem_digits (List.mem_of_head? hd)
  have hvalue := congrArg Char.toNat hzero
  rw [toNat_ofNat_digit hten] at hvalue
  obtain rfl : d = 0 := Nat.add_left_cancel hvalue
  rw [head?_digits_eq_zero hd, chars, digits, if_pos (by decide)]
  rfl

end Decimal

namespace Json

/-! ## Runs of characters -/

/-- Characters of a class are all read if what follows them is not of the class. -/
theorem takeWhile_append_of_stop {p : Char → Bool} {text rest : List Char}
    (h : ∀ c ∈ text, p c = true) (hr : ∀ c ∈ rest.head?, p c = false) :
    (text ++ rest).takeWhile p = text := by
  rw [List.takeWhile_append_of_pos h]
  cases rest with
  | nil => exact List.append_nil text
  | cons c rest =>
    rw [List.takeWhile_cons_of_neg (Bool.eq_false_iff.1 (hr c rfl)), List.append_nil]

/-- What is dropped ends with the first part if the second does not go on with it. -/
theorem dropWhile_append_of_stop {p : Char → Bool} {text rest : List Char}
    (h : ∀ c ∈ text, p c = true) (hr : ∀ c ∈ rest.head?, p c = false) :
    (text ++ rest).dropWhile p = rest := by
  rw [List.dropWhile_append_of_pos h]
  cases rest with
  | nil => rfl
  | cons c rest => rw [List.dropWhile_cons_of_neg (Bool.eq_false_iff.1 (hr c rfl))]

/-! ## The parts of a number -/

/-- Whether a number may go on with a character. -/
def goesOn (c : Char) : Bool := c.isDigit || c = '.' || c = 'e' || c = 'E'

/-- Whether a number ends where this text follows it. -/
def EndsNumber (rest : List Char) : Prop := ∀ c ∈ rest.head?, goesOn c = false

theorem goesOn_eq_false_iff {c : Char} :
    goesOn c = false ↔ c.isDigit = false ∧ c ≠ '.' ∧ c ≠ 'e' ∧ c ≠ 'E' := by
  simp only [goesOn, Bool.or_eq_false_iff, decide_eq_false_iff_not, and_assoc]

/-- A number is over where neither a fraction nor an exponent follows. -/
theorem isContinued_eq_false {rest : List Char} (hdot : rest.head? ≠ some '.')
    (hmark : ∀ c ∈ rest.head?, ¬(c = 'e' ∨ c = 'E')) : isContinued rest = false := by
  have he : rest.head? ≠ some 'e' := fun h => hmark 'e' h (.inl rfl)
  have hE : rest.head? ≠ some 'E' := fun h => hmark 'E' h (.inr rfl)
  simp only [isContinued, hdot, he, hE, decide_false, Bool.or_false]

theorem EndsNumber.isContinued_eq_false {rest : List Char} (h : EndsNumber rest) :
    isContinued rest = false := by
  apply Json.isContinued_eq_false
  · exact fun hdot => (goesOn_eq_false_iff.1 (h '.' hdot)).2.1 rfl
  · intro c hc
    obtain ⟨-, -, he, hE⟩ := goesOn_eq_false_iff.1 (h c hc)
    exact not_or.2 ⟨he, hE⟩

/-- All of the digits are skipped, and nothing behind them. -/
theorem skipDigits?_append {digits rest : List Char} (h : AreDigits digits)
    (hr : ∀ c ∈ rest.head?, c.isDigit = false) : skipDigits? (digits ++ rest) = some rest := by
  rw [skipDigits?, takeWhile_append_of_stop h.2 hr, if_neg h.1, dropWhile_append_of_stop h.2 hr]

/-- What is skipped as digits consists of digits. -/
theorem exists_of_skipDigits? {text rest : List Char} (h : skipDigits? text = some rest) :
    ∃ digits, AreDigits digits ∧ text = digits ++ rest := by
  rw [skipDigits?] at h
  split at h
  · cases h
  · next hne =>
    injection h with h
    refine ⟨text.takeWhile Char.isDigit, ⟨hne, fun c => List.mem_takeWhile_imp⟩, ?_⟩
    rw [← h, List.takeWhile_append_dropWhile]

theorem skipFraction?_append {fraction rest : List Char} (h : Fraction fraction)
    (hr : ∀ c ∈ rest.head?, c.isDigit = false ∧ c ≠ '.') :
    skipFraction? (fraction ++ rest) = some rest := by
  cases h with
  | absent =>
    cases rest with
    | nil => rfl
    | cons c rest => exact if_neg (hr c rfl).2
  | present hd => exact skipDigits?_append hd fun c hc => (hr c hc).1

/-- What is read as a fraction is one, and where there is none no point follows. -/
theorem exists_of_skipFraction? {text rest : List Char} (h : skipFraction? text = some rest) :
    ∃ fraction, Fraction fraction ∧ text = fraction ++ rest ∧
      (fraction = [] → rest.head? ≠ some '.') := by
  cases text with
  | nil =>
    injection h with h
    subst h
    exact ⟨[], .absent, rfl, fun _ => nofun⟩
  | cons c text =>
    rw [skipFraction?] at h
    split at h
    · next hc =>
      subst hc
      obtain ⟨digits, hdigits, rfl⟩ := exists_of_skipDigits? h
      exact ⟨'.' :: digits, .present hdigits, rfl, fun h => absurd h (List.cons_ne_nil _ _)⟩
    · next hc =>
      injection h with h
      subst h
      exact ⟨[], .absent, rfl, fun _ h => hc (Option.some.inj h)⟩

theorem skipSign_of_isDigit {c : Char} {rest : List Char} (h : c.isDigit = true) :
    skipSign (c :: rest) = c :: rest := by
  apply if_neg
  rintro (rfl | rfl)
  · exact absurd h (by decide)
  · exact absurd h (by decide)

theorem skipExponent?_append {exponent rest : List Char} (h : Exponent exponent)
    (hr : EndsNumber rest) : skipExponent? (exponent ++ rest) = some rest := by
  have hdigit : ∀ c ∈ rest.head?, c.isDigit = false :=
    fun c hc => (goesOn_eq_false_iff.1 (hr c hc)).1
  cases h with
  | absent =>
    cases rest with
    | nil => rfl
    | cons c rest =>
      obtain ⟨-, -, he, hE⟩ := goesOn_eq_false_iff.1 (hr c rfl)
      exact if_neg (not_or.2 ⟨he, hE⟩)
  | @unsigned e digits he hd =>
    have hsign : skipSign (digits ++ rest) = digits ++ rest := by
      cases digits with
      | nil => exact absurd rfl hd.1
      | cons c digits => exact skipSign_of_isDigit (hd.2 c List.mem_cons_self)
    rw [List.cons_append, skipExponent?, if_pos he, hsign]
    exact skipDigits?_append hd hdigit
  | @signed e sign digits he hs hd =>
    rw [List.cons_append, List.cons_append, skipExponent?, if_pos he, skipSign, if_pos hs]
    exact skipDigits?_append hd hdigit

/-- What is read as an exponent is one, and where there is none no mark of one follows. -/
theorem exists_of_skipExponent? {text rest : List Char} (h : skipExponent? text = some rest) :
    ∃ exponent, Exponent exponent ∧ text = exponent ++ rest ∧
      (exponent = [] → ∀ c ∈ rest.head?, ¬(c = 'e' ∨ c = 'E')) := by
  cases text with
  | nil =>
    injection h with h
    subst h
    exact ⟨[], .absent, rfl, fun _ => nofun⟩
  | cons e text =>
    rw [skipExponent?] at h
    split at h
    · next he =>
      obtain ⟨digits, hdigits, htext⟩ := exists_of_skipDigits? h
      cases text with
      | nil =>
        rw [skipSign] at htext
        exact absurd (List.append_eq_nil_iff.1 htext.symm).1 hdigits.1
      | cons s text =>
        rw [skipSign] at htext
        split at htext
        · next hs =>
          subst htext
          refine ⟨e :: s :: digits, .signed he hs hdigits, rfl, ?_⟩
          exact fun h => absurd h (List.cons_ne_nil _ _)
        · rw [htext]
          exact ⟨e :: digits, .unsigned he hdigits, rfl, fun h => absurd h (List.cons_ne_nil _ _)⟩
    · next he =>
      injection h with h
      subst h
      refine ⟨[], .absent, rfl, ?_⟩
      rintro - c hc
      obtain rfl := Option.some.inj hc
      exact he

/-! ## Numbers -/

/-- The value that a token keeps of a number. -/
def kept (negative : Bool) (whole : Nat) (fraction exponent : List Char) : Option Nat :=
  if negative = true ∨ fraction ≠ [] ∨ exponent ≠ [] then none
  else if whole < Decimal.wordLimit then some whole else none

/-- Digits alone keep the number that they write, if it fits a word. -/
theorem kept_natural {n : Nat} (h : n < Decimal.wordLimit) : kept false n [] [] = some n := by
  simp [kept, h]

/-- A sign, a fraction, an exponent or too large a number keeps nothing. -/
theorem kept_eq_none {negative : Bool} {whole : Nat} {fraction exponent : List Char}
    (h : negative = true ∨ fraction ≠ [] ∨ exponent ≠ [] ∨ Decimal.wordLimit ≤ whole) :
    kept negative whole fraction exponent = none := by
  unfold kept
  split
  · rfl
  · next hne =>
    obtain ⟨hnegative, hne⟩ := not_or.1 hne
    obtain ⟨hfraction, hexponent⟩ := not_or.1 hne
    have hwhole := ((h.resolve_left hnegative).resolve_left hfraction).resolve_left hexponent
    exact if_neg (Nat.not_lt_of_le hwhole)

/-- Whether a number is continued can be seen behind its digits. -/
theorem isContinued_append {fraction exponent rest : List Char} (hf : Fraction fraction)
    (hx : Exponent exponent) (hr : fraction = [] → exponent = [] → isContinued rest = false) :
    isContinued (fraction ++ (exponent ++ rest)) = decide (fraction ≠ [] ∨ exponent ≠ []) := by
  cases hf with
  | present hd => rfl
  | absent =>
    cases hx with
    | absent => exact hr rfl rfl
    | unsigned he hd => rcases he with rfl | rfl <;> rfl
    | signed he hs hd => rcases he with rfl | rfl <;> rfl

/-- Neither an exponent nor what ends a number goes on with the digits of a fraction. -/
theorem not_isDigit_of_exponent {exponent rest : List Char} (h : Exponent exponent)
    (hr : EndsNumber rest) : ∀ c ∈ (exponent ++ rest).head?, c.isDigit = false ∧ c ≠ '.' := by
  have mark {c : Char} (hc : c = 'e' ∨ c = 'E') : c.isDigit = false ∧ c ≠ '.' := by
    rcases hc with rfl | rfl <;> decide
  intro c hc
  cases h with
  | absent =>
    obtain ⟨hdigit, hdot, -, -⟩ := goesOn_eq_false_iff.1 (hr c hc)
    exact ⟨hdigit, hdot⟩
  | unsigned he hd => exact Option.some.inj hc ▸ mark he
  | signed he hs hd => exact Option.some.inj hc ▸ mark he

theorem not_isDigit_of_fraction {fraction rest : List Char} (h : Fraction fraction)
    (hr : ∀ c ∈ rest.head?, c.isDigit = false ∧ c ≠ '.') :
    ∀ c ∈ (fraction ++ rest).head?, c.isDigit = false := by
  intro c hc
  cases h with
  | absent => exact (hr c hc).1
  | present hd =>
    obtain rfl := Option.some.inj hc
    rfl

/-- A number is read up to its end. -/
theorem readUnsigned?_spelled {fraction exponent rest : List Char} (negative : Bool) (whole : Nat)
    (hf : Fraction fraction) (hx : Exponent exponent) (hr : EndsNumber rest) :
    readUnsigned? negative (Decimal.chars whole ++ (fraction ++ (exponent ++ rest))) =
      some (.number (kept negative whole fraction exponent), rest) := by
  have hexponent := not_isDigit_of_exponent hx hr
  have hfraction := not_isDigit_of_fraction hf hexponent
  have hdigits : ∀ c ∈ Decimal.chars whole, c.isDigit = true :=
    fun c => Decimal.isDigit_of_mem_chars
  have hwhole : ¬(Decimal.chars whole = [] ∨
      (Decimal.chars whole).head? = some '0' ∧ Decimal.chars whole ≠ ['0']) := by
    rintro (h | ⟨h, hne⟩)
    · exact Decimal.chars_ne_nil whole h
    · exact hne (Decimal.chars_eq_of_head? h)
  simp only [readUnsigned?, takeWhile_append_of_stop hdigits hfraction,
    dropWhile_append_of_stop hdigits hfraction, if_neg hwhole, Decimal.map_chars,
    Decimal.readBelow?_digits, isContinued_append hf hx fun _ _ => hr.isContinued_eq_false,
    skipFraction?_append hf hexponent, Option.bind_some, skipExponent?_append hx hr,
    Option.map_some, kept, Bool.or_eq_true, decide_eq_true_eq]

/-- What is read as a number is one. -/
theorem exists_of_readUnsigned? {negative : Bool} {text rest : List Char} {t : Token}
    (h : readUnsigned? negative text = some (t, rest)) :
    ∃ whole fraction exponent, Fraction fraction ∧ Exponent exponent ∧
      text = Decimal.chars whole ++ (fraction ++ (exponent ++ rest)) ∧
      t = .number (kept negative whole fraction exponent) := by
  rw [readUnsigned?] at h
  dsimp only at h
  split at h
  · cases h
  · next hwhole =>
    obtain ⟨hne, hzero⟩ := not_or.1 hwhole
    obtain ⟨rest', hskip, ht⟩ := Option.map_eq_some_iff.1 h
    obtain ⟨middle, hfraction, hexponent⟩ := Option.bind_eq_some_iff.1 hskip
    obtain ⟨rfl, rfl⟩ := Prod.mk.inj ht
    obtain ⟨fraction, hf, hdrop, hdot⟩ := exists_of_skipFraction? hfraction
    obtain ⟨exponent, hx, rfl, hmark⟩ := exists_of_skipExponent? hexponent
    obtain ⟨whole, htake⟩ := Decimal.exists_chars_eq hne (fun c => List.mem_takeWhile_imp)
      (fun h => Classical.not_not.1 fun hne => hzero ⟨h, hne⟩)
    refine ⟨whole, fraction, exponent, hf, hx, ?_, ?_⟩
    · rw [← htake, ← hdrop, List.takeWhile_append_dropWhile]
    · have hend : fraction = [] → exponent = [] → isContinued rest' = false := by
        rintro rfl rfl
        exact isContinued_eq_false (hdot rfl) (hmark rfl)
      rw [hdrop, isContinued_append hf hx hend, htake, Decimal.map_chars,
        Decimal.readBelow?_digits]
      simp only [kept, Bool.or_eq_true, decide_eq_true_eq]

end Json

end StreamFraming
