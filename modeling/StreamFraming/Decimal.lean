/-!
# Decimal numbers

Numbers and their decimal digits, on lists of digit values with the most significant first,
so that octets and characters share one reader and one writer.

* `value` is the number that digits denote, whatever its size;
* `readBelow?` reads the same number and gives up at the first digit that takes it to a
  bound, so that a long run of digits costs no more than its length;
* `digits` writes a number without leading zeros.

The main statements are that `readBelow?` succeeds exactly on the numbers below its bound
and that `value` undoes `digits`.
-/

namespace StreamFraming.Decimal

/-- The number of values of a 64-bit word, the bound of every number read from a stream. -/
def wordLimit : Nat := UInt64.size

/-- The number that decimal digits denote. -/
def value (ds : List Nat) : Nat := ds.foldl (fun n d => 10 * n + d) 0

/-- Reads on from the number `n` that the digits before have denoted. -/
def readFrom? (bound : Nat) : Nat → List Nat → Option Nat
  | n, [] => some n
  | n, d :: ds => if 10 * n + d < bound then readFrom? bound (10 * n + d) ds else none

/-- The number that decimal digits denote, if it is below `bound`. -/
def readBelow? (bound : Nat) (ds : List Nat) : Option Nat := readFrom? bound 0 ds

/-- The decimal digits of a number, without leading zeros. -/
def digits (n : Nat) : List Nat :=
  if n < 10 then [n] else digits (n / 10) ++ [n % 10]

/-- The decimal characters of a number. -/
def chars (n : Nat) : List Char := (digits n).map fun d => Char.ofNat (48 + d)

/-- The decimal text of a number. -/
def text (n : Nat) : String := String.ofList (chars n)

/-! ## Reading -/

@[simp] theorem value_nil : value [] = 0 := rfl

/-- One more digit multiplies the value by ten and adds itself. -/
theorem value_append_singleton (ds : List Nat) (d : Nat) :
    value (ds ++ [d]) = 10 * value ds + d := by
  simp [value]

/-- The accumulated value never shrinks, so a bound once passed stays passed. -/
theorem le_foldl (n : Nat) (ds : List Nat) : n ≤ ds.foldl (fun n d => 10 * n + d) n := by
  induction ds generalizing n with
  | nil => exact Nat.le_refl n
  | cons d ds ih => exact Nat.le_trans (by omega) (ih (10 * n + d))

/-- The reader that stops at the bound gives the accumulated value exactly when that value stays
below it. -/
theorem readFrom?_eq_some_iff {bound n m : Nat} {ds : List Nat} (hn : n < bound) :
    readFrom? bound n ds = some m ↔ ds.foldl (fun n d => 10 * n + d) n = m ∧ m < bound := by
  induction ds generalizing n with
  | nil =>
    simp only [readFrom?, List.foldl_nil, Option.some.injEq]
    exact ⟨fun h => ⟨h, h ▸ hn⟩, fun h => h.1⟩
  | cons d ds ih =>
    simp only [readFrom?, List.foldl_cons]
    split
    · next h => exact ih h
    · next h =>
      have := le_foldl (10 * n + d) ds
      exact ⟨nofun, fun ⟨h₁, h₂⟩ => by omega⟩

/-- Digits are read exactly when the number they denote is below the bound. -/
theorem readBelow?_eq_some_iff {bound n : Nat} {ds : List Nat} (h : 0 < bound) :
    readBelow? bound ds = some n ↔ value ds = n ∧ n < bound :=
  readFrom?_eq_some_iff h

/-- Reading gives up exactly when the number that all digits denote reaches the bound. -/
theorem readBelow?_eq_none_iff {bound : Nat} {ds : List Nat} (h : 0 < bound) :
    readBelow? bound ds = none ↔ bound ≤ value ds := by
  rw [Option.eq_none_iff_forall_ne_some]
  constructor
  · intro hnone
    apply Nat.le_of_not_lt
    intro hlt
    exact hnone (value ds) ((readBelow?_eq_some_iff h).2 ⟨rfl, hlt⟩)
  · intro hle n hn
    obtain ⟨hvalue, hlt⟩ := (readBelow?_eq_some_iff h).1 hn
    omega

/-! ## Writing -/

theorem digits_ne_nil (n : Nat) : digits n ≠ [] := by
  rw [digits]
  split <;> simp

/-- Every digit of the written form is a decimal digit. -/
theorem lt_ten_of_mem_digits {n d : Nat} (h : d ∈ digits n) : d < 10 := by
  induction n using digits.induct with
  | case1 n hn =>
    rw [digits, if_pos hn] at h
    simp only [List.mem_singleton] at h
    omega
  | case2 n hn ih =>
    rw [digits, if_neg hn] at h
    rcases List.mem_append.1 h with h | h
    · exact ih h
    · simp only [List.mem_singleton] at h
      omega

/-- The digits of a number denote it. -/
@[simp] theorem value_digits (n : Nat) : value (digits n) = n := by
  induction n using digits.induct with
  | case1 n hn => simp [digits, hn, value]
  | case2 n hn ih =>
    rw [digits, if_neg hn, value_append_singleton, ih]
    omega

/-- A number is written without leading zeros: zero alone starts with the digit zero. -/
theorem head?_digits_eq_zero {n : Nat} (h : (digits n).head? = some 0) : n = 0 := by
  induction n using digits.induct with
  | case1 n hn => simpa [digits, hn] using h
  | case2 n hn ih =>
    rw [digits, if_neg hn, List.head?_append] at h
    cases hd : (digits (n / 10)).head? with
    | none => exact absurd (List.head?_eq_none_iff.1 hd) (digits_ne_nil _)
    | some d =>
      rw [hd, Option.some_or] at h
      have := ih (hd.trans h)
      omega

end StreamFraming.Decimal
