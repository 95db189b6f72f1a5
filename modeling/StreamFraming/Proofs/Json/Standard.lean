import StreamFraming.Json.Standard
import StreamFraming.Proofs.Json.Value

/-!
# The library of JSON that can be run

The library `Library.standard` does all that is relied on of a library of JSON
(`Library.standard_lawful`). Of its reader of texts this says `Value.parse?_eq_some_iff`; what is
left are the readers of single values.
-/

namespace StreamFraming.Json

theorem bool?_eq_some_iff {v : Value} {b : Bool} : bool? v = some b ↔ v = .bool b := by
  cases v with
  | bool c => rw [bool?, Option.some.injEq, Value.bool.injEq]
  | null | number | string | array | object => exact ⟨nofun, nofun⟩

theorem natural?_eq_some_iff {v : Value} {n : Nat} :
    natural? v = some n ↔ v = .number (some n) := by
  cases v with
  | number value => rw [natural?, Value.number.injEq]
  | null | bool | string | array | object => exact ⟨nofun, nofun⟩

/-- A name is found among the names if it is one of them. -/
theorem oneOf?_eq_some_iff {names : List String} {name name' : String} :
    oneOf? names name = some name' ↔ name ∈ names ∧ name = name' := by
  unfold oneOf?
  split
  · next h => simp [h]
  · next h => simp [h]

/-- A variant is read from its name, or from a record whose one member has that name and nothing in
it. -/
theorem variant?_eq_some_iff {names : List String} {v : Value} {name : String} :
    variant? names v = some name ↔
      name ∈ names ∧ (v = .string (some name) ∨ v = .object [(some name, .null)]) := by
  constructor
  · intro h
    unfold variant? at h
    split at h
    · obtain ⟨hmem, rfl⟩ := oneOf?_eq_some_iff.1 h
      exact ⟨hmem, .inl rfl⟩
    · obtain ⟨hmem, rfl⟩ := oneOf?_eq_some_iff.1 h
      exact ⟨hmem, .inr rfl⟩
    · exact nomatch h
  · rintro ⟨hmem, rfl | rfl⟩
    · exact oneOf?_eq_some_iff.2 ⟨hmem, rfl⟩
    · exact oneOf?_eq_some_iff.2 ⟨hmem, rfl⟩

/-- An object gives a key one value if it has one member with that key. -/
theorem uniqueValue?_eq_some_iff {members : List (Option String × Value)} {key : String}
    {v : Value} :
    uniqueValue? members key = some v ↔ members.filter (hasKey key) = [(some key, v)] := by
  rw [uniqueValue?, valuesOf]
  constructor
  · intro h
    split at h
    · next w hw =>
      obtain rfl := Option.some.inj h
      obtain ⟨m, hm, rfl⟩ := List.map_eq_singleton_iff.1 hw
      have hmem : m ∈ members.filter (hasKey key) := hm ▸ List.mem_singleton_self m
      have hkey : m.1 = some key := decide_eq_true_iff.1 (List.mem_filter.1 hmem).2
      rw [hm, ← hkey]
    · exact nomatch h
  · intro h
    rw [h]
    rfl

/-- Values are found of all names if one is found of each. -/
theorem mapM_eq_some_iff {α β : Type} {f : α → Option β} {xs : List α} {ys : List β} :
    xs.mapM f = some ys ↔ List.Forall₂ (fun x y => f x = some y) xs ys := by
  induction xs generalizing ys with
  | nil =>
    rw [List.mapM_nil, List.forall₂_nil_left_iff]
    exact ⟨fun h => (Option.some.inj h).symm, fun h => h ▸ rfl⟩
  | cons x xs ih =>
    simp only [List.mapM_cons, Option.bind_eq_bind, Option.bind_eq_some_iff, Option.pure_def,
      Option.some.injEq, List.forall₂_cons_left_iff, ih]
    constructor
    · rintro ⟨y, hy, ys', hys, rfl⟩
      exact ⟨y, ys', hy, hys, rfl⟩
    · rintro ⟨y, ys', hy, hys, rfl⟩
      exact ⟨y, hy, ys', hys, rfl⟩

/-- An array is read as fields by position, if there are as many items as names. -/
theorem fields?_array_eq_some_iff {names : List String} {items values : List Value} :
    fields? names (.array items) = some values ↔
      values = items ∧ items.length = names.length := by
  rw [fields?]
  split
  · next h => simp [h, eq_comm]
  · next h => simp [h]

/-- An object is read as fields by name, if each name belongs to exactly one member. -/
theorem fields?_object_eq_some_iff {names : List String}
    {members : List (Option String × Value)} {values : List Value} :
    fields? names (.object members) = some values ↔
      (∀ m ∈ members, m.1 ≠ none) ∧
        List.Forall₂ (fun name v => members.filter (hasKey name) = [(some name, v)])
          names values := by
  simp only [← uniqueValue?_eq_some_iff, ← mapM_eq_some_iff]
  have htext : (members.all fun m => m.1.isSome) = true ↔ ∀ m ∈ members, m.1 ≠ none := by
    simp only [List.all_eq_true, Option.isSome_iff_ne_none]
  rw [← htext, fields?]
  split
  · next h => simp [h]
  · next h => simp [h]

theorem fields?_eq_none {names : List String} {v : Value} (harray : ∀ items, v ≠ .array items)
    (hobject : ∀ members, v ≠ .object members) : fields? names v = none := by
  cases v with
  | array items => exact absurd rfl (harray items)
  | object members => exact absurd rfl (hobject members)
  | null | bool | number | string => rfl

/-- The library that can be run does what is relied on. -/
theorem Library.standard_lawful : Library.standard.Lawful where
  isText_of_parse? := Value.parse?_eq_some_iff.1
  parse?_of_isText := Value.parse?_eq_some_iff.2
  bool?_iff := bool?_eq_some_iff
  natural?_iff := natural?_eq_some_iff
  variant?_iff := variant?_eq_some_iff
  fields?_array := fields?_array_eq_some_iff
  fields?_object _ := fields?_object_eq_some_iff
  fields?_other := fields?_eq_none
  writeBool_eq _ := rfl
  writeNatural_eq _ := rfl
  writeVariant_eq _ := rfl
  writeFields_eq _ := rfl

end StreamFraming.Json
