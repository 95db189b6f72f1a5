import StreamFraming.Json.Codec
import StreamFraming.Proofs.Json.Standard

/-!
# Reading and writing records

Whatever library does what is relied on, with it options, progress, kinds and declarations
round-trip. That rests on one fact about the fields of a record, `Library.Lawful.fields?_iff`: they
are found in exactly those values that list them. An object is known to be read if each field occurs
in it once; that these are the objects in which the fields stand in any order, among others, is
proved by taking the fields' members out of it one after the other.

What is written is a text of the object of the fields (`isText_writeFields`), so it is read back
because every text of a form is.
-/

namespace StreamFraming

namespace Json

/-! ## The fields of a record -/

theorem hasKey_iff {key : String} {m : Option String × Value} :
    hasKey key m = true ↔ m.1 = some key :=
  decide_eq_true_iff

/-- The members of fields of which none has the key. -/
theorem filter_map_member_eq_nil {fields : List (String × Value)} {key : String}
    (h : key ∉ fields.map Prod.fst) : (fields.map member).filter (hasKey key) = [] := by
  rw [List.filter_eq_nil_iff]
  intro m hm hkey
  obtain ⟨field, hfield, rfl⟩ := List.mem_map.1 hm
  exact h (List.mem_map.2 ⟨field, hfield, Option.some.inj (hasKey_iff.1 hkey)⟩)

/-- Among the members of fields, only a field's own has its key. -/
theorem filter_map_member {fields : List (String × Value)} {field : String × Value}
    (hnodup : (fields.map Prod.fst).Nodup) (h : field ∈ fields) :
    (fields.map member).filter (hasKey field.1) = [member field] := by
  induction fields with
  | nil => exact nomatch h
  | cons other fields ih =>
    obtain ⟨hother, hnodup⟩ := List.nodup_cons.1 hnodup
    rw [List.map_cons]
    rcases List.mem_cons.1 h with rfl | hmem
    · rw [List.filter_cons_of_pos (hasKey_iff.2 rfl), filter_map_member_eq_nil hother]
    · have hne : ¬hasKey field.1 (member other) = true := by
        intro hkey
        have hsame : other.1 = field.1 := Option.some.inj (hasKey_iff.1 hkey)
        exact hother (List.mem_map.2 ⟨field, hmem, hsame.symm⟩)
      rw [List.filter_cons_of_neg hne, ih hnodup hmem]

/-- An object that lists fields has one member for each of them. -/
theorem filter_hasKey_of_perm {fields : List (String × Value)} {field : String × Value}
    {members unknown : List (Option String × Value)} (hnodup : (fields.map Prod.fst).Nodup)
    (hunknown : ∀ m ∈ unknown, ∃ key, m.1 = some key ∧ key ∉ fields.map Prod.fst)
    (h : members.Perm (fields.map member ++ unknown)) (hmem : field ∈ fields) :
    members.filter (hasKey field.1) = [member field] := by
  have hnone : unknown.filter (hasKey field.1) = [] := by
    rw [List.filter_eq_nil_iff]
    intro m hm hkey
    obtain ⟨key, hm, hnot⟩ := hunknown m hm
    obtain rfl := Option.some.inj (hm.symm.trans (hasKey_iff.1 hkey))
    exact hnot (List.mem_map.2 ⟨field, hmem, rfl⟩)
  have hfilter := h.filter (hasKey field.1)
  rw [List.filter_append, filter_map_member hnodup hmem, hnone, List.append_nil,
    List.perm_singleton] at hfilter
  exact hfilter

/-- Members with another key do not matter for those with a key. -/
theorem filter_hasKey_filter_not {members : List (Option String × Value)} {key other : String}
    (hne : other ≠ key) :
    (members.filter fun m => !hasKey other m).filter (hasKey key) =
      members.filter (hasKey key) := by
  rw [List.filter_filter]
  refine List.filter_congr fun m _ => ?_
  by_cases hkey : hasKey key m = true
  · have hother : hasKey other m = false := by
      rw [Bool.eq_false_iff]
      intro h
      exact hne (Option.some.inj ((hasKey_iff.1 h).symm.trans (hasKey_iff.1 hkey)))
    rw [hkey, hother]
    rfl
  · rw [Bool.eq_false_iff.2 hkey, Bool.false_and]

/-- An object that has one member for each field lists the fields. -/
theorem exists_perm_of_filter {fields : List (String × Value)}
    {members : List (Option String × Value)} (hnodup : (fields.map Prod.fst).Nodup)
    (h : ∀ field ∈ fields, members.filter (hasKey field.1) = [member field]) :
    ∃ unknown, members.Perm (fields.map member ++ unknown) ∧
      ∀ m ∈ unknown, ∀ key ∈ fields.map Prod.fst, m.1 ≠ some key := by
  induction fields generalizing members with
  | nil => exact ⟨members, .refl _, fun _ _ => nofun⟩
  | cons field fields ih =>
    obtain ⟨hfield, hnodup⟩ := List.nodup_cons.1 hnodup
    -- what is left when the first field's member is taken out has one for each of the others
    have hothers : ∀ other ∈ fields,
        (members.filter fun m => !hasKey field.1 m).filter (hasKey other.1) = [member other] := by
      intro other hother
      have hne : field.1 ≠ other.1 := by
        intro hsame
        exact hfield (hsame ▸ List.mem_map_of_mem hother)
      rw [filter_hasKey_filter_not hne]
      exact h other (List.mem_cons_of_mem field hother)
    obtain ⟨unknown, hperm, hkeys⟩ := ih hnodup hothers
    have hsplit := List.filter_append_perm (hasKey field.1) members
    rw [h field List.mem_cons_self] at hsplit
    refine ⟨unknown, hsplit.symm.trans (hperm.cons _), ?_⟩
    intro m hm key hkey
    rcases List.mem_cons.1 hkey with rfl | hkey
    · intro hsame
      have hleft := hperm.mem_iff.2 (List.mem_append_right _ hm)
      have hnot := (List.mem_filter.1 hleft).2
      rw [hasKey_iff.2 hsame] at hnot
      contradiction
    · exact hkeys m hm key hkey

/-- All members of an object that lists fields have a key that is text. -/
theorem key_ne_none_of_perm {fields : List (String × Value)}
    {members unknown : List (Option String × Value)}
    (hunknown : ∀ m ∈ unknown, ∃ key, m.1 = some key ∧ key ∉ fields.map Prod.fst)
    (h : members.Perm (fields.map member ++ unknown)) : ∀ m ∈ members, m.1 ≠ none := by
  intro m hm
  rcases List.mem_append.1 (h.mem_iff.1 hm) with hm | hm
  · obtain ⟨field, -, rfl⟩ := List.mem_map.1 hm
    exact nofun
  · obtain ⟨key, hkey, -⟩ := hunknown m hm
    rw [hkey]
    exact nofun

/-- The fields of a record are found in the values that list them. -/
theorem Library.Lawful.fields?_iff {L : Library} (hL : L.Lawful)
    {fields : List (String × Value)} {v : Value} (hnodup : (fields.map Prod.fst).Nodup) :
    L.fields? (fields.map Prod.fst) v = some (fields.map Prod.snd) ↔ Lists fields v := by
  cases v with
  | array items =>
    rw [hL.fields?_array]
    constructor
    · rintro ⟨rfl, -⟩
      exact .array
    · rintro ⟨⟩
      exact ⟨rfl, by rw [List.length_map, List.length_map]⟩
  | object members =>
    rw [hL.fields?_object hnodup, List.forall₂_map_left_iff, List.forall₂_map_right_iff,
      List.forall₂_same]
    constructor
    · rintro ⟨htext, honce⟩
      obtain ⟨unknown, hperm, hkeys⟩ := exists_perm_of_filter hnodup honce
      refine .object (fun m hm => ?_) hperm
      have hm' := hperm.mem_iff.2 (List.mem_append_right _ hm)
      obtain ⟨key, hkey⟩ := Option.ne_none_iff_exists'.1 (htext m hm')
      exact ⟨key, hkey, fun hmem => hkeys m hm key hmem hkey⟩
    · rintro (_ | ⟨hunknown, hperm⟩)
      exact ⟨key_ne_none_of_perm hunknown hperm,
        fun field hfield => filter_hasKey_of_perm hnodup hunknown hperm hfield⟩
  | null | bool | number | string =>
    refine ⟨fun h => ?_, nofun⟩
    have hnone := h.symm.trans (hL.fields?_other (fun _ => nofun) (fun _ => nofun))
    exact nomatch hnone

/-! ## Numbers in a text -/

/-- The tokens of a field's value are among those of every value that lists the fields. -/
theorem mem_tokens_of_lists {fields : List (String × Value)} {field : String × Value} {v : Value}
    {t : Token} (h : Lists fields v) (hfield : field ∈ fields) (ht : t ∈ field.2.tokens) :
    t ∈ v.tokens := by
  cases h with
  | array =>
    rw [Value.tokens_array]
    refine List.mem_append_left _ (List.mem_cons_of_mem _ (mem_separate ?_ ht))
    exact List.mem_map_of_mem (List.mem_map_of_mem hfield)
  | @object members unknown hunknown hperm =>
    have hmember : member field ∈ members :=
      hperm.mem_iff.2 (List.mem_append_left _ (List.mem_map_of_mem hfield))
    have ht' : t ∈ memberTokens (member field) :=
      List.mem_cons_of_mem _ (List.mem_cons_of_mem _ ht)
    rw [Value.tokens_object]
    refine List.mem_append_left _ (List.mem_cons_of_mem _ (mem_separate ?_ ht'))
    exact List.mem_map_of_mem hmember

/-- A field whose value in a text is a number is below the word limit. -/
theorem lt_of_lists {fields : List (String × Value)} {name : String} {n : Nat} {v : Value}
    {text : String} (ht : v.IsText text) (h : Lists fields v)
    (hfield : (name, .number (some n)) ∈ fields) : n < Decimal.wordLimit :=
  lt_of_number_mem_layout ht (mem_tokens_of_lists h hfield List.mem_cons_self)

/-! ## Texts that are written -/

/-- A member is laid out by its quoted name, a colon and its value. -/
theorem layout_member {key text : String} {v : Value} (hkey : IsPlain key) (hv : v.IsText text) :
    Layout (memberTokens (member (key, v))) (quote key ++ ":" ++ text).toList := by
  have hcolon : Layout (.colon :: v.tokens) (':' :: text.toList) := (Layout.single .colon).append hv
  have htext : (quote key ++ ":" ++ text).toList = (quote key).toList ++ ':' :: text.toList := by
    simp
  rw [htext]
  exact Layout.append (isText_quote hkey) hcolon

/-- Whether texts are those of fields: the same names, and texts of the values. -/
inductive AreTexts : List (String × Value) → List (String × String) → Prop where
  | nil : AreTexts [] []
  | cons {name text : String} {v : Value} {fields : List (String × Value)}
    {texts : List (String × String)} : IsPlain name → v.IsText text → AreTexts fields texts →
      AreTexts ((name, v) :: fields) ((name, text) :: texts)

theorem AreTexts.isPlain {fields : List (String × Value)} {texts : List (String × String)}
    (h : AreTexts fields texts) : ∀ field ∈ texts, IsPlain field.1 := by
  induction h with
  | nil => exact nofun
  | cons hname _ _ ih => exact List.forall_mem_cons.2 ⟨hname, ih⟩

variable {L : Library}

/-- What is written of a record is a text of the object of its fields. -/
theorem isText_writeFields (hL : L.Lawful) {fields : List (String × Value)}
    {texts : List (String × String)} (h : AreTexts fields texts) :
    (Value.object (fields.map member)).IsText (L.writeFields texts) := by
  have hmembers : List.Forall₂ Layout ((fields.map member).map memberTokens)
      ((texts.map fun m => quote m.1 ++ ":" ++ m.2).map String.toList) := by
    induction h with
    | nil => exact .nil
    | cons hname hv _ ih => exact .cons (layout_member hname hv) ih
  have htext : (L.writeFields texts).toList = '{' ::
      [','].intercalate ((texts.map fun m => quote m.1 ++ ":" ++ m.2).map String.toList) ++
        ['}'] := by
    rw [hL.writeFields_eq h.isPlain, String.toList_append, String.toList_append,
      String.toList_intercalate]
    rfl
  rw [Value.IsText, Value.tokens_object, htext]
  have hopen := (Layout.single .openObject).append (layout_separate hmembers)
  exact hopen.append (.single .closeObject)

/-- A lawful library writes a number that fits a word as a text of it. -/
theorem isText_writeNatural (hL : L.Lawful) {n : Nat} (h : n < Decimal.wordLimit) :
    (Value.number (some n)).IsText (L.writeNatural n) := by
  rw [hL.writeNatural_eq h]
  exact isText_natural h

theorem isText_writeBool (hL : L.Lawful) (b : Bool) : (Value.bool b).IsText (L.writeBool b) := by
  rw [hL.writeBool_eq]
  exact isText_bool b

/-- An object of the fields alone lists them. -/
theorem lists_object (fields : List (String × Value)) :
    Lists fields (.object (fields.map member)) := by
  have hperm : (fields.map member).Perm (fields.map member ++ []) := by rw [List.append_nil]
  exact .object (List.forall_mem_nil _) hperm

/-! ## Codecs -/

/-- A codec round-trips if what it writes has a form, and forms are what it reads. -/
theorem Library.Lawful.roundTrips (hL : L.Lawful) {α : Type} {ofJson? : Value → Option α}
    {toJson : α → String} {InRange : α → Prop} {IsForm : α → Value → Prop}
    (hwritten : ∀ a, InRange a → ∃ v, IsForm a v ∧ v.IsText (toJson a))
    (hread : ∀ a v text, v.IsText text → (ofJson? v = some a ↔ IsForm a v))
    (hrange : ∀ a v text, v.IsText text → IsForm a v → InRange a) :
    (L.codec ofJson? toJson).RoundTrips InRange IsForm := by
  let c := L.codec ofJson? toJson
  have hiff : ∀ a text, c.read? text = some a ↔ ∃ v, IsForm a v ∧ v.IsText text := by
    intro a text
    show (L.parse? text).bind ofJson? = some a ↔ _
    rw [Option.bind_eq_some_iff]
    constructor
    · rintro ⟨v, ht, hv⟩
      have ht := hL.isText_of_parse? ht
      exact ⟨v, (hread a v text ht).1 hv, ht⟩
    · rintro ⟨v, hv, ht⟩
      exact ⟨v, hL.parse?_of_isText ht, (hread a v text ht).2 hv⟩
  have hback : ∀ a, InRange a → c.read? (c.write a) = some a :=
    fun a ha => (hiff a _).2 (hwritten a ha)
  refine ⟨hwritten, hback, hiff, ?_⟩
  intro text a ha
  obtain ⟨v, hv, ht⟩ := (hiff a text).1 ha
  have hout := hback a (hrange a v text ht hv)
  refine ⟨hout, ?_⟩
  rw [Codec.rewrite?, hout]
  rfl

end Json

variable {L : Json.Library}

/-! ## Options -/

theorem Options.nodup_fields (o : Options) : (o.fields.map Prod.fst).Nodup := by
  show ["strict_crlf"].Nodup
  decide

/-- Options are read from exactly the values that are forms of them. -/
theorem Options.ofJson?_eq_some_iff (hL : L.Lawful) {v : Json.Value} {o : Options} :
    Options.ofJson? L v = some o ↔ o.IsForm v := by
  rw [Options.IsForm, ← hL.fields?_iff o.nodup_fields]
  constructor
  · intro h
    rw [Options.ofJson?] at h
    split at h
    · next strict hfields =>
      obtain ⟨b, hb, ho⟩ := Option.bind_eq_some_iff.1 h
      obtain rfl := hL.bool?_iff.1 hb
      obtain rfl := Option.some.inj ho
      exact hfields
    · exact nomatch h
  · intro h
    have hfields : L.fields? ["strict_crlf"] v = some [.bool o.strictCrlf] := h
    simp only [Options.ofJson?, hfields, hL.bool?_iff.2 rfl]
    rfl

/-- What is written for options is a text of the record of their fields. -/
theorem Options.isText_toJson (hL : L.Lawful) (o : Options) :
    (Json.Value.object (o.fields.map Json.member)).IsText (o.toJson L) :=
  Json.isText_writeFields hL (.cons (by decide) (Json.isText_writeBool hL _) .nil)

/-- Options are read back from every form of them, and written in one of them. -/
theorem Options.codec_roundTrips (hL : L.Lawful) :
    (Options.codec L).RoundTrips (fun _ => True) Options.IsForm := by
  refine hL.roundTrips ?_ ?_ (fun _ _ _ _ _ => trivial)
  · exact fun o _ => ⟨_, Json.lists_object o.fields, o.isText_toJson hL⟩
  · exact fun o v text _ => Options.ofJson?_eq_some_iff hL

/-! ## Progress -/

theorem Progress.nodup_fields (p : Progress) : (p.fields.map Prod.fst).Nodup := by
  show ["maximum_valid_bytes", "synchronizing_literal_count"].Nodup
  decide

theorem Progress.ofJson?_eq_some_iff (hL : L.Lawful) {v : Json.Value} {p : Progress} :
    Progress.ofJson? L v = some p ↔ p.IsForm v := by
  rw [Progress.IsForm, ← hL.fields?_iff p.nodup_fields]
  constructor
  · intro h
    rw [Progress.ofJson?] at h
    split at h
    · next valid count hfields =>
      obtain ⟨n, hn, h⟩ := Option.bind_eq_some_iff.1 h
      obtain ⟨m, hm, hp⟩ := Option.bind_eq_some_iff.1 h
      obtain rfl := hL.natural?_iff.1 hn
      obtain rfl := hL.natural?_iff.1 hm
      obtain rfl := Option.some.inj hp
      exact hfields
    · exact nomatch h
  · intro h
    have hfields : L.fields? ["maximum_valid_bytes", "synchronizing_literal_count"] v =
        some [.number (some p.valid), .number (some p.synchronizing)] := h
    simp only [Progress.ofJson?, hfields, hL.natural?_iff.2 rfl]
    rfl

/-- A form of a progress has a text only where its numbers fit words. -/
theorem Progress.fitsWords_of_isForm {p : Progress} {v : Json.Value} {text : String}
    (ht : v.IsText text) (h : p.IsForm v) : p.FitsWords :=
  ⟨Json.lt_of_lists ht h (List.mem_cons_self),
    Json.lt_of_lists ht h (List.mem_cons_of_mem _ List.mem_cons_self)⟩

theorem Progress.isText_toJson (hL : L.Lawful) {p : Progress} (h : p.FitsWords) :
    (Json.Value.object (p.fields.map Json.member)).IsText (p.toJson L) :=
  Json.isText_writeFields hL
    (.cons (by decide) (Json.isText_writeNatural hL h.1)
      (.cons (by decide) (Json.isText_writeNatural hL h.2) .nil))

/-- A progress that fits words is read back from every form of it. -/
theorem Progress.codec_roundTrips (hL : L.Lawful) :
    (Progress.codec L).RoundTrips Progress.FitsWords Progress.IsForm := by
  refine hL.roundTrips ?_ ?_ (fun p v text => Progress.fitsWords_of_isForm)
  · exact fun p hp => ⟨_, Json.lists_object p.fields, Progress.isText_toJson hL hp⟩
  · exact fun p v text _ => Progress.ofJson?_eq_some_iff hL

/-! ## Kinds -/

theorem Kind.name_mem_names (k : Kind) : k.name ∈ Kind.names := by
  cases k <;> decide

theorem Kind.ofJson?_eq_some_iff (hL : L.Lawful) {v : Json.Value} {k : Kind} :
    Kind.ofJson? L v = some k ↔ k.IsForm v := by
  simp only [Kind.ofJson?, Option.bind_eq_some_iff, hL.variant?_iff, Kind.ofName?_eq_some_iff]
  constructor
  · rintro ⟨name, ⟨-, rfl | rfl⟩, rfl⟩
    · exact .name
    · exact .member
  · rintro (_ | _)
    · exact ⟨k.name, ⟨k.name_mem_names, .inl rfl⟩, rfl⟩
    · exact ⟨k.name, ⟨k.name_mem_names, .inr rfl⟩, rfl⟩

theorem Kind.isText_toJson (hL : L.Lawful) (k : Kind) :
    (Json.Value.string (some k.name)).IsText (k.toJson L) := by
  have hplain : Json.IsPlain k.name := by cases k <;> decide
  rw [Kind.toJson, hL.writeVariant_eq hplain]
  exact Json.isText_quote hplain

/-- A kind is read back from every form of it, its name among them. -/
theorem Kind.codec_roundTrips (hL : L.Lawful) :
    (Kind.codec L).RoundTrips (fun _ => True) Kind.IsForm := by
  refine hL.roundTrips ?_ ?_ (fun _ _ _ _ _ => trivial)
  · exact fun k _ => ⟨_, .name, k.isText_toJson hL⟩
  · exact fun k v text _ => Kind.ofJson?_eq_some_iff hL

/-! ## Declarations -/

theorem Declaration.nodup_fields (length kind binary : Json.Value) :
    ([("length", length), ("kind", kind), ("binary", binary)].map Prod.fst).Nodup := by
  show ["length", "kind", "binary"].Nodup
  decide

/-- A declaration is read from exactly the values that are forms of it. -/
theorem Declaration.ofJson?_eq_some_iff (hL : L.Lawful) {v : Json.Value} {text : String}
    {d : Declaration} (ht : v.IsText text) : Declaration.ofJson? L v = some d ↔ d.IsForm v := by
  constructor
  · intro h
    rw [Declaration.ofJson?] at h
    split at h
    · next length kind binary hfields =>
      obtain ⟨n, hn, h⟩ := Option.bind_eq_some_iff.1 h
      obtain ⟨k, hk, h⟩ := Option.bind_eq_some_iff.1 h
      obtain ⟨b, hb, hd⟩ := Option.bind_eq_some_iff.1 h
      obtain rfl := hL.natural?_iff.1 hn
      obtain rfl := hL.bool?_iff.1 hb
      have hlists := (hL.fields?_iff (nodup_fields _ kind _)).1 hfields
      have hn := Json.lt_of_lists ht hlists List.mem_cons_self
      obtain rfl := Option.some.inj hd
      refine ⟨kind, (Kind.ofJson?_eq_some_iff hL).1 hk, ?_⟩
      rw [Declaration.fields, UInt64.toNat_ofNat_of_lt' hn]
      exact hlists
    · exact nomatch h
  · rintro ⟨kind, hkind, h⟩
    have hfields : L.fields? ["length", "kind", "binary"] v =
        some [.number (some d.length.toNat), kind, .bool d.binary] :=
      (hL.fields?_iff (nodup_fields _ kind _)).2 h
    have hlength : UInt64.ofNat d.length.toNat = d.length := UInt64.ofNat_toNat
    simp only [Declaration.ofJson?, hfields, hL.natural?_iff.2 rfl, hL.bool?_iff.2 rfl,
      (Kind.ofJson?_eq_some_iff hL).2 hkind, Option.pure_def, Option.bind_eq_bind,
      Option.bind_some, hlength]

/-- What is written for a declaration is a text of the record of its fields. -/
theorem Declaration.isText_toJson (hL : L.Lawful) (d : Declaration) :
    (Json.Value.object ((d.fields (.string (some d.kind.name))).map Json.member)).IsText
      (d.toJson L) :=
  Json.isText_writeFields hL
    (.cons (by decide) (Json.isText_writeNatural hL d.length.toNat_lt)
      (.cons (by decide) (d.kind.isText_toJson hL)
        (.cons (by decide) (Json.isText_writeBool hL _) .nil)))

/-- A declaration is read back from every form of it, whatever form its kind has. -/
theorem Declaration.codec_roundTrips (hL : L.Lawful) :
    (Declaration.codec L).RoundTrips (fun _ => True) Declaration.IsForm := by
  refine hL.roundTrips ?_ ?_ (fun _ _ _ _ _ => trivial)
  · exact fun d _ => ⟨_, ⟨_, .name, Json.lists_object _⟩, d.isText_toJson hL⟩
  · exact fun d v text => Declaration.ofJson?_eq_some_iff hL

/-! ## Round trips -/

/-- With any library that does what is relied on, options, progress, kinds and declarations
round-trip. What is written is read back. A record is read from every text of an object that gives
its fields their values, in any order, among any members of other keys and with any white space, and
of the array of the values, and from no other text. What has been read is written anew in one way
only, and is read as the same. -/
theorem Json.codecs_round_trip (L : Json.Library) (hL : L.Lawful) :
    (Options.codec L).RoundTrips (fun _ => True) Options.IsForm ∧
      (Progress.codec L).RoundTrips Progress.FitsWords Progress.IsForm ∧
      (Kind.codec L).RoundTrips (fun _ => True) Kind.IsForm ∧
      (Declaration.codec L).RoundTrips (fun _ => True) Declaration.IsForm :=
  ⟨Options.codec_roundTrips hL, Progress.codec_roundTrips hL, Kind.codec_roundTrips hL,
    Declaration.codec_roundTrips hL⟩

/-- The library that can be run reads the largest count back, and also from an object in which the
fields come in the other order, with white space between them and behind a member of another
key. -/
theorem Json.codecs_round_trip_past_other_members :
    let codec := Progress.codec Library.standard
    Library.standard.Lawful ∧ Progress.FitsWords ⟨18446744073709551615, 0⟩ ∧
      codec.read? (codec.write ⟨18446744073709551615, 0⟩) = some ⟨18446744073709551615, 0⟩ ∧
      codec.write ⟨18446744073709551615, 0⟩ =
        "\x7b\"maximum_valid_bytes\":18446744073709551615,\"synchronizing_literal_count\":0\x7d" ∧
      codec.read?
          "\x7b \"x\" : [null, -1.5e+3, \x7b\"maximum_valid_bytes\":1\x7d],
            \"synchronizing_literal_count\":0, \"maximum_valid_bytes\":18446744073709551615\x7d" =
        some ⟨18446744073709551615, 0⟩ := by
  intro codec
  obtain ⟨-, hprogress, -, -⟩ := codecs_round_trip Library.standard Library.standard_lawful
  have hfits : Progress.FitsWords ⟨18446744073709551615, 0⟩ := ⟨by decide, by decide⟩
  have hform (other : Value) : Progress.IsForm ⟨18446744073709551615, 0⟩ (.object
      [(some "x", other), (some "synchronizing_literal_count", .number (some 0)),
        (some "maximum_valid_bytes", .number (some 18446744073709551615))]) := by
    have hother : ∀ m ∈ [(some "x", other)], ∃ key, m.1 = some key ∧
        key ∉ ["maximum_valid_bytes", "synchronizing_literal_count"] := by
      intro m hm
      obtain rfl := List.mem_singleton.1 hm
      exact ⟨"x", rfl, by decide⟩
    have hreversed := List.reverse_perm
      ((Progress.fields ⟨18446744073709551615, 0⟩).map member ++ [(some "x", other)])
    exact .object hother hreversed
  have hvalue := hform
    (.array [.null, .number none, .object [(some "maximum_valid_bytes", .number (some 1))]])
  refine ⟨Library.standard_lawful, hfits, hprogress.read_written _ hfits, by decide +kernel,
    (hprogress.read_iff _ _).2 ⟨_, hvalue, ?_⟩⟩
  exact Value.isText_of_tokens? (by decide +kernel)

end StreamFraming
