import StreamFraming.Proofs.Json.Layout
import StreamFraming.Proofs.Json.Token

/-!
# Reading values

The reader of values keeps the containers that are open, so what it has read so far can be read off
it: `Reader.tokens`. A step adds the token that it takes (`Reader.tokens_of_step`), and so a value
that is read has the tokens that were taken. The other way round the tokens of a value, taken in
any place, put the value there (`Reader.steps_tokens`), by induction on the value.

Together with the reading of tokens this gives the texts of a value: they are those from which it
is read (`Value.parse?_eq_some_iff`).
-/

namespace StreamFraming.Json

/-! ## The tokens of a value -/

/-- What holds of a container if it holds of all that it contains holds of every value. -/
@[elab_as_elim]
theorem Value.induction {motive : Value → Prop} (null : motive .null)
    (bool : ∀ b, motive (.bool b)) (number : ∀ value, motive (.number value))
    (string : ∀ text, motive (.string text))
    (array : ∀ items, (∀ v ∈ items, motive v) → motive (.array items))
    (object : ∀ members, (∀ m ∈ members, motive m.2) → motive (.object members)) :
    ∀ v, motive v
  | .null => null
  | .bool b => bool b
  | .number value => number value
  | .string text => string text
  | .array items =>
    array items fun v _ => induction null bool number string array object v
  | .object members =>
    object members fun m _ => induction null bool number string array object m.2
termination_by v => sizeOf v
decreasing_by
  · have hlt := List.sizeOf_lt_of_mem ‹v ∈ items›
    simp only [Value.array.sizeOf_spec]
    omega
  · have hlt := List.sizeOf_lt_of_mem ‹m ∈ members›
    obtain ⟨key, v⟩ := m
    simp only [Value.object.sizeOf_spec, Prod.mk.sizeOf_spec] at hlt ⊢
    omega

/-- No value starts with the end of an array. -/
theorem Value.exists_tokens_eq_cons (v : Value) :
    ∃ t ts, v.tokens = t :: ts ∧ t ≠ .closeArray := by
  cases v with
  | array items => exact ⟨.openArray, _, Value.tokens_array items, nofun⟩
  | object members => exact ⟨.openObject, _, Value.tokens_object members, nofun⟩
  | null | bool | number | string => exact ⟨_, [], rfl, nofun⟩

/-- Lists of tokens with a comma after each. -/
def endEach (parts : List (List Token)) : List Token := parts.flatMap (· ++ [.comma])

theorem endEach_concat (parts : List (List Token)) (ts : List Token) :
    endEach (parts ++ [ts]) = endEach parts ++ ts ++ [.comma] := by
  rw [endEach, List.flatMap_append, List.flatMap_singleton, ← List.append_assoc, endEach]

/-- The last part has no comma behind it, each of the others has. -/
theorem separate_concat (parts : List (List Token)) (ts : List Token) :
    separate (parts ++ [ts]) = endEach parts ++ ts := by
  induction parts with
  | nil => rfl
  | cons us parts ih =>
    have hcons : separate (us :: (parts ++ [ts])) = us ++ .comma :: separate (parts ++ [ts]) := by
      cases parts <;> rfl
    rw [List.cons_append, hcons, ih, endEach, endEach, List.flatMap_cons, List.append_assoc,
      List.append_assoc, List.singleton_append]

/-! ## Values apart from each other -/

/-- Commas keep the numbers of different parts apart. -/
theorem isChain_separate {parts : List (List Token)}
    (h : ∀ ts ∈ parts, ts.IsChain Token.Apart) : (separate parts).IsChain Token.Apart := by
  fun_induction separate parts with
  | case1 => exact List.isChain_nil
  | case2 ts => exact h ts List.mem_cons_self
  | case3 ts parts _ ih =>
    have hts := h ts List.mem_cons_self
    have hparts := ih fun us hus => h us (List.mem_cons_of_mem ts hus)
    have hcomma (t : Token) : Token.comma.Apart t := fun h => absurd h Bool.false_ne_true
    refine List.isChain_append.2 ⟨hts, List.isChain_cons.2 ⟨fun t _ => hcomma t, hparts⟩, ?_⟩
    rintro t - t' ht' -
    exact Option.some.inj ht' ▸ rfl

theorem isChain_enclose {opening closing : Token} {ts : List Token}
    (hopening : opening.isNumber = false) (hclosing : closing.isNumber = false)
    (h : ts.IsChain Token.Apart) : (opening :: ts ++ [closing]).IsChain Token.Apart := by
  refine List.isChain_cons.2 ⟨?_, List.isChain_append.2 ⟨h, List.isChain_singleton closing, ?_⟩⟩
  · intro t _ hnumber
    rw [hopening] at hnumber
    contradiction
  · rintro t - t' ht' -
    exact Option.some.inj ht' ▸ hclosing

/-- No two numbers of a value stand next to each other. -/
theorem Value.isChain_tokens (v : Value) : v.tokens.IsChain Token.Apart := by
  induction v using Value.induction with
  | null | bool | number | string => exact List.isChain_singleton _
  | array items ih =>
    rw [Value.tokens_array]
    refine isChain_enclose rfl rfl (isChain_separate fun ts hts => ?_)
    obtain ⟨v, hv, rfl⟩ := List.mem_map.1 hts
    exact ih v hv
  | object members ih =>
    rw [Value.tokens_object]
    refine isChain_enclose rfl rfl (isChain_separate fun ts hts => ?_)
    obtain ⟨member, hmember, rfl⟩ := List.mem_map.1 hts
    refine List.isChain_cons.2 ⟨fun _ _ => nofun, List.isChain_cons.2 ⟨fun _ _ => nofun, ?_⟩⟩
    exact ih member hmember

/-! ## What has been read -/

/-- The tokens that lead to a place. -/
def Place.tokens : Place → List Token
  | .top => []
  | .item items outer => outer.tokens ++ .openArray :: endEach (items.reverse.map Value.tokens)
  | .member members key outer =>
    outer.tokens ++ .openObject :: endEach (members.reverse.map memberTokens) ++
      [.string key, .colon]

namespace Reader

/-- The tokens that a reader has taken. -/
def tokens : Reader → List Token
  | .value place => place.tokens
  | .firstItem outer => outer.tokens ++ [.openArray]
  | .firstKey outer => outer.tokens ++ [.openObject]
  | .nextKey members outer =>
    outer.tokens ++ .openObject :: endEach (members.reverse.map memberTokens)
  | .colon members key outer =>
    outer.tokens ++ .openObject :: endEach (members.reverse.map memberTokens) ++ [.string key]
  | .afterItem items outer =>
    outer.tokens ++ .openArray :: separate (items.reverse.map Value.tokens)
  | .afterMember members outer =>
    outer.tokens ++ .openObject :: separate (members.reverse.map memberTokens)
  | .complete v => v.tokens

/-- Whether a reader that stands after a part of a container has read one. -/
def HasPart : Reader → Prop
  | .afterItem items _ => items ≠ []
  | .afterMember members _ => members ≠ []
  | _ => True

theorem hasPart_fill (v : Value) (place : Place) : (fill v place).HasPart := by
  cases place with
  | top => trivial
  | item items outer => exact List.cons_ne_nil _ _
  | member members key outer => exact List.cons_ne_nil _ _

/-- Putting a value in its place adds its tokens. -/
theorem tokens_fill (v : Value) (place : Place) :
    (fill v place).tokens = place.tokens ++ v.tokens := by
  cases place with
  | top => rfl
  | item items outer =>
    rw [fill, tokens, List.reverse_cons, List.map_append, List.map_singleton, separate_concat,
      Place.tokens, List.append_assoc, List.cons_append]
  | member members key outer =>
    rw [fill, tokens, List.reverse_cons, List.map_append, List.map_singleton, separate_concat,
      Place.tokens, List.append_assoc, List.append_assoc, List.cons_append]
    rfl

theorem tokens_of_fill {v : Value} {place : Place} {r : Reader} (h : some (fill v place) = some r) :
    r.HasPart ∧ r.tokens = place.tokens ++ v.tokens := by
  rw [← Option.some.inj h]
  exact ⟨hasPart_fill v place, tokens_fill v place⟩

/-- The first token of a value is added to the tokens before the value. -/
theorem tokens_of_begin {place : Place} {t : Token} {r : Reader} (h : begin place t = some r) :
    r.HasPart ∧ r.tokens = place.tokens ++ [t] := by
  unfold begin at h
  split at h
  · exact Option.some.inj h ▸ ⟨trivial, rfl⟩
  · exact Option.some.inj h ▸ ⟨trivial, rfl⟩
  · exact tokens_of_fill h
  · exact tokens_of_fill h
  · exact tokens_of_fill h
  · exact tokens_of_fill h
  · exact nomatch h

/-- A comma behind separated parts ends the last of them too. -/
theorem separate_append_comma {α : Type} {f : α → List Token} {done : List α} (h : done ≠ []) :
    separate (done.reverse.map f) ++ [.comma] = endEach (done.reverse.map f) := by
  obtain ⟨last, done, rfl⟩ := List.exists_cons_of_ne_nil h
  rw [List.reverse_cons, List.map_append, List.map_singleton, separate_concat, endEach_concat]

/-- A step adds the token that it takes. -/
theorem tokens_of_step {r r' : Reader} {t : Token} (h : r.step t = some r') (hr : r.HasPart) :
    r'.HasPart ∧ r'.tokens = r.tokens ++ [t] := by
  unfold step at h
  split at h
  · exact tokens_of_begin h
  · obtain ⟨hpart, htokens⟩ := tokens_of_fill h
    refine ⟨hpart, ?_⟩
    rw [htokens, tokens, List.append_assoc]
    rfl
  · exact tokens_of_begin h
  · obtain ⟨hpart, htokens⟩ := tokens_of_fill h
    refine ⟨hpart, ?_⟩
    rw [htokens, tokens, List.append_assoc]
    rfl
  · exact Option.some.inj h ▸ ⟨trivial, rfl⟩
  · exact Option.some.inj h ▸ ⟨trivial, rfl⟩
  · obtain rfl := Option.some.inj h
    refine ⟨trivial, ?_⟩
    rw [tokens, tokens, Place.tokens, List.append_assoc _ [_] [_]]
    rfl
  · next items outer _ _ =>
    obtain rfl := Option.some.inj h
    refine ⟨trivial, ?_⟩
    rw [tokens, tokens, Place.tokens, List.append_assoc, List.cons_append,
      separate_append_comma hr]
  · obtain ⟨hpart, htokens⟩ := tokens_of_fill h
    refine ⟨hpart, ?_⟩
    rw [htokens, tokens, Value.tokens_array, List.append_assoc]
  · obtain rfl := Option.some.inj h
    refine ⟨trivial, ?_⟩
    rw [tokens, tokens, List.append_assoc, List.cons_append, separate_append_comma hr]
  · obtain ⟨hpart, htokens⟩ := tokens_of_fill h
    refine ⟨hpart, ?_⟩
    rw [htokens, tokens, Value.tokens_object, List.append_assoc]
  · exact nomatch h

theorem tokens_of_steps {r r' : Reader} {ts : List Token} (h : r.steps ts = some r')
    (hr : r.HasPart) : r'.tokens = r.tokens ++ ts := by
  induction ts generalizing r with
  | nil => rw [Option.some.inj h, List.append_nil]
  | cons t ts ih =>
    rw [steps] at h
    split at h
    · next next hstep =>
      obtain ⟨hnext, htokens⟩ := tokens_of_step hstep hr
      rw [ih h hnext, htokens, List.append_assoc, List.singleton_append]
    · exact nomatch h

/-! ## What is read -/

theorem steps_cons {r r' : Reader} {t : Token} (h : r.step t = some r') (ts : List Token) :
    r.steps (t :: ts) = r'.steps ts := by
  rw [steps, h]

/-- A run over two lists of tokens goes on from where the first ends. -/
theorem steps_append {r r' : Reader} {ts : List Token} (h : r.steps ts = some r')
    (us : List Token) : r.steps (ts ++ us) = r'.steps us := by
  induction ts generalizing r with
  | nil => rw [Option.some.inj h, List.nil_append]
  | cons t ts ih =>
    rw [steps] at h
    split at h
    · next next hstep => rw [List.cons_append, steps_cons hstep, ih h]
    · exact nomatch h

/-- The parts of a container are read up to its end if each of them is read. -/
theorem steps_parts {α : Type} (f : α → List Token) (part after : List α → Reader)
    (closing : Token) (complete : List α → Reader)
    (hcomma : ∀ done, (after done).step .comma = some (part done))
    (hclosing : ∀ done, (after done).step closing = some (complete done.reverse))
    {x : α} {xs : List α}
    (hpart : ∀ y ∈ x :: xs, ∀ done, (part done).steps (f y) = some (after (y :: done)))
    (done : List α) :
    (part done).steps (separate ((x :: xs).map f) ++ [closing]) =
      some (complete (done.reverse ++ x :: xs)) := by
  have hx := hpart x List.mem_cons_self done
  induction xs generalizing x done with
  | nil =>
    rw [List.map_singleton, separate, steps_append hx, steps_cons (hclosing _), List.reverse_cons]
    rfl
  | cons y xs ih =>
    have hrest : ∀ z ∈ y :: xs, ∀ done, (part done).steps (f z) = some (after (z :: done)) :=
      fun z hz => hpart z (List.mem_cons_of_mem x hz)
    have hxs := ih hrest (x :: done) (hrest y List.mem_cons_self (x :: done))
    rw [List.reverse_cons, List.append_assoc, List.singleton_append] at hxs
    rw [List.map_cons, List.map_cons, separate_cons_cons, List.append_assoc, steps_append hx,
      List.cons_append, steps_cons (hcomma _)]
    exact hxs

/-- The first item of an array is read as the others are. -/
theorem steps_firstItem (v : Value) (outer : Place) (ts : List Token) :
    (firstItem outer).steps (v.tokens ++ ts) = (value (.item [] outer)).steps (v.tokens ++ ts) := by
  obtain ⟨t, us, htokens, ht⟩ := v.exists_tokens_eq_cons
  have hstep : (firstItem outer).step t = (value (.item [] outer)).step t := by
    rw [step, step]
    exact ht
  rw [htokens, List.cons_append, steps, steps, hstep]

theorem separate_cons (ts : List Token) (parts : List (List Token)) :
    ∃ rest, separate (ts :: parts) = ts ++ rest := by
  cases parts with
  | nil => exact ⟨[], (List.append_nil ts).symm⟩
  | cons us parts => exact ⟨_, rfl⟩

/-- A member is read if its value is. -/
theorem steps_member {member : Option String × Value}
    (h : ∀ place, (value place).steps member.2.tokens = some (fill member.2 place))
    (outer : Place) (done : List (Option String × Value)) :
    (nextKey done outer).steps (memberTokens member) =
      some (afterMember (member :: done) outer) := by
  rw [memberTokens, steps_cons rfl, steps_cons rfl]
  exact h (.member done member.1 outer)

/-- The tokens of a value put it where it is to stand. -/
theorem steps_tokens (v : Value) (place : Place) :
    (value place).steps v.tokens = some (fill v place) := by
  induction v using Value.induction generalizing place with
  | null | bool | number | string => rfl
  | array items ih =>
    rw [Value.tokens_array, List.cons_append, steps_cons rfl]
    cases items with
    | nil => rfl
    | cons v items =>
      have hparts := steps_parts Value.tokens (fun done => value (.item done place))
        (fun done => afterItem done place) .closeArray (fun items => fill (.array items) place)
        (fun done => rfl) (fun done => rfl) (fun w hw done => ih w hw (.item done place)) []
      obtain ⟨rest, hrest⟩ := separate_cons v.tokens (items.map Value.tokens)
      rw [List.map_cons, hrest, List.append_assoc] at hparts ⊢
      rw [steps_firstItem]
      exact hparts
  | object members ih =>
    rw [Value.tokens_object, List.cons_append, steps_cons rfl]
    cases members with
    | nil => rfl
    | cons member members =>
      have hparts := steps_parts memberTokens (fun done => nextKey done place)
        (fun done => afterMember done place) .closeObject
        (fun members => fill (.object members) place) (fun done => rfl) (fun done => rfl)
        (fun member hmember done => steps_member (ih member hmember) place done) []
      -- the first key is read as the others are
      obtain ⟨rest, hrest⟩ := separate_cons (memberTokens member) (members.map memberTokens)
      rw [List.map_cons, hrest] at hparts ⊢
      exact hparts

end Reader

/-! ## Texts of a value -/

/-- Tokens are read as the value of which they are the tokens. -/
theorem Value.ofTokens?_eq_some_iff {ts : List Token} {v : Value} :
    Value.ofTokens? ts = some v ↔ v.tokens = ts := by
  constructor
  · intro h
    rw [Value.ofTokens?] at h
    split at h
    · next w hsteps =>
      obtain rfl := Option.some.inj h
      exact Reader.tokens_of_steps hsteps trivial
    · exact nomatch h
  · rintro rfl
    rw [Value.ofTokens?, Reader.steps_tokens]
    rfl

theorem Value.isText_of_tokens? {text : String} {v : Value} (h : tokens? text = some v.tokens) :
    v.IsText text := by
  obtain ⟨new, htokens, hlayout⟩ := exists_layout_of_readTokens? h
  rw [Value.IsText, htokens]
  exact hlayout

/-- A value is read from its texts, and from no other. -/
theorem Value.parse?_eq_some_iff {text : String} {v : Value} :
    Value.parse? text = some v ↔ v.IsText text := by
  rw [Value.parse?, Option.bind_eq_some_iff]
  constructor
  · rintro ⟨ts, hts, hv⟩
    obtain rfl := Value.ofTokens?_eq_some_iff.1 hv
    exact Value.isText_of_tokens? hts
  · intro h
    refine ⟨v.tokens, ?_, Value.ofTokens?_eq_some_iff.2 rfl⟩
    exact readTokens?_of_layout h v.isChain_tokens []

end StreamFraming.Json
