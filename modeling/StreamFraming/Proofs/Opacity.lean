import StreamFraming.Proofs.Refinement

/-!
# Payload is opaque

What a literal holds has no part in how its stream is framed. `Framer.IsPayload` says which
octets of a stream are payload: those that a declaration announces, read off the events of
one scan of the whole. Two streams that differ in such octets only, and are cut at the same
places, are scanned alike at every chunk (`receiveAll_eq_of_agree_outside_payload`).

The automaton shows why: within a payload it does not look at the octet it takes. What is
left is that the octets it takes so are the octets that declarations announce
(`getElem?_payloadFlags_of_declaration`), and that the scans of the chunks are settled by
the scans of what has arrived (`receiveAll_eq_of_scan_take_eq`).
-/

namespace StreamFraming

/-- The octet at position `i` of a stream is payload: it is one of the octets that a
declaration which a scan of the whole stream reports has announced. -/
def Framer.IsPayload (o : Options) (stream : Octets) (i : Nat) : Prop :=
  i < stream.length ∧ ∃ d stop, Event.declaration d stop ∈ ((start o).scan stream).log ∧
    stop ≤ i ∧ i < stop + d.length.toNat

namespace Automaton

variable {o : Options} {a : Automaton}

/-! ## Octets that are taken as payload -/

/-- In a payload it does not matter which octet comes. -/
theorem step_eq_of_inPayload (h : a.mode.inPayload = true) (b b' : UInt8) :
    a.step o b' = a.step o b ∧ a.owes o b' = a.owes o b ∧ a.events o b' = a.events o b := by
  cases hm : a.mode with
  | payload left => simp only [step, owes, events, hm, and_self]
  | line seen =>
    rw [hm] at h
    contradiction

/-- A declaration is reported at the end of its line, and its payload starts there. -/
theorem step_of_declaration_mem_events {b : UInt8} {d : Declaration} {stop : Nat}
    (h : .declaration d stop ∈ a.events o b) :
    stop = a.position + 1 ∧ (a.step o b).mode.left = d.length.toNat := by
  cases hm : a.mode with
  | payload left =>
    simp only [events, hm] at h
    split at h <;> simp at h
  | line seen =>
    simp only [events, hm] at h
    split at h
    · next hends =>
      simp only [step, hm, if_pos hends, confirm_eq, Mode.left_ofPending]
      rw [List.mem_singleton, Event.ofLine] at h
      cases hd : Declaration.parse? (content seen) with
      | some d' =>
        rw [hd] at h
        cases h
        exact ⟨rfl, by rw [Line.announced, hd]⟩
      | none =>
        rw [hd] at h
        contradiction
    · contradiction

/-- A declaration is logged behind the octet where the automaton started. -/
theorem lt_of_declaration_mem_trace {octets : Octets} {d : Declaration} {stop : Nat}
    (h : .declaration d stop ∈ (a.trace o octets).log) : a.position < stop := by
  induction octets generalizing a with
  | nil => exact nomatch h
  | cons b octets ih =>
    rcases List.mem_append.1 h with h | h
    · have := (step_of_declaration_mem_events h).1
      omega
    · have hlt := ih h
      rw [step_position] at hlt
      omega

/-- The octets of a payload are taken as payload until it ends. -/
theorem getElem?_payloadFlags_of_left {octets : Octets} {j : Nat} (hj : j < a.mode.left)
    (hlen : j < octets.length) : (a.payloadFlags o octets)[j]? = some true := by
  induction octets generalizing a j with
  | nil => exact absurd hlen (Nat.not_lt_zero j)
  | cons b octets ih =>
    cases hm : a.mode with
    | line seen =>
      rw [hm] at hj
      exact absurd hj (Nat.not_lt_zero j)
    | payload left =>
      rw [hm] at hj
      cases j with
      | zero =>
        show some a.mode.inPayload = some true
        rw [hm]
        rfl
      | succ j =>
        have hleft : j < (a.step o b).mode.left := by
          simp only [step, hm, Mode.left_ofPending]
          exact Nat.lt_sub_of_add_lt hj
        exact ih hleft (Nat.lt_of_succ_lt_succ hlen)

/-- The octets that a declaration announces are taken as payload. -/
theorem getElem?_payloadFlags_of_declaration {octets : Octets} {d : Declaration} {stop i : Nat}
    (h : .declaration d stop ∈ (a.trace o octets).log) (hstart : stop ≤ a.position + i)
    (hstop : a.position + i < stop + d.length.toNat) (hlen : i < octets.length) :
    (a.payloadFlags o octets)[i]? = some true := by
  induction octets generalizing a i with
  | nil => exact absurd hlen (Nat.not_lt_zero i)
  | cons b octets ih =>
    have hlt := lt_of_declaration_mem_trace h
    -- the octet is not the one that ends the declaration's line
    obtain ⟨i, rfl⟩ : ∃ j, i = j + 1 := Nat.exists_eq_add_one.2 (by omega)
    have hlen' := Nat.lt_of_succ_lt_succ hlen
    show ((a.step o b).payloadFlags o octets)[i]? = some true
    rcases List.mem_append.1 h with h | h
    · obtain ⟨rfl, hleft⟩ := step_of_declaration_mem_events h
      exact getElem?_payloadFlags_of_left (by omega) hlen'
    · refine ih h ?_ ?_ hlen' <;> rw [step_position] <;> omega

/-- Streams that differ only where the octets are taken as payload have the same traces. -/
theorem trace_take_eq {octets octets' : Octets} (hlen : octets'.length = octets.length)
    (h : ∀ i : Nat, (a.payloadFlags o octets)[i]? = some false → octets'[i]? = octets[i]?)
    (n : Nat) : a.trace o (octets'.take n) = a.trace o (octets.take n) := by
  induction octets generalizing a octets' n with
  | nil =>
    have hnil : octets' = [] := List.eq_nil_of_length_eq_zero hlen
    rw [hnil]
  | cons b octets ih =>
    obtain ⟨b', octets', rfl⟩ := List.exists_cons_of_length_eq_add_one hlen
    cases n with
    | zero => rfl
    | succ n =>
      have hstep : a.step o b' = a.step o b ∧ a.owes o b' = a.owes o b ∧
          a.events o b' = a.events o b := by
        -- outside a payload the octets are the same
        cases hp : a.mode.inPayload with
        | true => exact step_eq_of_inPayload hp b b'
        | false =>
          have hb : some b' = some b := h 0 (congrArg some hp)
          cases hb
          exact ⟨rfl, rfl, rfl⟩
      obtain ⟨hs, ho, he⟩ := hstep
      have hagree : ∀ i : Nat, ((a.step o b).payloadFlags o octets)[i]? = some false →
          octets'[i]? = octets[i]? := by
        intro i hi
        exact h (i + 1) hi
      have hrest := ih (Nat.succ.inj hlen) hagree n
      show ((a.step o b').trace o (octets'.take n)).following (a.owes o b') (a.events o b') =
        ((a.step o b).trace o (octets.take n)).following (a.owes o b) (a.events o b)
      rw [hs, ho, he, hrest]

end Automaton

/-- Streams that differ only in payload are scanned alike, up to every place. -/
theorem Framer.scan_take_eq_of_agree {o : Options} {stream stream' : Octets}
    (hlen : stream'.length = stream.length)
    (h : ∀ i, ¬IsPayload o stream i → stream'[i]? = stream[i]?) (n : Nat) :
    (start o).scan (stream'.take n) = (start o).scan (stream.take n) := by
  rw [scan_start, scan_start]
  apply Automaton.trace_take_eq hlen
  intro i hi
  apply h i
  rintro ⟨hlt, d, stop, hmem, hstart, hstop⟩
  rw [scan_start] at hmem
  have htrue : (Automaton.payloadFlags o {} stream)[i]? = some true :=
    Automaton.getElem?_payloadFlags_of_declaration hmem
      (Nat.le_trans hstart (Nat.le_add_left ..)) (by rw [Nat.zero_add]; exact hstop) hlt
  rw [htrue] at hi
  exact nomatch hi

namespace Window

variable {o : Options}

/-- The scan of a chunk is settled by the scans of the stream before it and with it, so that
streams with the same scans up to every place have the same scans at every chunk. -/
theorem receiveAll_eq_of_scan_take_eq {before before' : Octets} {chunks chunks' : List Octets}
    (hbefore : before'.length = before.length)
    (hsizes : chunks'.map List.length = chunks.map List.length)
    (h : ∀ n, (Framer.start o).scan ((before' ++ chunks'.flatten).take n) =
      (Framer.start o).scan ((before ++ chunks.flatten).take n)) :
    ((receiveAll ⟨((Framer.start o).scan before').framer, before'⟩ chunks').2 =
      (receiveAll ⟨((Framer.start o).scan before).framer, before⟩ chunks).2) := by
  induction chunks generalizing before before' chunks' with
  | nil =>
    rw [List.map_nil, List.map_eq_nil_iff] at hsizes
    rw [hsizes]
    rfl
  | cons chunk chunks ih =>
    obtain ⟨chunk', chunks', rfl⟩ : ∃ c cs, chunks' = c :: cs := by
      cases chunks' with
      | nil => exact nomatch hsizes
      | cons chunk' chunks' => exact ⟨chunk', chunks', rfl⟩
    simp only [List.map_cons, List.cons.injEq] at hsizes
    obtain ⟨hsize, hsizes⟩ := hsizes
    have hnext : (before' ++ chunk').length = (before ++ chunk).length := by
      rw [List.length_append, List.length_append, hbefore, hsize]
    simp only [List.flatten_cons, ← List.append_assoc] at h
    -- the scans of what came before the chunk, and of what has come with it
    have hold := h before.length
    rw [List.append_assoc, List.append_assoc, List.take_left, ← hbefore, List.take_left] at hold
    have hnew := h (before ++ chunk).length
    rw [List.take_left, ← hnext, List.take_left] at hnew
    have happend := Framer.scan_append (Framer.inStep_start o before) chunk
    have happend' := Framer.scan_append (Framer.inStep_start o before') chunk'
    have hscan : ((Framer.start o).scan before').framer.scan (before' ++ chunk') =
        ((Framer.start o).scan before).framer.scan (before ++ chunk) := by
      apply Scan.andThen_left_cancel
      rw [← happend, ← hnew, happend', hold]
    have hrest := ih hnext hsizes h
    rw [happend, happend'] at hrest
    exact List.cons_eq_cons.2 ⟨hscan, hrest⟩

/-- Payload is opaque. Two streams that are equal outside the payload of the first one, and
are cut at the same places, give the same scan at every chunk: the same progress, the same
framer after it and the same events. -/
theorem receiveAll_eq_of_agree_outside_payload (o : Options) (chunks chunks' : List Octets)
    (hsizes : chunks'.map List.length = chunks.map List.length)
    (hagree : ∀ i, ¬Framer.IsPayload o chunks.flatten i →
      chunks'.flatten[i]? = chunks.flatten[i]?) :
    ((start o).receiveAll chunks').2 = ((start o).receiveAll chunks).2 := by
  have hlen : chunks'.flatten.length = chunks.flatten.length := by
    rw [List.length_flatten, List.length_flatten, hsizes]
  have hstart : start o = ⟨((Framer.start o).scan []).framer, []⟩ := by
    rw [Framer.scan_start_nil]
    rfl
  rw [hstart]
  exact receiveAll_eq_of_scan_take_eq rfl hsizes (Framer.scan_take_eq_of_agree hlen hagree)

/-- The payload of `a {3}` may as well be CR LF and a brace, cut between CR and LF. -/
theorem receiveAll_eq_of_line_end_in_payload :
    let chunks : List Octets := [[97, 32, 123, 51, 125, 13, 10, 120], [121, 122, 13], [10]]
    let chunks' : List Octets := [[97, 32, 123, 51, 125, 13, 10, 13], [10, 125, 13], [10]]
    chunks'.map List.length = chunks.map List.length ∧
    (∀ i, ¬Framer.IsPayload {} chunks.flatten i → chunks'.flatten[i]? = chunks.flatten[i]?) ∧
    ((start {}).receiveAll chunks').2 = ((start {}).receiveAll chunks).2 := by
  intro chunks chunks'
  have hsizes : chunks'.map List.length = chunks.map List.length := by decide
  have hagree (i : Nat) (hi : ¬Framer.IsPayload {} chunks.flatten i) :
      chunks'.flatten[i]? = chunks.flatten[i]? := by
    have houtside : ¬(7 ≤ i ∧ i < 10) := by
      rintro ⟨hstart, hstop⟩
      refine hi ⟨Nat.lt_trans hstop (by decide), ⟨3, .synchronizing, false⟩, 7, ?_, hstart, hstop⟩
      decide +kernel
    have hsame : ∀ i < 12, ¬(7 ≤ i ∧ i < 10) → chunks'.flatten[i]? = chunks.flatten[i]? := by
      decide
    rcases Nat.lt_or_ge i 12 with hlt | hge
    · exact hsame i hlt houtside
    · rw [List.getElem?_eq_none hge, List.getElem?_eq_none hge]
  exact ⟨hsizes, hagree, receiveAll_eq_of_agree_outside_payload {} chunks chunks' hsizes hagree⟩

end Window

end StreamFraming
