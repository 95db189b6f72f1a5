import StreamFraming.Machine.Partition
import StreamFraming.Proofs.Agreement

/-!
# Data cut into chunks

What `Partition.chunks` does to data. Two facts carry everything: the first `k` chunks are the
octets that the first `k` sizes cover (`flatten_take_chunks`), and the chunks behind them are the
partition of what is left by the sizes that are left (`drop_chunks`). `IsPartition` says what the
chunks are without cutting, and there is only one such list (`IsPartition.unique`).

A machine cuts the same chunks and is never about to cut one off nothing (`Machine.chunks_eq`).
A cross-check that takes the chunks in scans parts of the data that grow with every chunk, up to
all of it.
-/

namespace StreamFraming

namespace Partition

variable {data before part : Octets} {sizes : List Nat} {cs ds : List Octets} {chunk : Octets}
  {k : Nat}

/-! ## The first chunks and those behind them -/

/-- There are no chunks exactly where there is no data. -/
theorem chunks_eq_nil_iff : chunks data sizes = [] ↔ data = [] := by
  constructor
  · intro h
    rw [← flatten_chunks data sizes, h, List.flatten_nil]
  · rintro rfl
    exact chunks_nil sizes

theorem ne_nil_of_mem_chunks (h : chunk ∈ chunks data sizes) : chunk ≠ [] := by
  fun_induction chunks data sizes with
  | case1 => exact absurd h List.not_mem_nil
  | case2 b data =>
    rw [List.mem_singleton.1 h]
    exact List.cons_ne_nil b data
  | case3 b data size sizes ih =>
    rcases List.mem_cons.1 h with rfl | h
    · -- a size of zero counts as one
      rw [Ne, List.take_eq_nil_iff]
      rintro (hsize | hdata)
      · omega
      · exact absurd hdata (List.cons_ne_nil b data)
    · exact ih h

/-- There is at most one chunk more than there are sizes. -/
theorem length_chunks_le (data : Octets) (sizes : List Nat) :
    (chunks data sizes).length ≤ sizes.length + 1 := by
  fun_induction chunks data sizes with
  | case1 => exact Nat.zero_le _
  | case2 => exact Nat.le_refl _
  | case3 b data size sizes ih => exact Nat.succ_le_succ ih

/-- The first chunks are the octets that the first sizes cover. -/
theorem flatten_take_chunks (data : Octets) (hk : k ≤ sizes.length) :
    ((chunks data sizes).take k).flatten = data.take (covered (sizes.take k)) := by
  fun_induction chunks data sizes generalizing k with
  | case1 => simp
  | case2 b data =>
    rw [Nat.le_zero.1 hk]
    rfl
  | case3 b data size sizes ih =>
    cases k with
    | zero => rfl
    | succ k =>
      rw [List.take_succ_cons, List.flatten_cons, ih (Nat.le_of_succ_le_succ hk),
        List.take_succ_cons, covered, List.take_add]

/-- The chunks behind the first ones are the partition of what these leave. -/
theorem drop_chunks (data : Octets) (hk : k ≤ sizes.length) :
    (chunks data sizes).drop k =
      chunks (data.drop (covered (sizes.take k))) (sizes.drop k) := by
  fun_induction chunks data sizes generalizing k with
  | case1 => simp [chunks_nil]
  | case2 b data =>
    rw [Nat.le_zero.1 hk]
    rfl
  | case3 b data size sizes ih =>
    cases k with
    | zero => rfl
    | succ k =>
      rw [List.drop_succ_cons, ih (Nat.le_of_succ_le_succ hk), List.take_succ_cons, covered,
        List.drop_drop, List.drop_succ_cons]

/-- Chunk `k` is the first one of what the first `k` sizes leave. -/
theorem getElem?_chunks (data : Octets) (hk : k ≤ sizes.length) :
    (chunks data sizes)[k]? =
      (chunks (data.drop (covered (sizes.take k))) (sizes.drop k)).head? := by
  rw [← List.head?_drop, drop_chunks data hk]

/-- Where there is a chunk, the sizes before it have left something. -/
theorem covered_lt_of_getElem?_chunks (h : (chunks data sizes)[k]? = some chunk) :
    k ≤ sizes.length ∧ covered (sizes.take k) < data.length := by
  have hlength := length_chunks_le data sizes
  obtain ⟨hlt, -⟩ := List.getElem?_eq_some_iff.1 h
  have hk : k ≤ sizes.length := by omega
  refine ⟨hk, Nat.lt_of_not_le ?_⟩
  intro hle
  rw [getElem?_chunks data hk, List.drop_eq_nil_of_le hle, chunks_nil] at h
  exact nomatch h

/-- While the data lasts, the first chunks hold as many octets as their sizes say. -/
theorem length_flatten_take_chunks (hk : k ≤ sizes.length)
    (hlt : covered (sizes.take k) < data.length) :
    ((chunks data sizes).take k).flatten.length = covered (sizes.take k) := by
  rw [flatten_take_chunks data hk, List.length_take, Nat.min_eq_left (Nat.le_of_lt hlt)]

/-! ## What a partition is -/

/-- The chunks are the partition of the data by the sizes. -/
structure IsPartition (data : Octets) (sizes : List Nat) (cs : List Octets) : Prop where
  /-- No octet is lost, repeated or moved. -/
  flatten_eq : cs.flatten = data
  ne_nil : ∀ chunk ∈ cs, chunk ≠ []
  eq_nil_iff : cs = [] ↔ data = []
  length_le : cs.length ≤ sizes.length + 1
  /-- A chunk that has a size is as long as this says, zero counting as one, or is all that the
  chunks before it leave. -/
  length_eq : ∀ k chunk size, cs[k]? = some chunk → sizes[k]? = some size →
    chunk.length = min (max size 1) (data.length - (cs.take k).flatten.length)
  /-- A chunk beyond the sizes is there only if they leave something, and then it is all of it. -/
  beyond_eq : ∀ k chunk, cs[k]? = some chunk → sizes.length ≤ k →
    k = sizes.length ∧ covered sizes < data.length ∧ chunk = data.drop (covered sizes)

/-- A chunk with a size has that many octets, at least one, or what is left of the data. -/
theorem length_getElem?_chunks {size : Nat} (h : (chunks data sizes)[k]? = some chunk)
    (hs : sizes[k]? = some size) :
    chunk.length =
      min (max size 1) (data.length - ((chunks data sizes).take k).flatten.length) := by
  obtain ⟨hk, hlt⟩ := covered_lt_of_getElem?_chunks h
  obtain ⟨hks, hsize⟩ := List.getElem?_eq_some_iff.1 hs
  have hleft : data.drop (covered (sizes.take k)) ≠ [] := by
    rw [Ne, List.drop_eq_nil_iff]
    omega
  rw [getElem?_chunks data hk, List.drop_eq_getElem_cons hks, chunks_cons hleft, List.head?_cons,
    hsize] at h
  injection h with h
  rw [length_flatten_take_chunks hk hlt, ← h, List.length_take, List.length_drop]

/-- Only the one chunk behind all of the sizes has no size, and it is what they leave of the data.
-/
theorem eq_drop_of_getElem?_chunks (h : (chunks data sizes)[k]? = some chunk)
    (hs : sizes.length ≤ k) :
    k = sizes.length ∧ covered sizes < data.length ∧ chunk = data.drop (covered sizes) := by
  obtain ⟨hk, hlt⟩ := covered_lt_of_getElem?_chunks h
  obtain rfl := Nat.le_antisymm hk hs
  rw [List.take_length] at hlt
  have hleft : data.drop (covered sizes) ≠ [] := by
    rw [Ne, List.drop_eq_nil_iff]
    omega
  rw [getElem?_chunks data hk, List.take_length, List.drop_length, chunks_of_no_sizes hleft,
    List.head?_cons] at h
  injection h with h
  exact ⟨rfl, hlt, h.symm⟩

/-- Cutting the data by sizes is a partition of it. -/
theorem isPartition_chunks (data : Octets) (sizes : List Nat) :
    IsPartition data sizes (chunks data sizes) where
  flatten_eq := flatten_chunks data sizes
  ne_nil _ := ne_nil_of_mem_chunks
  eq_nil_iff := chunks_eq_nil_iff
  length_le := length_chunks_le data sizes
  length_eq _ _ _ := length_getElem?_chunks
  beyond_eq _ _ := eq_drop_of_getElem?_chunks

/-! ## There is one partition -/

/-- A partition goes on as long as data is left. -/
theorem IsPartition.length_le_iff (h : IsPartition data sizes cs) :
    cs.length ≤ k ↔ (cs.take k).flatten = data := by
  constructor
  · intro hk
    rw [List.take_of_length_le hk, h.flatten_eq]
  · intro hk
    have hflatten := h.flatten_eq
    rw [← List.take_append_drop k cs, List.flatten_append, hk, List.append_right_eq_self,
      List.flatten_eq_nil_iff] at hflatten
    rw [← List.drop_eq_nil_iff, List.eq_nil_iff_forall_not_mem]
    intro chunk hmem
    exact h.ne_nil chunk (List.mem_of_mem_drop hmem) (hflatten chunk hmem)

/-- A chunk stands in the data where the chunks before it end. -/
theorem IsPartition.eq_take (h : IsPartition data sizes cs) (hc : cs[k]? = some chunk) :
    chunk = (data.drop (cs.take k).flatten.length).take chunk.length := by
  obtain ⟨hlt, hchunk⟩ := List.getElem?_eq_some_iff.1 hc
  have hcs : cs = cs.take k ++ chunk :: cs.drop (k + 1) := by
    rw [← hchunk, ← List.drop_eq_getElem_cons hlt, List.take_append_drop]
  have hflatten : cs.flatten = (cs.take k).flatten ++ (chunk ++ (cs.drop (k + 1)).flatten) := by
    rw [← List.flatten_cons, ← List.flatten_append, ← hcs]
  rw [← h.flatten_eq, hflatten, List.drop_left, List.take_left]

/-- What comes after the same chunks is the same chunk. -/
theorem IsPartition.getElem?_eq (hc : IsPartition data sizes cs) (hd : IsPartition data sizes ds)
    (h : cs.take k = ds.take k) : cs[k]? = ds[k]? := by
  by_cases hk : cs.length ≤ k
  · have hk' : ds.length ≤ k := by
      rw [hd.length_le_iff, ← h]
      exact hc.length_le_iff.1 hk
    rw [List.getElem?_eq_none hk, List.getElem?_eq_none hk']
  · have hk' : ¬ds.length ≤ k := by
      rw [hd.length_le_iff, ← h, ← hc.length_le_iff]
      exact hk
    have hck := List.getElem?_eq_getElem (Nat.lt_of_not_le hk)
    have hdk := List.getElem?_eq_getElem (Nat.lt_of_not_le hk')
    have hlength : cs[k].length = ds[k].length := by
      by_cases hs : sizes.length ≤ k
      · rw [(hc.beyond_eq k _ hck hs).2.2, (hd.beyond_eq k _ hdk hs).2.2]
      · have hsk := List.getElem?_eq_getElem (Nat.lt_of_not_le hs)
        rw [hc.length_eq k _ _ hck hsk, hd.length_eq k _ _ hdk hsk, h]
    rw [hck, hdk, hc.eq_take hck, hd.eq_take hdk, h, hlength]

/-- No other chunks are a partition of the same data by the same sizes. -/
theorem IsPartition.unique (hc : IsPartition data sizes cs) (hd : IsPartition data sizes ds) :
    cs = ds := by
  have htake (k : Nat) : cs.take k = ds.take k := by
    induction k with
    | zero => rfl
    | succ k ih => rw [List.take_add_one, List.take_add_one, ih, hc.getElem?_eq hd ih]
  apply List.ext_getElem?
  intro k
  exact hc.getElem?_eq hd (htake k)

/-! ## What has arrived -/

theorem length_arrivals (before : Octets) (cs : List Octets) :
    (arrivals before cs).length = cs.length := by
  induction cs generalizing before with
  | nil => rfl
  | cons chunk cs ih => rw [arrivals, List.length_cons, List.length_cons, ih]

/-- With a chunk, the chunks up to it have arrived. -/
theorem getElem?_arrivals (before : Octets) (hk : k < cs.length) :
    (arrivals before cs)[k]? = some (before ++ (cs.take (k + 1)).flatten) := by
  induction cs generalizing before k with
  | nil => exact absurd hk (Nat.not_lt_zero k)
  | cons chunk cs ih =>
    cases k with
    | zero => simp [arrivals]
    | succ k =>
      rw [arrivals, List.getElem?_cons_succ, ih _ (Nat.lt_of_succ_lt_succ hk), List.append_assoc]
      rfl

/-- Whatever has arrived is the start of all that is to arrive. -/
theorem prefix_of_mem_arrivals (h : part ∈ arrivals before cs) : part <+: before ++ cs.flatten := by
  induction cs generalizing before with
  | nil => exact absurd h List.not_mem_nil
  | cons chunk cs ih =>
    rw [List.flatten_cons, ← List.append_assoc]
    rcases List.mem_cons.1 h with rfl | h
    · exact List.prefix_append _ _
    · exact ih h

/-- All that arrives is put behind what was there, and adds to it. -/
theorem lt_of_mem_arrivals (hcs : ∀ chunk ∈ cs, chunk ≠ []) (h : part ∈ arrivals before cs) :
    before <+: part ∧ before.length < part.length := by
  induction cs generalizing before with
  | nil => exact absurd h List.not_mem_nil
  | cons chunk cs ih =>
    obtain ⟨hchunk, hcs⟩ := List.forall_mem_cons.1 hcs
    have hadds : before.length < (before ++ chunk).length := by
      have := List.length_pos_iff.2 hchunk
      rw [List.length_append]
      omega
    rcases List.mem_cons.1 h with rfl | h
    · exact ⟨List.prefix_append _ _, hadds⟩
    · obtain ⟨hstart, hlt⟩ := ih hcs h
      exact ⟨(List.prefix_append _ _).trans hstart, Nat.lt_trans hadds hlt⟩

/-- What has arrived grows with every chunk. -/
theorem pairwise_arrivals (before : Octets) (hcs : ∀ chunk ∈ cs, chunk ≠ []) :
    (before :: arrivals before cs).Pairwise fun a b => a <+: b ∧ a.length < b.length := by
  induction cs generalizing before with
  | nil => exact List.pairwise_singleton _ _
  | cons chunk cs ih =>
    rw [List.pairwise_cons]
    exact ⟨fun part => lt_of_mem_arrivals hcs, ih _ (List.forall_mem_cons.1 hcs).2⟩

/-- In the end all of the chunks have arrived. -/
theorem getLast?_arrivals (before : Octets) (cs : List Octets) :
    (before :: arrivals before cs).getLast? = some (before ++ cs.flatten) := by
  induction cs generalizing before with
  | nil => simp [arrivals]
  | cons chunk cs ih =>
    rw [arrivals, List.getLast?_cons_cons, ih, List.flatten_cons, List.append_assoc]

end Partition

/-! ## The machine -/

namespace Machine

variable {rest : Octets}

theorem takeChunk_nil (size : UInt16) : takeChunk [] size = .error .crossed := rfl

theorem takeChunk_of_ne_nil (h : rest ≠ []) (size : UInt16) :
    takeChunk rest size =
      .ok (rest.take (max size.toNat 1), rest.drop (max size.toNat 1)) := by
  have hlength : 1 ≤ rest.length := List.length_pos_iff.2 h
  unfold takeChunk
  rw [clamp_of_le hlength, ok_bind, splitAt_of_le (Nat.min_le_right _ _)]
  -- a size beyond what is left takes all of it and leaves nothing, as the length of it does
  rcases Nat.le_total (max size.toNat 1) rest.length with hle | hle
  · rw [Nat.min_eq_left hle]
  · rw [Nat.min_eq_right hle, List.take_length, List.drop_length, List.take_of_length_le hle,
      List.drop_eq_nil_of_le hle]

/-- A chunk can be taken off anything but nothing. -/
theorem exists_takeChunk_iff (size : UInt16) :
    (∃ cut, takeChunk rest size = .ok cut) ↔ rest ≠ [] := by
  constructor
  · rintro ⟨cut, hcut⟩ rfl
    rw [takeChunk_nil] at hcut
    exact nomatch hcut
  · intro h
    exact ⟨_, takeChunk_of_ne_nil h size⟩

/-- The loop does not fail. Closed, what it comes to is the partition of what is left, behind what
was taken before. -/
theorem exists_takeChunks (taken : List Octets) (rest : Octets) (sizes : List UInt16) :
    ∃ chunks left, takeChunks taken rest sizes = .ok (chunks, left) ∧
      closeChunks chunks left = taken ++ Partition.chunks rest (sizes.map UInt16.toNat) := by
  induction sizes generalizing taken rest with
  | nil =>
    refine ⟨taken, rest, rfl, ?_⟩
    by_cases h : rest = []
    · rw [closeChunks, if_pos h, h, Partition.chunks_nil, List.append_nil]
    · rw [closeChunks, if_neg h, List.map_nil, Partition.chunks_of_no_sizes h]
  | cons size sizes ih =>
    by_cases h : rest = []
    · refine ⟨taken, rest, if_pos h, ?_⟩
      rw [closeChunks, if_pos h, h, Partition.chunks_nil, List.append_nil]
    · obtain ⟨chunks, left, hloop, hclose⟩ :=
        ih (taken ++ [rest.take (max size.toNat 1)]) (rest.drop (max size.toNat 1))
      refine ⟨chunks, left, ?_, ?_⟩
      · rw [takeChunks, if_neg h, takeChunk_of_ne_nil h, ok_bind]
        exact hloop
      · rw [hclose, List.map_cons, Partition.chunks_cons h, List.append_assoc]
        rfl

/-- A machine cuts the same chunks, and never one off nothing. -/
theorem chunks_eq (data : Octets) (sizes : List UInt16) :
    chunks data sizes = .ok (Partition.chunks data (sizes.map UInt16.toNat)) := by
  obtain ⟨taken, rest, hloop, hclose⟩ := exists_takeChunks [] data sizes
  rw [List.nil_append] at hclose
  rw [chunks, hloop, ok_bind, ← hclose]

end Machine

/-! ## A cross-check that takes the chunks in -/

namespace CrossCheck

open StreamFraming.Partition (IsPartition arrivals)

variable {i : Input} {s t : State} {chunk : Octets} {k : Nat}

/-- A chunk that passes its checks is scanned together with all that arrived before it, and as
much is consumed after it as the input says, taken modulo one more than what can be. -/
theorem State.of_step_eq_ok (h : s.step i chunk = .ok t) :
    (∃ part, Machine.slice i.data 0 t.arrived = .ok part ∧
      t.framer = (s.framer.scan part).framer ∧
      t.found = s.found + (s.framer.scan part).progress.synchronizing) ∧
    t.arrived = s.arrived + chunk.length ∧ t.turns = s.turns + 1 ∧
    t.consumed = s.consumed +
      i.consumeAfter s.turns % ((s.session.feed chunk).2.progress.valid + 1) := by
  unfold State.step at h
  dsimp only at h
  split at h
  · exact nomatch h
  · next part hpart =>
    split at h
    · exact nomatch h
    · split at h
      · exact nomatch h
      · split at h
        · exact nomatch h
        · injection h with h
          rw [← h]
          exact ⟨⟨part, hpart, rfl, rfl⟩, rfl, rfl, rfl⟩

/-- When a chunk arrives, the framer of the growing part scans what has arrived up to its end, and
the session scans the same less what it has consumed. -/
theorem exists_scan_of_arrival (h : i.chunks[k]? = some chunk) :
    ∃ part s t, (arrivals [] i.chunks)[k]? = some part ∧
      (i.chunks.take k).foldlM (State.step i) (State.start i) = .ok s ∧ s.step i chunk = .ok t ∧
      Machine.slice i.data 0 t.arrived = .ok part ∧
      t.framer = (s.framer.scan part).framer ∧
      t.found = s.found + (s.framer.scan part).progress.synchronizing ∧
      (s.session.feed chunk).2 = s.session.framer.scan (part.drop s.consumed) := by
  obtain ⟨hk, -⟩ := List.getElem?_eq_some_iff.1 h
  have hpart : (arrivals [] i.chunks)[k]? = some ((i.chunks.take k).flatten ++ chunk) := by
    rw [Partition.getElem?_arrivals [] hk, List.take_add_one, h]
    simp
  have hstart : (i.chunks.take k).flatten ++ chunk <+: i.data := by
    rw [← flatten_chunks i]
    exact Partition.prefix_of_mem_arrivals (List.mem_of_getElem? hpart)
  obtain ⟨s, hs, hlockstep⟩ := exists_inLockstep i k
  obtain ⟨t, ht, hnext⟩ := hlockstep.step hstart
  obtain ⟨⟨part, hslice, hframer, hfound⟩, -⟩ := State.of_step_eq_ok ht
  have hslice' : Machine.slice i.data 0 t.arrived = .ok ((i.chunks.take k).flatten ++ chunk) := by
    rw [hnext.arrived_eq]
    exact slice_of_isPrefix hstart
  obtain rfl := Except.ok.inj (hslice.symm.trans hslice')
  refine ⟨_, s, t, hpart, hs, ht, hslice, hframer, hfound, ?_⟩
  -- the session has consumed only what had arrived before the chunk
  have hconsumed : s.consumed ≤ (i.chunks.take k).flatten.length :=
    Nat.le_trans hlockstep.isCanonical.removed_le (Session.cursor_scan_start_le _ _)
  rw [List.drop_append_of_le_length hconsumed, ← hlockstep.isCanonical.bytes_eq]
  rfl

/-- The chunks are a true partition of the data. They are what `IsPartition` says, and nothing else
is. A machine cuts them without a fault: it could not take a chunk off nothing, and off anything
else it can. What has arrived after each of them grows strictly from nothing to the data, always a
start of it; and these parts are what is scanned while the chunks are taken in, one part for each
chunk, by the framer of the growing part and, less what it has consumed, by the session. -/
theorem chunks_partition_data (i : Input) :
    let sizes := i.splits.map UInt16.toNat
    let parts := arrivals [] i.chunks
    (IsPartition i.data sizes i.chunks ∧ ∀ cs, IsPartition i.data sizes cs → cs = i.chunks) ∧
    ((∀ rest size, (∃ cut, Machine.takeChunk rest size = .ok cut) ↔ rest ≠ []) ∧
      Machine.chunks i.data i.splits = .ok i.chunks) ∧
    (parts.length = i.chunks.length ∧ (∀ part ∈ parts, part <+: i.data) ∧
      ([] :: parts).Pairwise (fun a b => a <+: b ∧ a.length < b.length) ∧
      ([] :: parts).getLast? = some i.data) ∧
    ∀ k chunk, i.chunks[k]? = some chunk →
      ∃ part s t, parts[k]? = some part ∧
        (i.chunks.take k).foldlM (State.step i) (State.start i) = .ok s ∧
        s.step i chunk = .ok t ∧ Machine.slice i.data 0 t.arrived = .ok part ∧
        t.framer = (s.framer.scan part).framer ∧
        t.found = s.found + (s.framer.scan part).progress.synchronizing ∧
        (s.session.feed chunk).2 = s.session.framer.scan (part.drop s.consumed) := by
  intro sizes parts
  have hpartition : IsPartition i.data sizes i.chunks := Partition.isPartition_chunks _ _
  refine ⟨⟨hpartition, ?_⟩, ⟨?_, Machine.chunks_eq _ _⟩, ⟨?_, ?_, ?_, ?_⟩, ?_⟩
  · intro cs hcs
    exact hcs.unique hpartition
  · intro rest size
    exact Machine.exists_takeChunk_iff size
  · exact Partition.length_arrivals [] i.chunks
  · intro part hpart
    rw [← flatten_chunks i]
    exact Partition.prefix_of_mem_arrivals hpart
  · exact Partition.pairwise_arrivals [] hpartition.ne_nil
  · rw [Partition.getLast?_arrivals, flatten_chunks, List.nil_append]
  · intro k chunk
    exact exists_scan_of_arrival

/-- A size of zero takes one octet, and the last chunk is beyond the sizes; and a size that is
larger than what is left takes all of it, so that the size behind it is not used. -/
theorem chunks_partition_data_of_zero_and_oversized_splits :
    let i : Input :=
      { options := {}, data := [97, 98, 123, 49, 125, 10, 99, 10], splits := [0, 3],
        consumes := [1] }
    let j : Input :=
      { options := {}, data := [97, 10, 98], splits := [2, 65535, 7], consumes := [] }
    (IsPartition i.data [0, 3] [[97], [98, 123, 49], [125, 10, 99, 10]] ∧
      i.chunks = [[97], [98, 123, 49], [125, 10, 99, 10]] ∧
      ([97] : Octets).length =
        min (max 0 1) (i.data.length - (i.chunks.take 0).flatten.length) ∧
      ([125, 10, 99, 10] : Octets) = i.data.drop (Partition.covered [0, 3])) ∧
    (j.chunks = [[97, 10], [98]] ∧
      ([98] : Octets).length =
        min (max 65535 1) (j.data.length - (j.chunks.take 1).flatten.length) ∧
      Machine.chunks j.data j.splits = .ok [[97, 10], [98]]) ∧
    (([97, 98, 123, 49] : Octets) <+: i.data ∧
      ∃ s t : State, s.step i [98, 123, 49] = .ok t ∧
        t.framer = (s.framer.scan [97, 98, 123, 49]).framer) := by
  intro i j
  obtain ⟨⟨hi, hunique⟩, -, ⟨-, hstart, -, -⟩, hscans⟩ := chunks_partition_data i
  obtain ⟨⟨hj, -⟩, ⟨-, hmachine⟩, -, -⟩ := chunks_partition_data j
  have hchunks : i.chunks = [[97], [98, 123, 49], [125, 10, 99, 10]] := by decide +kernel
  have hchunks' : j.chunks = [[97, 10], [98]] := by decide +kernel
  have hpartition : IsPartition i.data [0, 3] [[97], [98, 123, 49], [125, 10, 99, 10]] :=
    hchunks ▸ hi
  have hpart : (arrivals [] i.chunks)[1]? = some [97, 98, 123, 49] := by decide +kernel
  have hzero := hi.length_eq 0 [97] 0 (by decide +kernel) (by decide +kernel)
  have hlarge := hj.length_eq 1 [98] 65535 (by decide +kernel) (by decide +kernel)
  obtain ⟨-, -, hbeyond⟩ :=
    hi.beyond_eq 2 [125, 10, 99, 10] (by decide +kernel) (by decide +kernel)
  obtain ⟨part, s, t, hpart', -, hstep, -, hframer, -, -⟩ :=
    hscans 1 [98, 123, 49] (by decide +kernel)
  rw [hpart] at hpart'
  injection hpart' with hpart'
  subst hpart'
  exact ⟨⟨hpartition, (hunique _ hpartition).symm, hzero, hbeyond⟩,
    ⟨hchunks', hlarge, hchunks' ▸ hmachine⟩,
    hstart _ (List.mem_of_getElem? hpart), s, t, hstep, hframer⟩

end CrossCheck

end StreamFraming
