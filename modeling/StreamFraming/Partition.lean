import StreamFraming.Octet

/-!
# Partitions

Data cut into consecutive chunks, as a network delivers it.
-/

namespace StreamFraming.Partition

/-- Cuts `data` into chunks of the given sizes while there is data. A size of zero counts as
one, and what the sizes leave over is the last chunk. -/
def chunks : Octets → List Nat → List Octets
  | [], _ => []
  | data@(_ :: _), [] => [data]
  | data@(_ :: _), size :: sizes => data.take (max size 1) :: chunks (data.drop (max size 1)) sizes

@[simp] theorem chunks_nil (sizes : List Nat) : chunks [] sizes = [] := by
  cases sizes <;> rfl

/-- When the sizes run out, what is left of the data is one chunk. -/
theorem chunks_of_no_sizes {data : Octets} (h : data ≠ []) : chunks data [] = [data] := by
  cases data with
  | nil => exact absurd rfl h
  | cons b data => rfl

/-- The first size, at least one, cuts off the first chunk. -/
theorem chunks_cons {data : Octets} (h : data ≠ []) (size : Nat) (sizes : List Nat) :
    chunks data (size :: sizes) =
      data.take (max size 1) :: chunks (data.drop (max size 1)) sizes := by
  cases data with
  | nil => exact absurd rfl h
  | cons b data => rfl

/-- No octet is lost or moved. -/
@[simp] theorem flatten_chunks (data : Octets) (sizes : List Nat) :
    (chunks data sizes).flatten = data := by
  fun_induction chunks data sizes with
  | case1 => rfl
  | case2 => simp
  | case3 b data size sizes ih =>
    rw [List.flatten_cons, ih]
    exact List.take_append_drop _ _

/-- The number of octets that chunks of the given sizes take, if there are so many. -/
def covered : List Nat → Nat
  | [] => 0
  | size :: sizes => max size 1 + covered sizes

/-- What has arrived after each of some chunks, if `before` had arrived before them. -/
def arrivals (before : Octets) : List Octets → List Octets
  | [] => []
  | chunk :: chunks => (before ++ chunk) :: arrivals (before ++ chunk) chunks

/-- Cuts `data` into chunks of one size. -/
def evenly (size : Nat) (data : Octets) : List Octets :=
  chunks data (List.replicate (data.length / max size 1) size)

end StreamFraming.Partition
