import StreamFraming.Machine.Operation

/-!
# Partitions on a machine

Data cut into chunks as a machine cuts it, one chunk after the other off what is left. A chunk is
to be one octet at least and no more than what is left, and where nothing is left there is no
such size: a machine that asked for one could not go on. It shares nothing with
`Partition.chunks`.
-/

namespace StreamFraming.Machine

/-- Takes a chunk of the given size off `rest`. -/
def takeChunk (rest : Octets) (size : UInt16) : Except Fault (Octets × Octets) := do
  let size ← clamp size.toNat 1 rest.length
  splitAt rest size

/-- Takes chunks of the given sizes off `rest` until nothing is left. The chunks come behind those
taken before, with what is left in the end. -/
def takeChunks (taken : List Octets) (rest : Octets) :
    List UInt16 → Except Fault (List Octets × Octets)
  | [] => .ok (taken, rest)
  | size :: sizes =>
    if rest = [] then .ok (taken, rest)
    else do
      let (chunk, after) ← takeChunk rest size
      takeChunks (taken ++ [chunk]) after sizes

/-- Some chunks and then, if anything is left, all of it. -/
def closeChunks (taken : List Octets) (rest : Octets) : List Octets :=
  if rest = [] then taken else taken ++ [rest]

/-- Cuts `data` into chunks of the given sizes. -/
def chunks (data : Octets) (sizes : List UInt16) : Except Fault (List Octets) := do
  let (taken, rest) ← takeChunks [] data sizes
  .ok (closeChunks taken rest)

end StreamFraming.Machine
