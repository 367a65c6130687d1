import RustRocksdb.Crocksdb.Heap

namespace RustRocksdb
namespace Crocksdb

/-!
# Next-level boundaries of an SST partitioner context

A context from `crocksdb_sst_partitioner_context_create` starts with empty
`output_next_level_boundaries` and `output_next_level_size`.
`crocksdb_sst_partitioner_context_push_bounary_and_size` appends a boundary key to the first
and, unless it is the first boundary, appends the size it is given to the second, so the sizes
are those of the segments between consecutive boundaries.  The getters index the two vectors,
with no defined behaviour outside them.

The main result says what any sequence of pushes leaves in a new context: the boundaries in
order, and with each boundary but the first the size pushed along with it, the size pushed
with the first boundary being dropped.
-/

/-- The fields of `SstPartitioner::Context` these functions read and write; the size of a
segment is a `size_t`. -/
structure SstPartitionerContext where
  outputNextLevelBoundaries : List Bytes
  outputNextLevelSize : List UInt64
  deriving DecidableEq, Repr

/-- `crocksdb_sst_partitioner_context_create`. -/
def crocksdbSstPartitionerContextCreate : SstPartitionerContext := ⟨[], []⟩

/-- `crocksdb_sst_partitioner_context_push_bounary_and_size`. -/
def crocksdbSstPartitionerContextPushBounaryAndSize (context : SstPartitionerContext)
    (boundaryKey : Bytes) (size : UInt64) : SstPartitionerContext :=
  { outputNextLevelSize :=
      if !context.outputNextLevelBoundaries.isEmpty then context.outputNextLevelSize ++ [size]
      else context.outputNextLevelSize
    outputNextLevelBoundaries := context.outputNextLevelBoundaries ++ [boundaryKey] }

/-- `crocksdb_sst_partitioner_context_get_next_level_size`: `output_next_level_size[index]`. -/
def crocksdbSstPartitionerContextGetNextLevelSize (context : SstPartitionerContext)
    (index : Int) : Option UInt64 :=
  if 0 ≤ index then context.outputNextLevelSize.get? index.toNat else none

/-- `crocksdb_sst_partitioner_context_get_next_level_boundary`: the key and length of
`output_next_level_boundaries[index]`. -/
def crocksdbSstPartitionerContextGetNextLevelBoundary (context : SstPartitionerContext)
    (index : Int) : Option Bytes :=
  if 0 ≤ index then context.outputNextLevelBoundaries.get? index.toNat else none

/-- Pushes of boundary keys with their sizes, in order. -/
def pushAll (context : SstPartitionerContext) (pushes : List (Bytes × UInt64)) :
    SstPartitionerContext :=
  pushes.foldl (fun context push =>
    crocksdbSstPartitionerContextPushBounaryAndSize context push.1 push.2) context

/-- Pushes append their boundaries, and their sizes from the second boundary of the context
on. -/
theorem pushAll_eq (context : SstPartitionerContext) (pushes : List (Bytes × UInt64)) :
    pushAll context pushes =
      { outputNextLevelBoundaries := context.outputNextLevelBoundaries ++ pushes.map Prod.fst
        outputNextLevelSize := context.outputNextLevelSize ++
          (if context.outputNextLevelBoundaries = [] then pushes.tail else pushes).map
            Prod.snd } := by
  induction pushes generalizing context with
  | nil => simp [pushAll]
  | cons push pushes ih =>
      rw [pushAll, List.foldl_cons, ← pushAll, ih]
      by_cases first : context.outputNextLevelBoundaries = [] <;>
        simp [crocksdbSstPartitionerContextPushBounaryAndSize, first]

/-- **What pushes leave in a new context.**  After any sequence of pushes into a context from
`crocksdb_sst_partitioner_context_create`, boundary `index` is the key of push `index`, and
size `index` is the size given with push `index + 1`, the one closing the segment that starts
at boundary `index`: the size given with the first boundary is dropped.  Indices past the
pushes have no boundary or size. -/
theorem pushes_record_segment_sizes (pushes : List (Bytes × UInt64)) (index : Nat) :
    crocksdbSstPartitionerContextGetNextLevelBoundary
        (pushAll crocksdbSstPartitionerContextCreate pushes) index =
      (pushes.get? index).map Prod.fst ∧
    crocksdbSstPartitionerContextGetNextLevelSize
        (pushAll crocksdbSstPartitionerContextCreate pushes) index =
      (pushes.get? (index + 1)).map Prod.snd := by
  rw [pushAll_eq]
  cases pushes <;> simp [crocksdbSstPartitionerContextGetNextLevelBoundary,
    crocksdbSstPartitionerContextGetNextLevelSize, crocksdbSstPartitionerContextCreate,
    Int.ofNat_zero_le, ← List.map_cons]

end Crocksdb
end RustRocksdb
