import RustRocksdb.CxxRocksdb.UserData

namespace RustRocksdb
namespace CxxRocksdb

/-!
# The ring, as liburing presents it to the reader

The kernel ring is the reader's environment.  An entry handed out by `io_uring_get_sqe`
waits in the submission queue until `io_uring_submit` makes the kernel consume it; it
then runs, and its completion is posted to the completion queue, where it stays until
`io_uring_cqe_seen`.  A slot is free while fewer entries than the ring's size wait
unconsumed.

`io_uring_submit` answers with the kernel's `ret`.  A negative `ret` consumed nothing,
and the queued entries stay in the submission queue for the next call; otherwise the
kernel took the first `ret` of them.  Which running operation finishes next, and with
which result, is the kernel's choice.  A readv that returns `res ≥ 0` has filled its
iovecs in order with `res` consecutive bytes of the file from its offset, and `written`
records where they went and from which position of the file they came.

An entry points at its iovec array, which the kernel reads when it consumes the entry.  A
submit call that fails after preparing its entry returns, and its `new_iov` with it, while
the entry still waits: the kernel later reads that entry's iovecs from freed memory, and
writes wherever they point.  Such an entry is a `readvFreed`, and nothing it writes is
recorded.
-/

/-- The operation prepared in a submission queue entry. -/
inductive Op where
  /-- `io_uring_prep_readv(sqe, fd, iovecs, nr_vecs, offset)` -/
  | readv (fd : Int) (iovecs : List Iovec) (offset : Int)
  /-- A readv of `nrVecs` iovecs whose array was freed while the entry waited. -/
  | readvFreed (fd : Int) (nrVecs : Nat) (offset : Int)
  /-- `io_uring_prep_nop(sqe)` -/
  | nop
  deriving DecidableEq, Repr

/-- A prepared submission queue entry. -/
structure Sqe where
  op : Op
  userData : BitVec 64
  deriving DecidableEq, Repr

/-- A completion queue entry. -/
structure Cqe where
  userData : BitVec 64
  res : Int
  deriving DecidableEq, Repr

/-- Bytes the kernel placed in caller memory: `count` bytes, read from `filePos`, into the
buffer at `iovBase`, by a readv of `fd` at `offset`. -/
structure Write where
  fd : Int
  offset : Int
  filePos : Int
  iovBase : Nat
  count : Nat
  deriving DecidableEq, Repr

/-- A readv that read `res` bytes fills its iovecs in order, each up to its length, with
consecutive bytes of the file starting at `filePos`. -/
def readvWrites (fd offset : Int) : Int → List Iovec → Nat → List Write
  | _, [], _ => []
  | filePos, iov :: rest, res =>
      ⟨fd, offset, filePos, iov.iovBase, min iov.iovLen res⟩ ::
        readvWrites fd offset (filePos + iov.iovLen) rest (res - iov.iovLen)

/-- What an operation that completed with `res` wrote into buffers named by an iovec array
the reader still owns. -/
def Op.writes : Op → Int → List Write
  | .readv fd iovecs offset, res =>
      if 0 ≤ res then readvWrites fd offset offset iovecs res.toNat else []
  | .readvFreed _ _ _, _ => []
  | .nop, _ => []

/-- The number of bytes a list of iovecs asks for. -/
def iovLenSum : List Iovec → Nat
  | [] => 0
  | iov :: rest => iov.iovLen + iovLenSum rest

/-- The bytes an operation asks the kernel for, as far as the reader can name them. -/
def Op.length : Op → Nat
  | .readv _ iovecs _ => iovLenSum iovecs
  | .readvFreed _ _ _ => 0
  | .nop => 0

/-- The entry once the iovec array it points to has been freed. -/
def Sqe.freeIov (sqe : Sqe) : Sqe :=
  match sqe.op with
  | .readv fd iovecs offset => { sqe with op := .readvFreed fd iovecs.length offset }
  | _ => sqe

@[simp] theorem Sqe.freeIov_userData (sqe : Sqe) : sqe.freeIov.userData = sqe.userData := by
  unfold Sqe.freeIov
  split <;> rfl

/-- A readv that reads at least its whole length fills its `j`-th iovec in full with the
bytes that follow those of the iovecs before it. -/
theorem mem_readvWrites_of_full (fd offset filePos : Int) (iovs : List Iovec) (res : Nat)
    (full : iovLenSum iovs ≤ res) (j : Nat) (small : j < iovs.length) :
    ⟨fd, offset, filePos + iovLenSum (iovs.take j), (iovs.get ⟨j, small⟩).iovBase,
        (iovs.get ⟨j, small⟩).iovLen⟩ ∈ readvWrites fd offset filePos iovs res := by
  induction iovs generalizing filePos res j with
  | nil => simp at small
  | cons iov rest ih =>
      have first : iov.iovLen ≤ res := by simp only [iovLenSum] at full; omega
      cases j with
      | zero => simp [readvWrites, iovLenSum, first]
      | succ j =>
          have later := ih (filePos + iov.iovLen) (res - iov.iovLen)
            (by simp only [iovLenSum] at full; omega) j (by simpa using small)
          simp only [readvWrites, List.mem_cons]
          right
          simpa [iovLenSum, add_assoc] using later

/-- A readv of the same iovec `k` times that reads in full writes its buffer `k` times, the
`j`-th time with the bytes `j` lengths further into the file. -/
theorem readvWrites_replicate (fd offset filePos : Int) (iov : Iovec) (k : Nat) :
    readvWrites fd offset filePos (List.replicate k iov) (k * iov.iovLen) =
      (List.range k).map fun j =>
        ⟨fd, offset, filePos + (j * iov.iovLen : Nat), iov.iovBase, iov.iovLen⟩ := by
  induction k generalizing filePos with
  | zero => rfl
  | succ k ih =>
      rw [List.replicate_succ, readvWrites, Nat.succ_mul, Nat.add_sub_cancel, ih,
        List.range_succ_eq_map, List.map_cons, List.map_map]
      simp only [Nat.zero_mul, Nat.cast_zero, add_zero, Nat.le_add_left, min_eq_left,
        Function.comp_def, Nat.succ_mul, Nat.cast_add, List.cons.injEq, true_and]
      refine List.map_congr_left fun j _ => ?_
      simp only [Write.mk.injEq, and_true, true_and]
      omega

/-- The ring: its size, the entries not yet consumed by the kernel, the running ones, and
the posted completions, oldest first. -/
structure Ring where
  entries : Nat
  sq : List Sqe
  inflight : List Sqe
  cq : List Cqe
  deriving DecidableEq, Repr

namespace Ring

/-- `io_uring_get_sqe` returns a slot, rather than `nullptr`. -/
def ioUringGetSqe (r : Ring) : Bool := decide (r.sq.length < r.entries)

/-- The prepared entry takes the slot `io_uring_get_sqe` handed out. -/
def pushSqe (r : Ring) (sqe : Sqe) : Ring := { r with sq := r.sq ++ [sqe] }

/-- `io_uring_submit` when the kernel answers `ret`. -/
def ioUringSubmit (r : Ring) (ret : Int) : Ring × Int :=
  if ret < 0 then (r, ret)
  else ({ r with sq := r.sq.drop ret.toNat, inflight := r.inflight ++ r.sq.take ret.toNat },
    (r.sq.take ret.toNat).length)

/-- `io_uring_cqe_seen` on the head completion. -/
def ioUringCqeSeen (r : Ring) : Ring := { r with cq := r.cq.tail }

/-- The kernel finishes the `i`-th running operation with result `res`. -/
def complete (r : Ring) (i : Nat) (res : Int) : Ring :=
  match r.inflight.get? i with
  | some sqe => { r with inflight := r.inflight.erase sqe, cq := r.cq ++ [⟨sqe.userData, res⟩] }
  | none => r

/-- The `user_data` of every entry prepared and not yet reaped, wherever it waits. -/
def userDatas (r : Ring) : List (BitVec 64) :=
  r.sq.map Sqe.userData ++ r.inflight.map Sqe.userData ++ r.cq.map Cqe.userData

theorem userDatas_pushSqe (r : Ring) (sqe : Sqe) :
    (r.pushSqe sqe).userDatas.Perm (sqe.userData :: r.userDatas) :=
  List.perm_iff_count.2 fun u => by
    simp only [userDatas, pushSqe, List.map_append, List.count_append, List.map_cons,
      List.map_nil, List.count_cons, List.count_nil]
    omega

theorem userDatas_ioUringSubmit (r : Ring) (ret : Int) :
    (r.ioUringSubmit ret).1.userDatas.Perm r.userDatas := by
  unfold ioUringSubmit
  split
  · exact List.Perm.refl _
  · refine List.perm_iff_count.2 fun u => ?_
    have split := congrArg (fun l => (l.map Sqe.userData).count u)
      (List.take_append_drop ret.toNat r.sq)
    simp only [List.map_append, List.count_append] at split
    simp only [userDatas, List.map_append, List.count_append]
    omega

theorem userDatas_complete (r : Ring) (i : Nat) (res : Int) :
    (r.complete i res).userDatas.Perm r.userDatas := by
  unfold complete
  split
  · rename_i sqe found
    have moved := List.perm_iff_count.1
      ((List.perm_cons_erase (List.get?_mem found)).map Sqe.userData)
    refine List.perm_iff_count.2 fun u => ?_
    have one := moved u
    simp only [List.map_cons, List.count_cons] at one
    simp only [userDatas, List.map_append, List.count_append, List.map_cons, List.map_nil,
      List.count_cons, List.count_nil]
    omega
  · exact List.Perm.refl _

theorem userDatas_ioUringCqeSeen {r : Ring} {cqe : Cqe} {rest : List Cqe}
    (head : r.cq = cqe :: rest) :
    r.userDatas.Perm (cqe.userData :: r.ioUringCqeSeen.userDatas) := by
  simp only [userDatas, ioUringCqeSeen, head, List.map_cons, List.tail_cons]
  exact List.perm_middle

/-- Entries waiting or running are among the outstanding ones. -/
theorem mem_userDatas_of_queued {r : Ring} {sqe : Sqe} (queued : sqe ∈ r.sq ++ r.inflight) :
    sqe.userData ∈ r.userDatas := by
  rw [List.mem_append] at queued
  rcases queued with waiting | running
  · exact List.mem_append_left _ (List.mem_append_left _ (List.mem_map_of_mem _ waiting))
  · exact List.mem_append_left _ (List.mem_append_right _ (List.mem_map_of_mem _ running))

theorem mem_userDatas_of_completed {r : Ring} {cqe : Cqe} (completed : cqe ∈ r.cq) :
    cqe.userData ∈ r.userDatas :=
  List.mem_append_right _ (List.mem_map_of_mem _ completed)

theorem mem_queued_pushSqe (r : Ring) (sqe other : Sqe) :
    other ∈ (r.pushSqe sqe).sq ++ (r.pushSqe sqe).inflight ↔
      other = sqe ∨ other ∈ r.sq ++ r.inflight := by
  simp only [pushSqe, List.mem_append, List.mem_singleton]
  tauto

/-- `io_uring_submit` moves entries from the submission queue to the running ones and
loses none. -/
theorem mem_queued_ioUringSubmit (r : Ring) (ret : Int) {sqe : Sqe} :
    sqe ∈ (r.ioUringSubmit ret).1.sq ++ (r.ioUringSubmit ret).1.inflight ↔
      sqe ∈ r.sq ++ r.inflight := by
  unfold ioUringSubmit
  split
  · rfl
  · conv_rhs => rw [← List.take_append_drop ret.toNat r.sq]
    simp only [List.mem_append]
    tauto

@[simp] theorem ioUringSubmit_cq (r : Ring) (ret : Int) : (r.ioUringSubmit ret).1.cq = r.cq := by
  unfold ioUringSubmit
  split <;> rfl

/-- The kernel finishing the `i`-th running operation. -/
theorem complete_of_found {r : Ring} {i : Nat} {sqe : Sqe} (found : r.inflight.get? i = some sqe)
    (res : Int) :
    r.complete i res =
      { r with inflight := r.inflight.erase sqe, cq := r.cq ++ [⟨sqe.userData, res⟩] } := by
  rw [complete, found]

/-- The kernel finishing an operation leaves the submission queue alone. -/
@[simp] theorem complete_sq (r : Ring) (i : Nat) (res : Int) : (r.complete i res).sq = r.sq := by
  unfold complete
  split <;> rfl

@[simp] theorem complete_entries (r : Ring) (i : Nat) (res : Int) :
    (r.complete i res).entries = r.entries := by
  unfold complete
  split <;> rfl

/-- The kernel finishing an operation only appends to the completion queue. -/
theorem cq_prefix_complete (r : Ring) (i : Nat) (res : Int) : r.cq <+: (r.complete i res).cq := by
  unfold complete
  split
  · exact List.prefix_append _ _
  · exact List.prefix_refl _

theorem complete_of_missing {r : Ring} {i : Nat} (missing : r.inflight.get? i = none)
    (res : Int) : r.complete i res = r := by
  rw [complete, missing]

end Ring

end CxxRocksdb
end RustRocksdb
