import RustRocksdb.CxxRocksdb.Ring

namespace RustRocksdb
namespace CxxRocksdb

/-!
# Coalescing a read against the reads in flight

The submit-queue lambda first decides what a read must submit.  A key with no entry in
`m_pending_io` records the lengths of every requested iovec, and the whole list is read.
A key already present is meant to drop each iovec whose length is pending.

The code calls `new_iov.resize(iovs.size())` on the empty `new_iov`, which appends that
many null iovecs of length zero, and its nested loop appends a requested iovec once for
every pending length that differs from its own.  The list handed to `io_uring_prep_readv`
for a present key therefore starts with zero-length entries, an iovec can appear several
times, and a no-op is prepared only for a request with no iovecs at all.  The lemmas
here characterise the list and the new pending set for every pending map and request.
An iovec that appears `k` times is read into `k` times, each time with the next bytes of
the file, so with two or more other lengths pending its buffer ends up holding bytes from
the wrong offset.
-/

/-- The body of `for (auto len : pending_io_len)`: append `iov`, and record its length,
when the pending `len` differs from it. -/
def pushIfDiffers (iov : Iovec) (acc : List Iovec × IoValue) (len : Nat) :
    List Iovec × IoValue :=
  if iov.iovLen ≠ len then (acc.1 ++ [iov], acc.2.insert iov.iovLen) else acc

/-- The branch for a present key: `new_iov.resize(iovs.size())`, then the nested loop.
It returns `new_iov` and `new_io_len`. -/
def presentBranch (pendingIoLen : IoValue) (iovs : List Iovec) : List Iovec × IoValue :=
  iovs.foldl (fun acc iov => pendingIoLen.lens.foldl (pushIfDiffers iov) acc)
    (List.replicate iovs.length Iovec.zero, IoValue.empty)

/-- What the coalescing step leaves: the pending map, `new_iov`, and `ctx->m_iov`, which
`std::move` empties when the key was absent. -/
structure Coalesced where
  pendingIo : IoKey → Option IoValue
  newIov : List Iovec
  ctxIov : List Iovec

/-- Lines 35 to 65 of the submit-queue lambda, for the read of `iovs` at `ioKey`. -/
def coalesce (mPendingIo : IoKey → Option IoValue) (ioKey : IoKey) (iovs : List Iovec) :
    Coalesced :=
  match mPendingIo ioKey with
  | none =>
      let lenToRead := iovs.foldl (fun lenToRead io => lenToRead.insert io.iovLen) IoValue.empty
      ⟨Function.update mPendingIo ioKey (some lenToRead), iovs, []⟩
  | some pendingIoLen =>
      let (newIov, newIoLen) := presentBranch pendingIoLen iovs
      ⟨Function.update mPendingIo ioKey
          (some (newIoLen.lens.foldl (fun pending len => pending.insert len) pendingIoLen)),
        newIov, iovs⟩

/-- Lines 73 to 81: a readv of `new_iov` tagged with the plain pointer, or a no-op tagged
with the low bit when `new_iov` is empty. -/
def prepSqe (fd off : Int) (ctx : BitVec 64) (newIov : List Iovec) : Sqe :=
  if !newIov.isEmpty then ⟨.readv fd newIov off, sqeUserData false ctx⟩
  else ⟨.nop, sqeUserData true ctx⟩

theorem prepSqe_nil (fd off : Int) (ctx : BitVec 64) :
    prepSqe fd off ctx [] = ⟨.nop, sqeUserData true ctx⟩ := rfl

theorem prepSqe_of_ne_nil {fd off : Int} {ctx : BitVec 64} {newIov : List Iovec}
    (nonempty : newIov ≠ []) : prepSqe fd off ctx newIov = ⟨.readv fd newIov off, sqeUserData false ctx⟩ := by
  cases newIov
  · contradiction
  · rfl

/-- The tag of the prepared entry says whether `new_iov` was empty. -/
theorem prepSqe_userData (fd off : Int) (ctx : BitVec 64) (newIov : List Iovec) :
    (prepSqe fd off ctx newIov).userData = sqeUserData newIov.isEmpty ctx := by
  cases newIov <;> rfl

/-! ## The nested loop -/

section Loops

variable (iov : Iovec)

theorem foldl_pushIfDiffers_fst (lens : List Nat) (acc : List Iovec × IoValue) :
    (lens.foldl (pushIfDiffers iov) acc).1 =
      acc.1 ++ List.replicate (lens.countP fun len => iov.iovLen ≠ len) iov := by
  induction lens generalizing acc with
  | nil => simp
  | cons len rest ih =>
      by_cases same : iov.iovLen = len
      · simp [pushIfDiffers, same, ih]
      · simp [pushIfDiffers, same, ih, List.replicate_succ]

theorem mem_foldl_pushIfDiffers_snd (lens : List Nat) (acc : List Iovec × IoValue) (len : Nat) :
    len ∈ (lens.foldl (pushIfDiffers iov) acc).2.lens ↔
      len ∈ acc.2.lens ∨ (len = iov.iovLen ∧ ∃ other ∈ lens, other ≠ iov.iovLen) := by
  induction lens generalizing acc with
  | nil => simp
  | cons other rest ih =>
      by_cases same : iov.iovLen = other
      · simp only [List.foldl_cons, pushIfDiffers, same, ne_eq, not_true_eq_false, if_false, ih,
          List.mem_cons, exists_eq_or_imp]
        tauto
      · simp only [List.foldl_cons, pushIfDiffers, same, ne_eq, not_false_eq_true, if_true, ih,
          IoValue.mem_insert, List.mem_cons, exists_eq_or_imp, Ne.symm same]
        tauto

end Loops

section Present

variable (pendingIoLen : IoValue)

theorem foldl_present_fst (iovs : List Iovec) (acc : List Iovec × IoValue) :
    (iovs.foldl (fun acc iov => pendingIoLen.lens.foldl (pushIfDiffers iov) acc) acc).1 =
      acc.1 ++ iovs.flatMap fun iov =>
        List.replicate (pendingIoLen.lens.countP fun len => iov.iovLen ≠ len) iov := by
  induction iovs generalizing acc with
  | nil => simp
  | cons iov rest ih => simp [ih, foldl_pushIfDiffers_fst]

theorem mem_foldl_present_snd (iovs : List Iovec) (acc : List Iovec × IoValue) (len : Nat) :
    len ∈ (iovs.foldl (fun acc iov => pendingIoLen.lens.foldl (pushIfDiffers iov) acc) acc).2.lens ↔
      len ∈ acc.2.lens ∨
        ∃ iov ∈ iovs, iov.iovLen = len ∧ ∃ other ∈ pendingIoLen.lens, other ≠ len := by
  induction iovs generalizing acc with
  | nil => simp
  | cons iov rest ih =>
      simp only [List.foldl_cons, ih, mem_foldl_pushIfDiffers_snd, List.mem_cons,
        exists_eq_or_imp]
      aesop

/-- The list a present key produces: one zero-length iovec per requested iovec, then each
requested iovec once for every pending length that differs from its own. -/
theorem presentBranch_fst (iovs : List Iovec) :
    (presentBranch pendingIoLen iovs).1 =
      List.replicate iovs.length Iovec.zero ++ iovs.flatMap fun iov =>
        List.replicate (pendingIoLen.lens.countP fun len => iov.iovLen ≠ len) iov :=
  foldl_present_fst pendingIoLen iovs _

theorem mem_presentBranch_snd (iovs : List Iovec) (len : Nat) :
    len ∈ (presentBranch pendingIoLen iovs).2.lens ↔
      ∃ iov ∈ iovs, iov.iovLen = len ∧ ∃ other ∈ pendingIoLen.lens, other ≠ len := by
  simp [presentBranch, mem_foldl_present_snd]

end Present

/-! ## The coalescing step -/

section Coalesce

variable {mPendingIo : IoKey → Option IoValue} {ioKey : IoKey} {iovs : List Iovec}

theorem coalesce_pendingIo_of_ne {key : IoKey} (other : key ≠ ioKey) :
    (coalesce mPendingIo ioKey iovs).pendingIo key = mPendingIo key := by
  unfold coalesce
  split <;> simp [Function.update_noteq other]

theorem coalesce_absent (absent : mPendingIo ioKey = none) :
    coalesce mPendingIo ioKey iovs =
      ⟨Function.update mPendingIo ioKey
        (some (iovs.foldl (fun lenToRead io => lenToRead.insert io.iovLen) IoValue.empty)),
        iovs, []⟩ := by
  simp [coalesce, absent]

theorem coalesce_present {pendingIoLen : IoValue} (found : mPendingIo ioKey = some pendingIoLen) :
    coalesce mPendingIo ioKey iovs =
      ⟨Function.update mPendingIo ioKey
        (some ((presentBranch pendingIoLen iovs).2.lens.foldl
          (fun pending len => pending.insert len) pendingIoLen)),
        (presentBranch pendingIoLen iovs).1, iovs⟩ := by
  simp [coalesce, found]

/-- A key that was absent then holds exactly the requested lengths. -/
theorem mem_pendingLens_coalesce_absent (absent : mPendingIo ioKey = none) (len : Nat) :
    len ∈ pendingLens (coalesce mPendingIo ioKey iovs).pendingIo ioKey ↔
      ∃ iov ∈ iovs, iov.iovLen = len := by
  simp [coalesce_absent absent, pendingLens, IoValue.mem_foldl_insert]

/-- A present key gains the length of each requested iovec for which some pending length
differs; a length equal to the only pending one is not added. -/
theorem mem_pendingLens_coalesce_present {pendingIoLen : IoValue}
    (found : mPendingIo ioKey = some pendingIoLen) (len : Nat) :
    len ∈ pendingLens (coalesce mPendingIo ioKey iovs).pendingIo ioKey ↔
      len ∈ pendingIoLen.lens ∨
        ∃ iov ∈ iovs, iov.iovLen = len ∧ ∃ other ∈ pendingIoLen.lens, other ≠ len := by
  simp only [coalesce_present found, pendingLens, Function.update_same, Option.map_some',
    Option.getD_some]
  rw [IoValue.mem_foldl_insert (fun len => len)]
  simp only [exists_eq_right, mem_presentBranch_snd]

/-- Coalescing never removes a pending length, at any key. -/
theorem mem_pendingLens_coalesce {key : IoKey} {len : Nat}
    (pending : len ∈ pendingLens mPendingIo key) :
    len ∈ pendingLens (coalesce mPendingIo ioKey iovs).pendingIo key := by
  by_cases same : key = ioKey
  · subst same
    cases found : mPendingIo key with
    | none => simp [pendingLens, found] at pending
    | some pendingIoLen =>
        rw [pendingLens_some found] at pending
        exact (mem_pendingLens_coalesce_present found len).2 (Or.inl pending)
  · simpa [pendingLens, coalesce_pendingIo_of_ne same] using pending

/-- `new_iov` is empty exactly for an empty request, whether or not the key was present. -/
theorem coalesce_newIov_eq_nil_iff : (coalesce mPendingIo ioKey iovs).newIov = [] ↔ iovs = [] := by
  cases found : mPendingIo ioKey with
  | none => simp [coalesce_absent found]
  | some pendingIoLen =>
      rw [coalesce_present found, presentBranch_fst]
      constructor
      · intro empty
        simp only [List.append_eq_nil, List.replicate_eq_nil_iff, List.length_eq_zero] at empty
        exact empty.1
      · rintro rfl
        rfl

/-- When nothing is left to read, `ctx->m_iov` is empty as well. -/
theorem coalesce_ctxIov_of_newIov_eq_nil (empty : (coalesce mPendingIo ioKey iovs).newIov = []) :
    (coalesce mPendingIo ioKey iovs).ctxIov = [] := by
  have noRequest := coalesce_newIov_eq_nil_iff.1 empty
  subst noRequest
  unfold coalesce
  split <;> rfl

/-- `ctx->m_iov` is left empty exactly when the key had nothing pending, so that
`std::move` handed the request to `new_iov`, or when the request was empty. -/
theorem coalesce_ctxIov_eq_nil_iff :
    (coalesce mPendingIo ioKey iovs).ctxIov = [] ↔ mPendingIo ioKey = none ∨ iovs = [] := by
  cases found : mPendingIo ioKey with
  | none => simp [coalesce_absent found]
  | some pendingIoLen => simp [coalesce_present found]

/-- When `ctx->m_iov` is empty, `new_iov` is the whole request. -/
theorem coalesce_newIov_of_ctxIov_eq_nil (moved : (coalesce mPendingIo ioKey iovs).ctxIov = []) :
    (coalesce mPendingIo ioKey iovs).newIov = iovs := by
  rcases coalesce_ctxIov_eq_nil_iff.1 moved with absent | rfl
  · simp [coalesce_absent absent]
  · exact coalesce_newIov_eq_nil_iff.2 rfl

/-- The operation the submit path prepares, for every pending map and request: a no-op
exactly for an empty request; for an absent key a readv of the request itself; for a
present key a readv of one zero-length iovec per requested iovec, followed by each
requested iovec once for every pending length that differs from its own. -/
theorem prepSqe_coalesce_op (mPendingIo : IoKey → Option IoValue) (fd off : Int)
    (ctx : BitVec 64) (iovs : List Iovec) :
    (prepSqe fd off ctx (coalesce mPendingIo ⟨fd, off⟩ iovs).newIov).op =
      if iovs = [] then .nop
      else .readv fd
        (match mPendingIo ⟨fd, off⟩ with
          | none => iovs
          | some pendingIoLen => List.replicate iovs.length Iovec.zero ++ iovs.flatMap fun iov =>
              List.replicate (pendingIoLen.lens.countP fun len => iov.iovLen ≠ len) iov)
        off := by
  by_cases empty : iovs = []
  · rw [coalesce_newIov_eq_nil_iff.2 empty, prepSqe_nil, if_pos empty]
  · rw [prepSqe_of_ne_nil fun none => empty (coalesce_newIov_eq_nil_iff.1 none), if_neg empty]
    cases found : mPendingIo ⟨fd, off⟩ with
    | none => simp [coalesce_absent found]
    | some pendingIoLen => simp [coalesce_present found, presentBranch_fst]

/-- A read of one iovec whose length differs from all `k` lengths pending at its key goes to
the kernel as a zero-length iovec and then that iovec `k` times. Read in full, the buffer is
written `k` times, the `j`-th time with the bytes `j` lengths past the offset, so for `k ≥ 2`
it ends up holding bytes from the wrong place in the file. -/
theorem fresh_length_read_overwrites_buffer {pendingIoLen : IoValue} {fd off : Int}
    (found : mPendingIo ⟨fd, off⟩ = some pendingIoLen) (ctx : BitVec 64) (iov : Iovec)
    (fresh : iov.iovLen ∉ pendingIoLen.lens) :
    (prepSqe fd off ctx (coalesce mPendingIo ⟨fd, off⟩ [iov]).newIov).op =
        .readv fd (Iovec.zero :: List.replicate pendingIoLen.lens.length iov) off ∧
      (prepSqe fd off ctx (coalesce mPendingIo ⟨fd, off⟩ [iov]).newIov).op.writes
          (pendingIoLen.lens.length * iov.iovLen : Nat) =
        ⟨fd, off, off, 0, 0⟩ :: (List.range pendingIoLen.lens.length).map fun j =>
          ⟨fd, off, off + (j * iov.iovLen : Nat), iov.iovBase, iov.iovLen⟩ := by
  have differs : ∀ len ∈ pendingIoLen.lens, iov.iovLen ≠ len :=
    fun len member same => fresh (same ▸ member)
  have op : (prepSqe fd off ctx (coalesce mPendingIo ⟨fd, off⟩ [iov]).newIov).op =
      .readv fd (Iovec.zero :: List.replicate pendingIoLen.lens.length iov) off := by
    simpa [prepSqe, coalesce_present found, presentBranch_fst] using differs
  refine ⟨op, ?_⟩
  simp only [op, Op.writes, Int.natCast_nonneg, if_true, Int.toNat_natCast, readvWrites,
    Iovec.zero, Nat.cast_zero, add_zero, Nat.sub_zero, Nat.zero_min, readvWrites_replicate]

end Coalesce

/-- The pending map after reads of 512 and then 1024 bytes at offset 0 of descriptor 3. -/
def twoReadsPending : IoKey → Option IoValue :=
  (coalesce (coalesce (fun _ => none) ⟨3, 0⟩ [⟨1000, 512⟩]).pendingIo ⟨3, 0⟩ [⟨1500, 1024⟩]).pendingIo

/-- A third read there, of 2048 bytes, reads them twice into its buffer: first the bytes at
offset 0, then over them the bytes at offset 2048. -/
theorem fresh_length_read_overwrites_buffer_third_read :
    (prepSqe 3 0 16#64 (coalesce twoReadsPending ⟨3, 0⟩ [⟨2000, 2048⟩]).newIov).op =
        .readv 3 [Iovec.zero, ⟨2000, 2048⟩, ⟨2000, 2048⟩] 0 ∧
      (prepSqe 3 0 16#64 (coalesce twoReadsPending ⟨3, 0⟩ [⟨2000, 2048⟩]).newIov).op.writes 4096 =
        [⟨3, 0, 0, 0, 0⟩, ⟨3, 0, 0, 2000, 2048⟩, ⟨3, 0, 2048, 2000, 2048⟩] :=
  fresh_length_read_overwrites_buffer (rfl : twoReadsPending ⟨3, 0⟩ = some ⟨[1024, 512], by decide⟩)
    16#64 ⟨2000, 2048⟩ (by decide)

/-- After a first read of 4096 bytes at offset 0 of descriptor 3, a second read of the
same length there prepares a readv of one null, zero-length iovec, not a no-op. -/
theorem duplicate_read_prepares_zero_length_readv :
    prepSqe 3 0 16#64 (coalesce (coalesce (fun _ => none) ⟨3, 0⟩ [⟨1000, 4096⟩]).pendingIo
      ⟨3, 0⟩ [⟨2000, 4096⟩]).newIov = ⟨.readv 3 [Iovec.zero] 0, 16#64⟩ := by
  decide

end CxxRocksdb
end RustRocksdb
