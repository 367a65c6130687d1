import RustRocksdb.CxxRocksdb.World

namespace RustRocksdb
namespace CxxRocksdb

/-!
# The contexts behind the outstanding entries

Every entry the reader has prepared and not had reaped carries a tagged pointer to the
`IO_ctx` of its call.  `Tracked` says that each such pointer names a live context, that
no two entries name the same one, that a no-op's context has no iovecs left, and that
contexts and suspended coroutines correspond: a context holding a promise belongs to that
suspended coroutine, and every suspended coroutine has its context behind an entry.

The invariant holds on every reachable world.  The reaper therefore never reads a deleted
context, which is the one obligation `io_uring_reap_cq` leaves to its callers.
-/

/-- The invariant tying the ring's entries to the heap and to the coroutines. -/
structure Tracked (w : World) : Prop where
  live : ∀ u ∈ w.mIoUring.userDatas, ∃ io, w.heap (decodeUserData u).2 = some io ∧
    ((decodeUserData u).1 = true → io.mIov = [])
  distinct : (w.mIoUring.userDatas.map fun u => (decodeUserData u).2).Nodup
  promised : ∀ u ∈ w.mIoUring.userDatas, ∀ io c, w.heap (decodeUserData u).2 = some io →
    io.mPromise = some c → ∃ call, w.calls c = some call ∧ call.state = .suspended ∧
      call.ctx = (decodeUserData u).2
  awaited : ∀ c call, w.calls c = some call → call.state = .suspended →
    ∃ u ∈ w.mIoUring.userDatas, (decodeUserData u).2 = call.ctx ∧
      ∃ io, w.heap call.ctx = some io ∧ io.mPromise = some c

theorem tracked_init (entries : Nat) : Tracked (World.init entries) :=
  ⟨by simp [World.init, Ring.userDatas], by simp [World.init, Ring.userDatas],
    by simp [World.init, Ring.userDatas], by simp [World.init]⟩

section Steps

variable {w next : World}

/-- Moving entries around the ring, with the heap and the coroutines untouched. -/
theorem Tracked.of_perm (tracked : Tracked w)
    (entries : next.mIoUring.userDatas.Perm w.mIoUring.userDatas)
    (heap : next.heap = w.heap) (calls : next.calls = w.calls) : Tracked next where
  live u member := heap ▸ tracked.live u (entries.mem_iff.1 member)
  distinct := (entries.map _).nodup_iff.2 tracked.distinct
  promised u member := heap ▸ calls ▸ tracked.promised u (entries.mem_iff.1 member)
  awaited c call := by
    rw [heap, calls]
    intro found suspended
    obtain ⟨u, member, rest⟩ := tracked.awaited c call found suspended
    exact ⟨u, entries.mem_iff.2 member, rest⟩

theorem tracked_kernelComplete (tracked : Tracked w) (i : Nat) (res : Int) :
    Tracked (w.kernelComplete i res) :=
  tracked.of_perm (Ring.userDatas_complete w.mIoUring i res) rfl rfl

/-- A live context is not named by the pointer of a fresh one. -/
theorem Tracked.ne_of_fresh (tracked : Tracked w) {ctx : BitVec 64} (fresh : w.heap ctx = none)
    {u : BitVec 64} (member : u ∈ w.mIoUring.userDatas) : (decodeUserData u).2 ≠ ctx := by
  rintro rfl
  obtain ⟨io, live, -⟩ := tracked.live u member
  simp [live] at fresh

/-- A fresh coroutine holds no promise of a live context. -/
theorem Tracked.ne_of_freshCall (tracked : Tracked w) {call c : Nat} (fresh : w.calls call = none)
    {u : BitVec 64} (member : u ∈ w.mIoUring.userDatas) {io : IoCtx}
    (live : w.heap (decodeUserData u).2 = some io) (promise : io.mPromise = some c) : c ≠ call := by
  rintro rfl
  obtain ⟨record, found, -⟩ := tracked.promised u member io c live promise
  simp [found] at fresh

/-- A submit call allocates a fresh context and a fresh coroutine and adds at most one
entry, which names that context. -/
theorem Tracked.of_fresh (tracked : Tracked w) {call : Nat} {ctx : BitVec 64} {io : IoCtx}
    {record : Call} (freshCall : w.calls call = none) (freshCtx : w.heap ctx = none)
    (heap : next.heap = Function.update w.heap ctx (some io))
    (calls : next.calls = Function.update w.calls call (some record))
    (added : Option (BitVec 64))
    (entries : next.mIoUring.userDatas.Perm (added.toList ++ w.mIoUring.userDatas))
    (addedNames : ∀ u ∈ added, (decodeUserData u).2 = ctx ∧
      ((decodeUserData u).1 = true → io.mIov = []))
    (promise : ∀ c, io.mPromise = some c →
      c = call ∧ record.state = .suspended ∧ record.ctx = ctx ∧ added.isSome)
    (suspended : record.state = .suspended →
      io.mPromise = some call ∧ record.ctx = ctx ∧ added.isSome) : Tracked next where
  live u member := by
    rcases List.mem_append.1 (entries.mem_iff.1 member) with fresh | old
    · obtain ⟨named, nop⟩ := addedNames u (Option.mem_toList.1 fresh)
      exact ⟨io, by simp [heap, named], nop⟩
    · rw [heap, Function.update_noteq (tracked.ne_of_fresh freshCtx old)]
      exact tracked.live u old
  distinct := by
    refine (entries.map _).nodup_iff.2 ?_
    rw [List.map_append, List.nodup_append]
    refine ⟨by cases added <;> simp, tracked.distinct, ?_⟩
    intro a newer older
    obtain ⟨u, fresh, rfl⟩ := List.mem_map.1 newer
    obtain ⟨v, old, same⟩ := List.mem_map.1 older
    exact tracked.ne_of_fresh freshCtx old
      (same.trans (addedNames u (Option.mem_toList.1 fresh)).1)
  promised u member io' c live owns := by
    rcases List.mem_append.1 (entries.mem_iff.1 member) with fresh | old
    · have named := (addedNames u (Option.mem_toList.1 fresh)).1
      rw [heap, named, Function.update_same, Option.some.injEq] at live
      subst live
      obtain ⟨rfl, state, owner, -⟩ := promise c owns
      exact ⟨record, by simp [calls], state, owner.trans named.symm⟩
    · rw [heap, Function.update_noteq (tracked.ne_of_fresh freshCtx old)] at live
      rw [calls, Function.update_noteq (tracked.ne_of_freshCall freshCall old live owns)]
      exact tracked.promised u old io' c live owns
  awaited c entry found state := by
    by_cases same : c = call
    · subst same
      rw [calls, Function.update_same] at found
      cases found
      obtain ⟨owns, owner, isSome⟩ := suspended state
      obtain ⟨u, rfl⟩ := Option.isSome_iff_exists.1 isSome
      refine ⟨u, entries.mem_iff.2 (by simp), ?_, io, by simp [heap, owner], owns⟩
      exact ((addedNames u rfl).1).trans owner.symm
    · rw [calls, Function.update_noteq same] at found
      obtain ⟨u, old, named, io', live, owns⟩ := tracked.awaited c entry found state
      have other : _ ≠ ctx := named ▸ tracked.ne_of_fresh freshCtx old
      exact ⟨u, entries.mem_iff.2 (List.mem_append_right _ old), named, io',
        by rw [heap, Function.update_noteq other]; exact live, owns⟩

theorem tracked_submitQueue (tracked : Tracked w) {call : Nat} {ctx : BitVec 64}
    (iov : List Iovec) (fd off ret : Int) (freshCall : w.calls call = none)
    (freshCtx : w.heap ctx = none) (aligned : ctx.toNat % 2 = 0) :
    Tracked (w.submitQueue call ctx iov fd off ret) := by
  have names : ∀ u ∈ some (prepSqe fd off ctx (coalesce w.mPendingIo ⟨fd, off⟩ iov).newIov).userData,
      (decodeUserData u).2 = ctx ∧
        ((decodeUserData u).1 = true → (coalesce w.mPendingIo ⟨fd, off⟩ iov).ctxIov = []) := by
    rintro u ⟨⟩
    simp only [prepSqe_userData, decodeUserData_sqeUserData _ aligned, true_and,
      List.isEmpty_iff]
    exact coalesce_ctxIov_of_newIov_eq_nil
  cases free : w.mIoUring.ioUringGetSqe
  · rw [World.submitQueue_of_sqeFull _ _ _ _ _ _ _ free]
    exact tracked.of_fresh freshCall freshCtx rfl rfl none (by simp) (by simp) (by simp)
      (by simp)
  · rcases lt_or_le ret 0 with rejected | accepted
    · rw [World.submitQueue_of_rejected _ _ _ _ _ _ _ free rejected]
      exact tracked.of_fresh freshCall freshCtx rfl rfl (some _) (Ring.userDatas_pushSqe _ _)
        (by simpa only [Sqe.freeIov_userData] using names) (by simp) (by simp)
    · rw [World.submitQueue_of_accepted _ _ _ _ _ _ _ free accepted]
      exact tracked.of_fresh freshCall freshCtx rfl rfl (some _)
        ((Ring.userDatas_ioUringSubmit _ ret).trans (Ring.userDatas_pushSqe _ _))
        (by simpa only [awaitCtx] using names) (by simp [awaitCtx]) (by simp [awaitCtx])

/-- Reaping the head entry deletes its context and resumes the coroutine whose promise the
context holds; every other entry keeps its context and its coroutine.  The pending map
and the counter play no part. -/
theorem Tracked.of_seen (tracked : Tracked w) {cqe : Cqe} {rest : List Cqe} {io : IoCtx}
    (head : w.mIoUring.cq = cqe :: rest) (live : w.heap (decodeUserData cqe.userData).2 = some io)
    (mPendingIo : IoKey → Option IoValue) (mNPendingSqe : Int) :
    Tracked { w with
      mPendingIo, mNPendingSqe
      mIoUring := w.mIoUring.ioUringCqeSeen
      heap := Function.update w.heap (decodeUserData cqe.userData).2 none
      calls := resumeIfSet w.calls io.mPromise } :=
  have seen := Ring.userDatas_ioUringCqeSeen head
  have split := (seen.map fun u => (decodeUserData u).2).nodup_iff.1 tracked.distinct
  have other : ∀ u ∈ w.mIoUring.ioUringCqeSeen.userDatas,
      (decodeUserData u).2 ≠ (decodeUserData cqe.userData).2 := fun u member same =>
    (List.nodup_cons.1 split).1 (List.mem_map.2 ⟨u, member, same⟩)
  have older : ∀ u ∈ w.mIoUring.ioUringCqeSeen.userDatas, u ∈ w.mIoUring.userDatas :=
    fun u member => seen.mem_iff.2 (List.mem_cons_of_mem _ member)
  { live := fun u member => by
      simp only [Function.update_noteq (other u member)]
      exact tracked.live u (older u member)
    distinct := (List.nodup_cons.1 split).2
    promised := fun u member io' c live' owns => by
      simp only [Function.update_noteq (other u member)] at live' ⊢
      obtain ⟨entry, found, state, owner⟩ := tracked.promised u (older u member) io' c live' owns
      refine ⟨entry, ?_, state, owner⟩
      rw [resumeIfSet_of_ne fun promise => ?_]
      · exact found
      · obtain ⟨first, firstFound, -, firstOwner⟩ := tracked.promised _
          (seen.mem_iff.2 (List.mem_cons_self _ _)) io c live promise
        rw [found, Option.some.injEq] at firstFound
        exact other u member (owner.symm.trans (firstFound ▸ firstOwner))
    awaited := fun c entry found state => by
      dsimp only at found
      by_cases resumedHere : io.mPromise = some c
      · rw [resumedHere, resumeIfSet_self] at found
        obtain ⟨before, -, rfl⟩ := Option.map_eq_some'.1 found
        cases state
      · rw [resumeIfSet_of_ne resumedHere] at found
        obtain ⟨u, member, named, io₂, live₂, owns⟩ := tracked.awaited c entry found state
        rcases List.mem_cons.1 (seen.mem_iff.1 member) with rfl | remaining
        · rw [← named, live, Option.some.injEq] at live₂
          exact absurd (live₂ ▸ owns) resumedHere
        · have moved : entry.ctx ≠ (decodeUserData cqe.userData).2 := named ▸ other u remaining
          exact ⟨u, remaining, named, io₂, by simp only [Function.update_noteq moved, live₂],
            owns⟩ }

theorem tracked_reapOne (tracked : Tracked w) {cqe : Cqe} {rest : List Cqe}
    (head : w.mIoUring.cq = cqe :: rest) (reaped : w.reapOne cqe = some next) : Tracked next := by
  rcases World.reapOne_cases reaped with ⟨-, rfl⟩ | ⟨-, io, live, rfl⟩
  · exact tracked.of_perm (List.Perm.refl _) rfl rfl
  · exact tracked.of_seen head live _ _

theorem tracked_step (tracked : Tracked w) {e : Event} (stepped : w.step e = some next) :
    Tracked next := by
  rcases World.step_cases stepped with
    ⟨call, ctx, iov, fd, off, ret, -, freshCall, freshCtx, aligned, rfl⟩ | ⟨i, res, -, -, rfl⟩ |
    ⟨-, cqe, rest, head, reaped⟩
  · exact tracked_submitQueue tracked iov fd off ret freshCall freshCtx aligned
  · exact tracked_kernelComplete tracked i res
  · exact tracked_reapOne tracked head reaped

end Steps

theorem Reachable.tracked {w : World} (reachable : Reachable w) : Tracked w := by
  induction reachable with
  | init entries => exact tracked_init entries
  | step e _ stepped tracked => exact tracked_step tracked stepped

/-- The head completion of a reachable world names a live context, so an iteration of the
reaper's loop is always defined there. -/
theorem reapOne_defined {w : World} (reachable : Reachable w) {cqe : Cqe} {rest : List Cqe}
    (head : w.mIoUring.cq = cqe :: rest) : ∃ next, w.reapOne cqe = some next := by
  rcases lt_or_le cqe.res 0 with negative | nonneg
  · exact ⟨_, World.reapOne_of_neg w negative⟩
  · have member : cqe.userData ∈ w.mIoUring.userDatas := by simp [Ring.userDatas, head]
    obtain ⟨io, live, -⟩ := reachable.tracked.live _ member
    exact ⟨_, World.reapOne_of_live w nonneg live⟩

/-- On every reachable world, each entry prepared and not reaped names a live context, no
two entries name the same one, and a no-op's context has no iovecs left. -/
theorem outstanding_entries_name_live_contexts {w : World} (reachable : Reachable w) :
    (∀ u ∈ w.mIoUring.userDatas, ∃ io, w.heap (decodeUserData u).2 = some io ∧
      ((decodeUserData u).1 = true → io.mIov = [])) ∧
    (w.mIoUring.userDatas.map fun u => (decodeUserData u).2).Nodup :=
  ⟨reachable.tracked.live, reachable.tracked.distinct⟩

/-- A read and an empty request, which prepares a no-op, both outstanding. -/
def readAndNop : List Event := [.submit 1 8#64 [⟨1000, 4096⟩] 3 0 1, .submit 2 16#64 [] 7 0 1]

theorem outstanding_entries_name_live_contexts_read_and_nop :
    ∃ w, (World.init 4).run readAndNop = some w ∧ Reachable w ∧ w.mIoUring.userDatas.length = 2 ∧
      ((∀ u ∈ w.mIoUring.userDatas, ∃ io, w.heap (decodeUserData u).2 = some io ∧
        ((decodeUserData u).1 = true → io.mIov = [])) ∧
      (w.mIoUring.userDatas.map fun u => (decodeUserData u).2).Nodup) :=
  ⟨_, rfl, .ofRun 4 readAndNop rfl, rfl,
    outstanding_entries_name_live_contexts (.ofRun 4 readAndNop rfl)⟩

end CxxRocksdb
end RustRocksdb
