import RustRocksdb.CxxRocksdb.Contexts

namespace RustRocksdb
namespace CxxRocksdb

/-!
# Pending lengths are never cleared

The reaper cleans `m_pending_io` only in its no-op branch, and only by the iovecs left in
the no-op's context.  A no-op is prepared only for a request with no iovecs, so that list
is always empty: the cleanup erases no length, and at most drops a key whose set was
already empty.  The readv branch does not touch the map at all.

Hence, on every reachable world, no event removes a pending length.  A length recorded
for a key stays there after its read has completed and been reaped, and every later read
of that length at that key is treated as a duplicate.
-/

/-- With no iovecs in the context, the no-op cleanup leaves every pending length as it was. -/
theorem pendingLens_eraseNopLens_of_nil {mPendingIo : IoKey → Option IoValue} {io : IoCtx}
    (empty : io.mIov = []) (key : IoKey) :
    pendingLens (eraseNopLens mPendingIo io) key = pendingLens mPendingIo key := by
  simp only [eraseNopLens, empty, List.foldl_nil]
  split
  · rfl
  · rename_i pending found
    by_cases same : key = ⟨io.mFd, io.mOff⟩
    · subst same
      split
      · rename_i cleared
        simp [pendingLens, found, List.isEmpty_iff.1 cleared]
      · simp [pendingLens, found]
    · split <;> simp [pendingLens, Function.update_noteq same]

/-- An iteration of the reaper's loop on a reachable world changes no pending length. -/
theorem reapOne_pendingLens {w next : World} (tracked : Tracked w) {cqe : Cqe} {rest : List Cqe}
    (head : w.mIoUring.cq = cqe :: rest) (reaped : w.reapOne cqe = some next) :
    pendingLens next.mPendingIo = pendingLens w.mPendingIo := by
  funext key
  rcases World.reapOne_cases reaped with ⟨-, rfl⟩ | ⟨-, io, live, rfl⟩
  · rfl
  · have member : cqe.userData ∈ w.mIoUring.userDatas := by simp [Ring.userDatas, head]
    obtain ⟨io', live', nopEmpty⟩ := tracked.live _ member
    rw [live, Option.some.injEq] at live'
    subst live'
    dsimp only
    split
    · exact pendingLens_eraseNopLens_of_nil (nopEmpty ‹_›) key
    · rfl

theorem step_pendingLens {w next : World} (tracked : Tracked w) {e : Event}
    (stepped : w.step e = some next) {key : IoKey} {len : Nat}
    (pending : len ∈ pendingLens w.mPendingIo key) : len ∈ pendingLens next.mPendingIo key := by
  rcases World.step_cases stepped with
    ⟨call, ctx, iov, fd, off, ret, -, -, -, -, rfl⟩ | ⟨i, res, -, -, rfl⟩ | ⟨-, cqe, rest, head, reaped⟩
  · rw [World.submitQueue_mPendingIo]
    exact mem_pendingLens_coalesce pending
  · exact pending
  · rwa [reapOne_pendingLens tracked head reaped]

/-- Once a length is pending at a key, it stays pending in every world a run reaches,
whatever completes and whatever is reaped in between. -/
theorem pendingLens_persist {w next : World} (reachable : Reachable w) (es : List Event)
    (ran : w.run es = some next) {key : IoKey} {len : Nat}
    (pending : len ∈ pendingLens w.mPendingIo key) : len ∈ pendingLens next.mPendingIo key :=
  (World.run_induction (fun v => Reachable v ∧ len ∈ pendingLens v.mPendingIo key)
    (fun _ ⟨reach, kept⟩ stepped =>
      ⟨reach.step _ stepped, step_pendingLens reach.tracked stepped kept⟩)
    ⟨reachable, pending⟩ ran).2

/-- A read of 4096 bytes at offset 0 of descriptor 3, submitted at once. -/
def firstRead : List Event := [.submit 1 8#64 [⟨1000, 4096⟩] 3 0 1]

theorem pendingLens_persist_after_reap :
    ∃ w next, (World.init 4).run firstRead = some w ∧
      w.run [.complete 0 4096, .reap] = some next ∧ Reachable w ∧
      4096 ∈ pendingLens w.mPendingIo ⟨3, 0⟩ ∧ 4096 ∈ pendingLens next.mPendingIo ⟨3, 0⟩ :=
  ⟨_, _, rfl, rfl, .ofRun 4 firstRead rfl, by decide,
    pendingLens_persist (.ofRun 4 firstRead rfl) [.complete 0 4096, .reap] rfl (by decide)⟩

/-- A read completed and reaped leaves its length pending with nothing outstanding, and a
later read of the same block then gets a readv of one zero-length iovec instead of being
submitted afresh. -/
theorem completed_read_stays_pending :
    ∃ w after, (World.init 4).run [.submit 1 8#64 [⟨1000, 4096⟩] 3 0 1, .complete 0 4096, .reap] =
        some w ∧ w.mIoUring.userDatas = [] ∧ 4096 ∈ pendingLens w.mPendingIo ⟨3, 0⟩ ∧
      w.step (.submit 2 16#64 [⟨2000, 4096⟩] 3 0 1) = some after ∧
      after.mIoUring.inflight.map Sqe.op = [.readv 3 [Iovec.zero] 0] :=
  ⟨_, _, rfl, by decide, by decide, rfl, by decide⟩

end CxxRocksdb
end RustRocksdb
