import RustRocksdb.CxxRocksdb.World

namespace RustRocksdb
namespace CxxRocksdb

/-!
# The count of pending submissions

`m_n_pending_sqe` is raised once for each submit call whose `io_uring_submit` succeeds and
lowered once for each iteration of the reaper's loop.  An entry whose `io_uring_submit`
failed is not counted, yet it stays in the submission queue, is submitted by the next
successful call, and is reaped like any other.  An iteration on a negative result lowers
the counter without removing its entry.

So the counter is not the number of outstanding entries.  The ledger below is exact on
every reachable world: the counter plus the stranded entries plus the spinning iterations
equals the number of entries prepared and not reaped.  Without a failed submission and
without a negative result the counter is that number, and the `fetch_sub` of the reaper
never sees less than one.  A negative result is never taken off the completion queue, so a
ring that drains has seen no spinning iteration, and its counter ends short by exactly the
stranded entries.
-/

/-- The counter's ledger against the ring. -/
def Ledger (w : World) : Prop :=
  w.mNPendingSqe + w.stranded + w.spins = w.mIoUring.userDatas.length

theorem ledger_init (entries : Nat) : Ledger (World.init entries) := rfl

/-- An iteration on a negative result counts as spinning and leaves that result at the head
of the completion queue, which nothing else removes: once the loop has spun, a negative
result heads the queue for good. -/
def SpinsBlocked (w : World) : Prop :=
  w.spins = 0 ∨ ∃ cqe rest, w.mIoUring.cq = cqe :: rest ∧ cqe.res < 0

section Steps

variable {w : World}

theorem ledger_submitQueue (ledger : Ledger w) (call : Nat) (ctx : BitVec 64) (iov : List Iovec)
    (fd off ret : Int) : Ledger (w.submitQueue call ctx iov fd off ret) := by
  cases free : w.mIoUring.ioUringGetSqe
  · rw [World.submitQueue_of_sqeFull _ _ _ _ _ _ _ free]
    exact ledger
  · rcases lt_or_le ret 0 with rejected | accepted
    · rw [World.submitQueue_of_rejected _ _ _ _ _ _ _ free rejected]
      have queued := (Ring.userDatas_pushSqe w.mIoUring
        (prepSqe fd off ctx (coalesce w.mPendingIo ⟨fd, off⟩ iov).newIov).freeIov).length_eq
      simp only [Ledger, List.length_cons] at ledger queued ⊢
      omega
    · rw [World.submitQueue_of_accepted _ _ _ _ _ _ _ free accepted]
      have queued := ((Ring.userDatas_ioUringSubmit _ ret).trans (Ring.userDatas_pushSqe w.mIoUring
        (prepSqe fd off ctx (coalesce w.mPendingIo ⟨fd, off⟩ iov).newIov))).length_eq
      simp only [Ledger, List.length_cons] at ledger queued ⊢
      omega

theorem ledger_kernelComplete (ledger : Ledger w) (i : Nat) (res : Int) :
    Ledger (w.kernelComplete i res) := by
  have moved := (Ring.userDatas_complete w.mIoUring i res).length_eq
  simp only [Ledger, World.kernelComplete] at ledger moved ⊢
  omega

theorem ledger_reapOne {cqe : Cqe} {rest : List Cqe} {next : World}
    (head : w.mIoUring.cq = cqe :: rest) (ledger : Ledger w) (reaped : w.reapOne cqe = some next) :
    Ledger next := by
  rcases World.reapOne_cases reaped with ⟨-, rfl⟩ | ⟨-, io, -, rfl⟩
  · simp only [Ledger] at ledger ⊢
    omega
  · have seen := (Ring.userDatas_ioUringCqeSeen head).length_eq
    simp only [Ledger, List.length_cons] at ledger seen ⊢
    omega

theorem ledger_step {e : Event} {next : World} (ledger : Ledger w)
    (stepped : w.step e = some next) : Ledger next := by
  rcases World.step_cases stepped with
    ⟨call, ctx, iov, fd, off, ret, -, -, -, -, rfl⟩ | ⟨i, res, -, -, rfl⟩ | ⟨-, cqe, rest, head, reaped⟩
  · exact ledger_submitQueue ledger call ctx iov fd off ret
  · exact ledger_kernelComplete ledger i res
  · exact ledger_reapOne head ledger reaped

theorem spinsBlocked_submitQueue (blocked : SpinsBlocked w) (call : Nat) (ctx : BitVec 64)
    (iov : List Iovec) (fd off ret : Int) : SpinsBlocked (w.submitQueue call ctx iov fd off ret) := by
  obtain ⟨cq, spins⟩ := World.submitQueue_cq_spins w call ctx iov fd off ret
  simpa only [SpinsBlocked, cq, spins] using blocked

theorem spinsBlocked_kernelComplete (blocked : SpinsBlocked w) (i : Nat) (res : Int) :
    SpinsBlocked (w.kernelComplete i res) := by
  refine blocked.imp id fun ⟨cqe, rest, head, negative⟩ => ?_
  obtain ⟨tail, appended⟩ := Ring.cq_prefix_complete w.mIoUring i res
  exact ⟨cqe, rest ++ tail, by simp [World.kernelComplete, ← appended, head], negative⟩

/-- An iteration on a negative result keeps it at the head; one on a result `≥ 0` is only
possible while the loop has not spun. -/
theorem spinsBlocked_reapOne {cqe : Cqe} {rest : List Cqe} {next : World}
    (head : w.mIoUring.cq = cqe :: rest) (blocked : SpinsBlocked w)
    (reaped : w.reapOne cqe = some next) : SpinsBlocked next := by
  rcases World.reapOne_cases reaped with ⟨negative, rfl⟩ | ⟨nonneg, -, -, rfl⟩
  · exact .inr ⟨cqe, rest, head, negative⟩
  · rcases blocked with spun | ⟨first, _, firstHead, negative⟩
    · exact .inl spun
    · obtain ⟨rfl, -⟩ := List.cons.inj (firstHead.symm.trans head)
      exact absurd nonneg (not_le.2 negative)

theorem spinsBlocked_step {e : Event} {next : World} (blocked : SpinsBlocked w)
    (stepped : w.step e = some next) : SpinsBlocked next := by
  rcases World.step_cases stepped with
    ⟨call, ctx, iov, fd, off, ret, -, -, -, -, rfl⟩ | ⟨i, res, -, -, rfl⟩ | ⟨-, cqe, rest, head, reaped⟩
  · exact spinsBlocked_submitQueue blocked call ctx iov fd off ret
  · exact spinsBlocked_kernelComplete blocked i res
  · exact spinsBlocked_reapOne head blocked reaped

end Steps

theorem Reachable.ledger {w : World} (reachable : Reachable w) : Ledger w := by
  induction reachable with
  | init entries => exact ledger_init entries
  | step e _ stepped ledger => exact ledger_step ledger stepped

theorem Reachable.spinsBlocked {w : World} (reachable : Reachable w) : SpinsBlocked w := by
  induction reachable with
  | init entries => exact .inl rfl
  | step e _ stepped blocked => exact spinsBlocked_step blocked stepped

/-- Without a failed submission and without a negative result, the counter is the number
of entries prepared and not reaped: the reaper's `fetch_sub`, which runs only while a
completion is ready, sees at least one, and a drained ring leaves it at zero. -/
theorem pendingSqe_exact_without_failures {w : World} (reachable : Reachable w)
    (noStranded : w.stranded = 0) (noSpins : w.spins = 0) :
    w.mNPendingSqe = w.mIoUring.userDatas.length ∧
      (w.mIoUring.cq ≠ [] → 1 ≤ w.mNPendingSqe) ∧
      (w.mIoUring.userDatas = [] → w.mNPendingSqe = 0) := by
  have ledger := reachable.ledger
  simp only [Ledger, noStranded, noSpins, Nat.cast_zero, add_zero] at ledger
  refine ⟨ledger, fun ready => ?_, fun drained => by simp [ledger, drained]⟩
  obtain ⟨cqe, rest, head⟩ := List.exists_cons_of_ne_nil ready
  simp [ledger, Ring.userDatas, head]
  omega

/-- One read of 4096 bytes at offset 0 of descriptor 3, submitted and completed. -/
def oneReadRun : List Event := [.submit 1 8#64 [⟨1000, 4096⟩] 3 0 1, .complete 0 4096]

theorem pendingSqe_exact_without_failures_one_read :
    ∃ w, (World.init 4).run oneReadRun = some w ∧ Reachable w ∧ w.stranded = 0 ∧ w.spins = 0 ∧
      (w.mNPendingSqe = w.mIoUring.userDatas.length ∧ (w.mIoUring.cq ≠ [] → 1 ≤ w.mNPendingSqe) ∧
        (w.mIoUring.userDatas = [] → w.mNPendingSqe = 0)) :=
  ⟨_, rfl, .ofRun 4 oneReadRun rfl, rfl, rfl,
    pendingSqe_exact_without_failures (.ofRun 4 oneReadRun rfl) rfl rfl⟩

/-- Once every prepared entry has been reaped, the loop has never spun, and the counter is
short by exactly the stranded entries. -/
theorem pendingSqe_after_drain {w : World} (reachable : Reachable w)
    (drained : w.mIoUring.userDatas = []) :
    w.mNPendingSqe = -(w.stranded : Int) ∧ w.spins = 0 := by
  have noSpins : w.spins = 0 := reachable.spinsBlocked.resolve_right
    fun ⟨_, _, head, _⟩ => by simp [Ring.userDatas, head] at drained
  have ledger := reachable.ledger
  simp only [Ledger, drained, noSpins, List.length_nil, Nat.cast_zero, add_zero] at ledger
  exact ⟨by omega, noSpins⟩

/-- A read whose `io_uring_submit` fails with `-EAGAIN`, then a read that submits both
entries; the kernel completes both, and the reaper runs two iterations. -/
def strandedRun : List Event :=
  [.submit 1 8#64 [⟨1000, 4096⟩] 3 0 (-11), .submit 2 16#64 [⟨2000, 512⟩] 5 0 2,
    .complete 0 4096, .complete 0 512, .reap, .reap]

theorem pendingSqe_after_drain_stranded :
    ∃ w, (World.init 4).run strandedRun = some w ∧ Reachable w ∧ w.mIoUring.userDatas = [] ∧
      (w.mNPendingSqe = -(w.stranded : Int) ∧ w.spins = 0) :=
  ⟨_, rfl, .ofRun 4 strandedRun rfl, rfl, pendingSqe_after_drain (.ofRun 4 strandedRun rfl) rfl⟩

/-- A submission that fails with `-EAGAIN` strands its entry; the next call submits it with
its own, and reaping both completions makes the second `fetch_sub` see zero and leaves the
counter at `-1`, which `pending_io_uring_sqe_count` reports as `4294967295`. -/
theorem stranded_entry_drives_counter_negative :
    ∃ w mid after,
      (World.init 4).run [.submit 1 8#64 [⟨1000, 4096⟩] 3 0 (-11),
        .submit 2 16#64 [⟨2000, 512⟩] 5 0 2, .complete 0 4096, .complete 0 512] = some w ∧
      w.step .reap = some mid ∧ mid.mNPendingSqe = 0 ∧ mid.ioUringPeekCq = true ∧
      w.ioUringReapCq 0 2 = some (after, 2) ∧ after.mIoUring.userDatas = [] ∧
      after.mNPendingSqe = -1 ∧ after.pendingIoUringSqeCount = 4294967295 :=
  ⟨_, _, _, rfl, rfl, by decide, by decide, rfl, by decide, by decide, by decide⟩

end CxxRocksdb
end RustRocksdb
