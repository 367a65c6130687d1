import RustRocksdb.CxxRocksdb.Delivery

namespace RustRocksdb
namespace CxxRocksdb

/-!
# Draining the ring

The reader makes progress only through its caller: `io_uring_reap_cq` dispatches what the
kernel has completed and never calls `io_uring_submit`.  This module follows whole runs of
kernel completions and reaps.

When nothing waits in the submission queue, the schedule that completes the running
entries in order and then reaps every completion is always defined.  It empties the ring,
lowers the counter by exactly the number of entries reaped, and resumes every suspended
coroutine, whatever non-negative byte counts the kernel reports.  If the kernel reads every
entry in full, each coroutine whose context gave its iovecs to the readv finds all of them
filled.

An entry that `io_uring_submit` left in the submission queue is different.  A submit call
counts as accepted whatever number of entries the kernel takes, so its own entry can be
left behind.  No run of completions and reaps moves that entry or resumes its coroutine;
only a later submit call flushes it.
-/

/-- The kernel finishing the running entries in order, each with the number of bytes
`result` reports for it. -/
def completions (result : Sqe → Nat) (running : List Sqe) : List Event :=
  running.map fun sqe => .complete 0 (result sqe)

section Runs

variable {w next : World}

/-- The kernel finishes every running entry, in order. -/
theorem run_completions (result : Sqe → Nat) (running : List Sqe)
    (current : w.mIoUring.inflight = running) :
    w.run (completions result running) = some { w with
      mIoUring := { w.mIoUring with
        inflight := [], cq := w.mIoUring.cq ++ running.map fun sqe => ⟨sqe.userData, result sqe⟩ }
      written := w.written ++ running.flatMap fun sqe => sqe.op.writes (result sqe) } := by
  induction running generalizing w with
  | nil =>
      obtain ⟨mNPendingSqe, mPendingIo, ⟨entries, sq, inflight, cq⟩, heap, calls, written,
        stranded, spins⟩ := w
      simp only at current
      simp [completions, World.run, current]
  | cons sqe rest ih =>
      simp only [completions, List.map_cons, World.run, World.step_complete_head current,
        Option.some_bind]
      rw [completions] at ih
      rw [ih rfl]
      simp

/-- One reap of a completion with `res ≥ 0` takes it off the completion queue and leaves
the rest of the ring and the kernel's writes as they were. -/
theorem reapOne_ring_of_nonneg {cqe : Cqe} (nonneg : 0 ≤ cqe.res)
    (reaped : w.reapOne cqe = some next) :
    next.mIoUring = w.mIoUring.ioUringCqeSeen ∧ next.written = w.written ∧
      next.mNPendingSqe = w.mNPendingSqe - 1 := by
  rcases World.reapOne_cases reaped with ⟨negative, -⟩ | ⟨-, -, -, rfl⟩
  · omega
  · exact ⟨rfl, rfl, rfl⟩

/-- On a reachable world whose completions all have `res ≥ 0`, one reap per completion is
always defined and empties the completion queue, lowering the counter once per reap. -/
theorem run_reaps (reachable : Reachable w) (nonneg : ∀ cqe ∈ w.mIoUring.cq, 0 ≤ cqe.res) :
    ∃ next, w.run (List.replicate w.mIoUring.cq.length .reap) = some next ∧
      next.mIoUring = { w.mIoUring with cq := [] } ∧ next.written = w.written ∧
      next.mNPendingSqe = w.mNPendingSqe - w.mIoUring.cq.length ∧ Reachable next := by
  generalize queue : w.mIoUring.cq = done at nonneg
  induction done generalizing w with
  | nil =>
      refine ⟨w, rfl, ?_, rfl, by simp, reachable⟩
      rw [← queue]
  | cons cqe rest ih =>
      have first := nonneg cqe (List.mem_cons_self _ _)
      obtain ⟨middle, reaped⟩ := reapOne_defined reachable queue
      obtain ⟨ring, written, counter⟩ := reapOne_ring_of_nonneg first reaped
      have stepped : w.step .reap = some middle := (World.step_reap queue).trans reaped
      have remaining : middle.mIoUring.cq = rest := by
        simp [ring, Ring.ioUringCqeSeen, queue]
      obtain ⟨next, ran, drained, kept, lowered, reached⟩ :=
        ih (reachable.step .reap stepped) remaining
          (fun later member => nonneg later (List.mem_cons_of_mem _ member))
      refine ⟨next, ?_, ?_, kept.trans written, ?_, reached⟩
      · simp [World.run, stepped, ran]
      · rw [drained, ring]
        rfl
      · simp only [lowered, counter, List.length_cons, Nat.cast_succ]
        omega

/-- A coroutine keeps its request along every run, and is at most switched from suspended
to `IOStatus::OK()`. -/
theorem run_calls {es : List Event} (reachable : Reachable w) (ran : w.run es = some next)
    {c : Nat} {entry : Call} (found : w.calls c = some entry) :
    next.calls c = some entry ∨ next.calls c = some { entry with state := .returned .ok } := by
  refine (World.run_induction (fun v => Reachable v ∧ (v.calls c = some entry ∨
    v.calls c = some { entry with state := .returned .ok })) (fun _ ⟨reach, calls⟩ stepped =>
      ⟨reach.step _ stepped, ?_⟩) ⟨reachable, .inl found⟩ ran).2
  rcases calls with same | resumed
  · rcases step_calls reach.tracked stepped same with kept | ⟨-, -, resumed, -⟩
    exacts [.inl kept, .inr resumed]
  · rcases step_calls reach.tracked stepped resumed with kept | ⟨finished, -⟩
    exacts [.inr kept, absurd finished (by simp)]

/-- The drain schedule: the kernel finishes every running entry in order, then one reap per
completion.  Nothing may wait in the submission queue, and the completions already posted
must have `res ≥ 0`. -/
theorem run_drain (reachable : Reachable w) (unqueued : w.mIoUring.sq = [])
    (nonneg : ∀ cqe ∈ w.mIoUring.cq, 0 ≤ cqe.res) (result : Sqe → Nat) :
    ∃ next, w.run (completions result w.mIoUring.inflight ++
        List.replicate (w.mIoUring.cq.length + w.mIoUring.inflight.length) .reap) = some next ∧
      next.mIoUring.userDatas = [] ∧
      next.written =
        w.written ++ w.mIoUring.inflight.flatMap (fun sqe => sqe.op.writes (result sqe)) ∧
      next.mNPendingSqe = w.mNPendingSqe - (w.mIoUring.cq.length + w.mIoUring.inflight.length) ∧
      Reachable next := by
  have completed := run_completions result w.mIoUring.inflight rfl
  obtain ⟨next, ran, ring, written, counter, reached⟩ := run_reaps (reachable.run completed) (by
    simp only [List.mem_append, List.mem_map]
    rintro cqe (old | ⟨sqe, -, rfl⟩)
    · exact nonneg cqe old
    · exact Int.natCast_nonneg _)
  simp only [List.length_append, List.length_map] at ran counter
  refine ⟨next, ?_, ?_, written, counter, reached⟩
  · rw [World.run_append, completed, Option.some_bind]
    exact ran
  · simp [Ring.userDatas, ring, unqueued]

/-- Once the ring is empty, every coroutine of the world a run started from is finished:
the suspended ones now return `IOStatus::OK()` and the others are as they were. -/
theorem calls_of_drained {es : List Event} (reachable : Reachable w) (ran : w.run es = some next)
    (drained : next.mIoUring.userDatas = []) {c : Nat} {entry : Call}
    (found : w.calls c = some entry) :
    (entry.state = .suspended → next.calls c = some { entry with state := .returned .ok }) ∧
      (entry.state ≠ .suspended → next.calls c = some entry) := by
  refine ⟨fun suspended => ?_, run_calls_of_not_suspended reachable es ran found⟩
  rcases run_calls reachable ran found with same | resumed
  · exact absurd suspended ((reachable.run ran).tracked.not_suspended_of_drained drained same)
  · exact resumed

/-- A waiting entry and a completed one never name the same context. -/
theorem Tracked.ne_of_waiting_completed (tracked : Tracked w) {sqe : Sqe}
    (waiting : sqe ∈ w.mIoUring.sq) {cqe : Cqe} (done : cqe ∈ w.mIoUring.cq) :
    (decodeUserData sqe.userData).2 ≠ (decodeUserData cqe.userData).2 := by
  have distinct := tracked.distinct
  simp only [Ring.userDatas, List.map_append] at distinct
  exact fun same => (List.nodup_append.1 distinct).2.2
    (List.mem_append_left _ (List.mem_map_of_mem _ (List.mem_map_of_mem _ waiting)))
    (same ▸ List.mem_map_of_mem _ (List.mem_map_of_mem _ done))

/-- Kernel completions and reaps never touch the submission queue. -/
theorem step_sq_of_kernel {e : Event} (kernel : e = .reap ∨ ∃ i res, e = .complete i res)
    (stepped : w.step e = some next) : next.mIoUring.sq = w.mIoUring.sq := by
  rcases World.step_cases stepped with ⟨call, ctx, iov, fd, off, ret, rfl, -⟩ |
    ⟨i, res, -, -, rfl⟩ | ⟨-, cqe, rest, -, reaped⟩
  · simp at kernel
  · exact Ring.complete_sq _ _ _
  · rcases World.reapOne_cases reaped with ⟨-, rfl⟩ | ⟨-, -, -, rfl⟩ <;> rfl

end Runs

/-! ## Draining resumes every coroutine -/

/-- From every reachable reader with nothing waiting in the submission queue and no
negative result posted, the drain schedule is defined for every choice of non-negative
results by the kernel.  It empties the ring, lowers `m_n_pending_sqe` by exactly the number
of entries reaped, resumes every suspended coroutine with `IOStatus::OK()` and leaves every
finished one as it was. -/
theorem drain_resumes_every_call {w : World} (reachable : Reachable w)
    (unqueued : w.mIoUring.sq = []) (nonneg : ∀ cqe ∈ w.mIoUring.cq, 0 ≤ cqe.res)
    (result : Sqe → Nat) :
    ∃ next, w.run (completions result w.mIoUring.inflight ++
        List.replicate (w.mIoUring.cq.length + w.mIoUring.inflight.length) .reap) = some next ∧
      next.mIoUring.userDatas = [] ∧
      next.mNPendingSqe = w.mNPendingSqe - (w.mIoUring.cq.length + w.mIoUring.inflight.length) ∧
      ∀ c entry, w.calls c = some entry →
        (entry.state = .suspended → next.calls c = some { entry with state := .returned .ok }) ∧
        (entry.state ≠ .suspended → next.calls c = some entry) := by
  obtain ⟨next, ran, drained, -, counter, -⟩ := run_drain reachable unqueued nonneg result
  exact ⟨next, ran, drained, counter, fun _ _ found => calls_of_drained reachable ran drained found⟩

/-- Two reads at different keys, both taken by the kernel and still running. -/
def twoRunning : List Event :=
  [.submit 1 8#64 [⟨1000, 4096⟩] 3 0 1, .submit 2 16#64 [⟨2000, 512⟩] 5 0 1]

/-- The reader after `twoRunning`. -/
def twoRunningWorld : World := ((World.init 4).run twoRunning).getD (World.init 4)

theorem drain_resumes_every_call_two_reads :
    twoRunningWorld.mIoUring.sq = [] ∧ (∀ cqe ∈ twoRunningWorld.mIoUring.cq, 0 ≤ cqe.res) ∧
      ∃ next, twoRunningWorld.run (completions (fun _ => 0) twoRunningWorld.mIoUring.inflight ++
          List.replicate (twoRunningWorld.mIoUring.cq.length +
            twoRunningWorld.mIoUring.inflight.length) .reap) = some next ∧
        next.mIoUring.userDatas = [] ∧
        next.mNPendingSqe = twoRunningWorld.mNPendingSqe -
          (twoRunningWorld.mIoUring.cq.length + twoRunningWorld.mIoUring.inflight.length) ∧
        ∀ c entry, twoRunningWorld.calls c = some entry →
          (entry.state = .suspended → next.calls c = some { entry with state := .returned .ok }) ∧
          (entry.state ≠ .suspended → next.calls c = some entry) :=
  ⟨rfl, by decide, drain_resumes_every_call (.ofRun 4 twoRunning rfl) rfl (by decide) _⟩

/-- From every reachable reader whose entries are all running, when the kernel reads each of
them in full, the drain schedule resumes every suspended coroutine with `IOStatus::OK()`, and
each one whose context kept no iovecs (its key had nothing pending when it was submitted, or
its request was empty) finds every iovec filled from its own place in the file. -/
theorem drain_fills_moved_requests {w : World} (reachable : Reachable w)
    (unqueued : w.mIoUring.sq = []) (nothingDone : w.mIoUring.cq = []) :
    ∃ next, w.run (completions (fun sqe => sqe.op.length) w.mIoUring.inflight ++
        List.replicate w.mIoUring.inflight.length .reap) = some next ∧
      (∀ c entry, w.calls c = some entry → entry.state = .suspended →
        next.calls c = some { entry with state := .returned .ok }) ∧
      ∀ c entry io, w.calls c = some entry → entry.state = .suspended →
        w.heap entry.ctx = some io → io.mIov = [] →
        ∀ j (small : j < entry.iov.length),
          ⟨entry.fd, entry.off, entry.off + iovLenSum (entry.iov.take j),
            (entry.iov.get ⟨j, small⟩).iovBase, (entry.iov.get ⟨j, small⟩).iovLen⟩ ∈
              next.written := by
  obtain ⟨next, ran, drained, written, -, -⟩ :=
    run_drain reachable unqueued (by simp [nothingDone]) fun sqe => sqe.op.length
  simp only [nothingDone, List.length_nil, Nat.zero_add] at ran
  refine ⟨next, ran, fun c entry found => (calls_of_drained reachable ran drained found).1,
    fun c entry io found suspended live moved j small => ?_⟩
  obtain ⟨u, member, named, io', live', owns⟩ :=
    reachable.tracked.awaited c entry found suspended
  rw [live, Option.some.injEq] at live'
  subst live'
  simp only [Ring.userDatas, unqueued, nothingDone, List.map_nil, List.nil_append,
    List.append_nil, List.mem_map] at member
  obtain ⟨sqe, running, rfl⟩ := member
  obtain ⟨owner, owned, op⟩ := reachable.directReads.queued sqe
    (List.mem_append_right _ running) io c (named ▸ live) moved owns
  rw [found, Option.some.injEq] at owned
  subst owned
  have requested : entry.iov ≠ [] := List.ne_nil_of_length_pos (by omega)
  rw [prepSqe_of_ne_nil requested] at op
  rw [written, List.mem_append, List.mem_flatMap]
  refine .inr ⟨sqe, running, ?_⟩
  rw [op, Op.writes, if_pos (Int.natCast_nonneg _), Op.length, Int.toNat_natCast]
  exact mem_readvWrites_of_full _ _ _ _ _ le_rfl j small

theorem drain_fills_moved_requests_two_reads :
    twoRunningWorld.mIoUring.sq = [] ∧ twoRunningWorld.mIoUring.cq = [] ∧
      ∃ next, twoRunningWorld.run (completions (fun sqe => sqe.op.length)
          twoRunningWorld.mIoUring.inflight ++
          List.replicate twoRunningWorld.mIoUring.inflight.length .reap) = some next ∧
        (∀ c entry, twoRunningWorld.calls c = some entry → entry.state = .suspended →
          next.calls c = some { entry with state := .returned .ok }) ∧
        ∀ c entry io, twoRunningWorld.calls c = some entry → entry.state = .suspended →
          twoRunningWorld.heap entry.ctx = some io → io.mIov = [] →
          ∀ j (small : j < entry.iov.length),
            ⟨entry.fd, entry.off, entry.off + iovLenSum (entry.iov.take j),
              (entry.iov.get ⟨j, small⟩).iovBase, (entry.iov.get ⟨j, small⟩).iovLen⟩ ∈
                next.written :=
  ⟨rfl, rfl, drain_fills_moved_requests (.ofRun 4 twoRunning rfl) rfl rfl⟩

/-! ## What draining cannot reach -/

/-- An entry that `io_uring_submit` left in the submission queue stays there through every
run of kernel completions and reaps, and the coroutine whose context it names is not
resumed by any of them, for every reachable reader. -/
theorem unsubmitted_entry_blocks_resume {w next : World} (reachable : Reachable w) {sqe : Sqe}
    (waiting : sqe ∈ w.mIoUring.sq) {c : Nat} {entry : Call} (found : w.calls c = some entry)
    (named : (decodeUserData sqe.userData).2 = entry.ctx) {es : List Event}
    (kernelOnly : ∀ e ∈ es, e = .reap ∨ ∃ i res, e = .complete i res)
    (ran : w.run es = some next) : sqe ∈ next.mIoUring.sq ∧ next.calls c = some entry := by
  refine (World.run_induction (fun v => Reachable v ∧ sqe ∈ v.mIoUring.sq ∧
    v.calls c = some entry) (fun member ⟨reach, queued, same⟩ stepped => ⟨reach.step _ stepped,
      step_sq_of_kernel (kernelOnly _ member) stepped ▸ queued, ?_⟩)
    ⟨reachable, waiting, found⟩ ran).2
  rcases step_calls reach.tracked stepped same with kept | ⟨-, -, -, cqe, done, head, -, resumed⟩
  · exact kept
  · exact absurd (named.trans resumed.symm) (reach.tracked.ne_of_waiting_completed queued
      (by simp [head]))

/-- The kernel takes nothing from the first submit and one entry from the second, so the
first read's entry runs and the second read's entry is left in the submission queue, although
both calls suspended as accepted. -/
def partialSubmit : List Event :=
  [.submit 1 8#64 [⟨1000, 4096⟩] 3 0 0, .submit 2 16#64 [⟨2000, 512⟩] 3 4096 1]

/-- The reader after `partialSubmit`. -/
def partialWorld : World := ((World.init 4).run partialSubmit).getD (World.init 4)

/-- Completing and reaping the running entry resumes the first call; the second stays
suspended with its entry waiting. -/
theorem unsubmitted_entry_blocks_resume_partial_submit :
    ∃ next, partialWorld.run [.complete 0 4096, .reap] = some next ∧
      (next.calls 1).map Call.state = some (.returned .ok) ∧
      ⟨.readv 3 [⟨2000, 512⟩] 4096, 16#64⟩ ∈ next.mIoUring.sq ∧
      next.calls 2 = some ⟨16#64, 3, 4096, [⟨2000, 512⟩], .suspended⟩ :=
  have blocked := unsubmitted_entry_blocks_resume (.ofRun 4 partialSubmit rfl)
    (show ⟨.readv 3 [⟨2000, 512⟩] 4096, 16#64⟩ ∈ partialWorld.mIoUring.sq by decide)
    (show partialWorld.calls 2 = some ⟨16#64, 3, 4096, [⟨2000, 512⟩], .suspended⟩ from rfl) rfl
    (by simp) (show partialWorld.run [.complete 0 4096, .reap] = some _ from rfl)
  ⟨_, rfl, by decide, blocked⟩

/-! ## A full submission queue -/

section Full

variable {w next : World}

/-- With every slot of the submission queue taken, no event changes the queue or the ring's
size: a submit call fails at `io_uring_get_sqe` before it reaches `io_uring_submit`, and
completions and reaps do not touch the queue. -/
theorem step_sq_of_full (full : w.mIoUring.entries ≤ w.mIoUring.sq.length) {e : Event}
    (stepped : w.step e = some next) :
    next.mIoUring.sq = w.mIoUring.sq ∧ next.mIoUring.entries = w.mIoUring.entries := by
  rcases World.step_cases stepped with ⟨call, ctx, iov, fd, off, ret, -, -, -, -, rfl⟩ |
    ⟨i, res, -, -, rfl⟩ | ⟨-, cqe, rest, -, reaped⟩
  · have noSlot : w.mIoUring.ioUringGetSqe = false := by
      simpa [Ring.ioUringGetSqe] using full
    rw [World.submitQueue_of_sqeFull _ _ _ _ _ _ _ noSlot]
    exact ⟨rfl, rfl⟩
  · exact ⟨Ring.complete_sq _ _ _, Ring.complete_entries _ _ _⟩
  · rcases World.reapOne_cases reaped with ⟨-, rfl⟩ | ⟨-, -, -, rfl⟩ <;> exact ⟨rfl, rfl⟩

/-- Once every slot of the submission queue is taken, as it is after rejected submits have
used every slot, the queue never changes again along any run, and every submit call made at
any later point returns `kIOUringSqeFull`: the reader cannot read again. -/
theorem full_submission_queue_never_drains (full : w.mIoUring.entries ≤ w.mIoUring.sq.length)
    {es : List Event} (ran : w.run es = some next) :
    next.mIoUring.sq = w.mIoUring.sq ∧ next.mIoUring.entries = w.mIoUring.entries ∧
      ∀ call ctx iov fd off ret,
        ((next.submitQueue call ctx iov fd off ret).calls call).map Call.state =
          some (.returned (.ioError .kIOUringSqeFull none)) := by
  have kept := World.run_induction (fun v => v.mIoUring.sq = w.mIoUring.sq ∧
    v.mIoUring.entries = w.mIoUring.entries) (fun _ ⟨sq, entries⟩ stepped => by
      obtain ⟨sq', entries'⟩ := step_sq_of_full (by rw [sq, entries]; exact full) stepped
      exact ⟨sq'.trans sq, entries'.trans entries⟩) ⟨rfl, rfl⟩ ran
  refine ⟨kept.1, kept.2, fun call ctx iov fd off ret => ?_⟩
  have noSlot : next.mIoUring.ioUringGetSqe = false := by
    simpa [Ring.ioUringGetSqe, kept.1, kept.2] using full
  simp [World.submitQueue_of_sqeFull _ _ _ _ _ _ _ noSlot]

end Full

/-- A reader with a one-slot ring whose first submit is rejected with `-EAGAIN`. -/
def rejectedOnce : World :=
  ((World.init 1).run [.submit 1 8#64 [⟨1000, 4096⟩] 3 0 (-11)]).getD (World.init 1)

/-- Its queue is full; after two more reads a new read still fails. -/
theorem full_submission_queue_never_drains_one_slot :
    rejectedOnce.mIoUring.entries ≤ rejectedOnce.mIoUring.sq.length ∧
      ∃ next, rejectedOnce.run [.submit 2 16#64 [⟨2000, 512⟩] 5 0 1,
          .submit 3 24#64 [⟨3000, 512⟩] 7 0 1] = some next ∧
        next.mIoUring.sq = rejectedOnce.mIoUring.sq ∧
        next.mIoUring.entries = rejectedOnce.mIoUring.entries ∧
        ∀ call ctx iov fd off ret,
          ((next.submitQueue call ctx iov fd off ret).calls call).map Call.state =
            some (.returned (.ioError .kIOUringSqeFull none)) :=
  ⟨by decide, _, rfl, full_submission_queue_never_drains (by decide)
    (show rejectedOnce.run [.submit 2 16#64 [⟨2000, 512⟩] 5 0 1,
      .submit 3 24#64 [⟨3000, 512⟩] 7 0 1] = some _ from rfl)⟩

end CxxRocksdb
end RustRocksdb
