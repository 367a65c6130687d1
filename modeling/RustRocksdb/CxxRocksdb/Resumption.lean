import RustRocksdb.CxxRocksdb.Contexts

namespace RustRocksdb
namespace CxxRocksdb

/-!
# When a submit call is resumed

A suspended coroutine is resumed only by the reaper, only on the completion whose entry
names its own context, and it then returns `IOStatus::OK()` and never changes again.  A
ring with nothing outstanding leaves no coroutine suspended.  Every submit call that
suspends is therefore resumed at most once, from `io_uring_reap_cq`, after the completion
of its own submission, and exactly once when everything is reaped.

A read at a key with nothing pending is served as intended: on an idle reader, once the
kernel has read it in full, the reap resumes it with every iovec filled from its own place
in the file.  What the resumption does not wait for, on the coalescing path, is the data.  A
read coalesced as a duplicate is resumed by the completion of its own readv, whose one iovec
is the zero-length entry that `resize` appended, while the bytes it asked for go into the
first read's buffer.
-/

/-- The buffer of `iov` has received its full length from a readv of `fd` at `off`. -/
def Filled (w : World) (fd off : Int) (iov : Iovec) : Prop :=
  ∃ write ∈ w.written,
    write.fd = fd ∧ write.offset = off ∧ write.iovBase = iov.iovBase ∧ iov.iovLen ≤ write.count

instance (w : World) (fd off : Int) (iov : Iovec) : Decidable (Filled w fd off iov) :=
  inferInstanceAs (Decidable (∃ write ∈ w.written, _))

/-- What one event can do to a coroutine: nothing, or, for a suspended one, resume it from
the reaper on a completion that names its context. -/
theorem step_calls {w next : World} (tracked : Tracked w) {e : Event}
    (stepped : w.step e = some next) {c : Nat} {entry : Call} (found : w.calls c = some entry) :
    next.calls c = some entry ∨
      (entry.state = .suspended ∧ e = .reap ∧
        next.calls c = some { entry with state := .returned .ok } ∧
        ∃ cqe rest, w.mIoUring.cq = cqe :: rest ∧ 0 ≤ cqe.res ∧
          (decodeUserData cqe.userData).2 = entry.ctx) := by
  rcases World.step_cases stepped with
    ⟨call, ctx, iov, fd, off, ret, -, freshCall, -, -, rfl⟩ | ⟨i, res, -, -, rfl⟩ |
    ⟨rfl, cqe, rest, head, reaped⟩
  · have other : c ≠ call := by
      rintro rfl
      simp [found] at freshCall
    exact Or.inl ((World.submitQueue_calls_of_ne _ _ _ _ _ _ _ other).trans found)
  · exact Or.inl found
  · rcases World.reapOne_cases reaped with ⟨-, rfl⟩ | ⟨nonneg, io, live, rfl⟩
    · exact Or.inl found
    · by_cases resumedHere : io.mPromise = some c
      · have member : cqe.userData ∈ w.mIoUring.userDatas := by simp [Ring.userDatas, head]
        obtain ⟨owner, owned, state, ctx⟩ := tracked.promised _ member io c live resumedHere
        rw [found, Option.some.injEq] at owned
        subst owned
        refine Or.inr ⟨state, rfl, ?_, cqe, rest, head, nonneg, ctx.symm⟩
        simp only [resumedHere, resumeIfSet_self, found, Option.map_some']
      · exact Or.inl ((resumeIfSet_of_ne resumedHere).trans found)

/-- Every suspended coroutine has its context behind an outstanding entry, so once nothing
is outstanding no coroutine is left suspended. -/
theorem Tracked.not_suspended_of_drained {w : World} (tracked : Tracked w)
    (drained : w.mIoUring.userDatas = []) {c : Nat} {entry : Call}
    (found : w.calls c = some entry) : entry.state ≠ .suspended := by
  intro state
  obtain ⟨u, member, -⟩ := tracked.awaited c entry found state
  simp [drained] at member

/-- A coroutine that is not suspended keeps its state along every run. -/
theorem run_calls_of_not_suspended {w next : World} (reachable : Reachable w) (es : List Event)
    (ran : w.run es = some next) {c : Nat} {entry : Call} (found : w.calls c = some entry)
    (finished : entry.state ≠ .suspended) : next.calls c = some entry :=
  (World.run_induction (fun v => Reachable v ∧ v.calls c = some entry)
    (fun _ ⟨reach, kept⟩ stepped => ⟨reach.step _ stepped,
      (step_calls reach.tracked stepped kept).resolve_right fun resumed => finished resumed.1⟩)
    ⟨reachable, found⟩ ran).2

/-- A submit call is resumed at most once and only by the reaper, on the completion of its
own entry; once resumed or failed it never changes again; and when nothing is outstanding,
no call is left suspended. -/
theorem submitCall_resumed_at_most_once {w : World} (reachable : Reachable w) :
    (∀ e next c entry, w.step e = some next → w.calls c = some entry →
      next.calls c = some entry ∨
        (entry.state = .suspended ∧ e = .reap ∧
          next.calls c = some { entry with state := .returned .ok } ∧
          ∃ cqe rest, w.mIoUring.cq = cqe :: rest ∧ 0 ≤ cqe.res ∧
            (decodeUserData cqe.userData).2 = entry.ctx)) ∧
    (∀ es next c entry, w.run es = some next → w.calls c = some entry →
      entry.state ≠ .suspended → next.calls c = some entry) ∧
    (w.mIoUring.userDatas = [] → ∀ c entry, w.calls c = some entry → entry.state ≠ .suspended) :=
  ⟨fun _ _ _ _ stepped found => step_calls reachable.tracked stepped found,
    fun es _ _ _ ran found finished => run_calls_of_not_suspended reachable es ran found finished,
    fun drained _ _ found => reachable.tracked.not_suspended_of_drained drained found⟩

/-- Two reads at different keys taken by the kernel, the first of them completed. -/
def firstCompleted : List Event :=
  [.submit 1 8#64 [⟨1000, 4096⟩] 3 0 1, .submit 2 16#64 [⟨2000, 512⟩] 5 0 1, .complete 0 4096]

/-- The reader after `firstCompleted`: both coroutines are suspended, and the next reap
resumes the first. -/
def firstCompletedWorld : World := ((World.init 4).run firstCompleted).getD (World.init 4)

theorem submitCall_resumed_at_most_once_first_completed :
    Reachable firstCompletedWorld ∧
      (firstCompletedWorld.calls 1).map Call.state = some .suspended ∧
      (firstCompletedWorld.calls 2).map Call.state = some .suspended ∧
      ((firstCompletedWorld.step .reap).bind fun next => (next.calls 1).map Call.state) =
        some (.returned .ok) ∧
      ((∀ e next c entry, firstCompletedWorld.step e = some next →
          firstCompletedWorld.calls c = some entry →
        next.calls c = some entry ∨
          (entry.state = .suspended ∧ e = .reap ∧
            next.calls c = some { entry with state := .returned .ok } ∧
            ∃ cqe rest, firstCompletedWorld.mIoUring.cq = cqe :: rest ∧ 0 ≤ cqe.res ∧
              (decodeUserData cqe.userData).2 = entry.ctx)) ∧
      (∀ es next c entry, firstCompletedWorld.run es = some next →
        firstCompletedWorld.calls c = some entry →
        entry.state ≠ .suspended → next.calls c = some entry) ∧
      (firstCompletedWorld.mIoUring.userDatas = [] →
        ∀ c entry, firstCompletedWorld.calls c = some entry → entry.state ≠ .suspended)) :=
  ⟨.ofRun 4 firstCompleted rfl, rfl, rfl, rfl,
    submitCall_resumed_at_most_once (.ofRun 4 firstCompleted rfl)⟩

/-! ## A read with nothing pending at its key -/

/-- On an idle reader, a read at a key with nothing pending that the kernel accepts is
resumed with `IOStatus::OK()` by the next reap, whatever number `res` of bytes its readv
reports: what the kernel wrote for it is the readv of the request for `res` bytes.  After a
full read each iovec has received its whole length from its own place in the file, the bytes
after those of the iovecs before it; after a short read the iovecs past `res` have not.  The
counter is back where it was and the ring is idle again. -/
theorem absent_key_read_served (w : World) {call : Nat} {ctx : BitVec 64} {iov : List Iovec}
    {fd off : Int} (freshCall : w.calls call = none) (freshCtx : w.heap ctx = none)
    (aligned : ctx.toNat % 2 = 0) (slot : 0 < w.mIoUring.entries)
    (idle : w.mIoUring.sq = [] ∧ w.mIoUring.inflight = [] ∧ w.mIoUring.cq = [])
    (absent : w.mPendingIo ⟨fd, off⟩ = none) (requested : iov ≠ []) (res : Nat) :
    ∃ next, w.run [.submit call ctx iov fd off 1, .complete 0 res, .reap] = some next ∧
      next.calls call = some ⟨ctx, fd, off, iov, .returned .ok⟩ ∧
      next.written = w.written ++ readvWrites fd off off iov res ∧
      (iovLenSum iov ≤ res → ∀ j (small : j < iov.length),
        ⟨fd, off, off + iovLenSum (iov.take j), (iov.get ⟨j, small⟩).iovBase,
          (iov.get ⟨j, small⟩).iovLen⟩ ∈ next.written) ∧
      next.mNPendingSqe = w.mNPendingSqe ∧
      next.mIoUring.sq = [] ∧ next.mIoUring.inflight = [] ∧ next.mIoUring.cq = [] := by
  obtain ⟨sq, inflight, cq⟩ := idle
  have free : w.mIoUring.ioUringGetSqe = true := by simp [Ring.ioUringGetSqe, sq, slot]
  -- the call suspends with its readv running, ...
  have submitted : w.step (.submit call ctx iov fd off 1) =
      some (w.submitQueue call ctx iov fd off 1) := if_pos ⟨freshCall, freshCtx, aligned⟩
  generalize accepted : w.submitQueue call ctx iov fd off 1 = s at submitted
  rw [World.submitQueue_of_accepted w call ctx iov fd off 1 free (by decide),
    coalesce_absent absent, prepSqe_of_ne_nil requested] at accepted
  have running : s.mIoUring.inflight = [⟨.readv fd iov off, sqeUserData false ctx⟩] := by
    simp [← accepted, Ring.pushSqe, Ring.ioUringSubmit, sq, inflight]
  -- ... the kernel completes it ...
  obtain ⟨d, completed, done⟩ : ∃ d, s.step (.complete 0 res) = some d ∧ d = { s with
      mIoUring := { s.mIoUring with
        inflight := [], cq := s.mIoUring.cq ++ [⟨sqeUserData false ctx, res⟩] }
      written := s.written ++ (Op.readv fd iov off).writes res } :=
    ⟨_, World.step_complete_head running res, rfl⟩
  -- ... and the reap finds its context and resumes it
  have head : d.mIoUring.cq = [⟨sqeUserData false ctx, res⟩] := by
    simp [done, ← accepted, Ring.pushSqe, cq]
  have live : d.heap (decodeUserData (⟨sqeUserData false ctx, res⟩ : Cqe).userData).2 =
      some (awaitCtx ⟨fd, off, [], none⟩ call) := by
    simp [done, ← accepted, decodeUserData_sqeUserData false aligned]
  have ran : w.run [.submit call ctx iov fd off 1, .complete 0 res, .reap] =
      d.reapOne ⟨sqeUserData false ctx, res⟩ := by
    simp only [World.run, submitted, completed, World.step_reap head, Option.some_bind,
      Option.bind_some]
  rw [ran, World.reapOne_of_live d (Int.natCast_nonneg res) live]
  refine ⟨_, rfl, ?_⟩
  subst done accepted
  simp [decodeUserData_sqeUserData false aligned, resumeIfSet, scheduleTask, awaitCtx, Op.writes,
    Int.natCast_nonneg, Ring.ioUringCqeSeen, Ring.pushSqe, Ring.ioUringSubmit, sq, cq]
  exact fun full j small => Or.inr (mem_readvWrites_of_full fd off off iov res full j small)

/-- The request of the example below: 4096 bytes into the buffer at 1000, then 512 into the
buffer at 2000. -/
def twoIovecs : List Iovec := [⟨1000, 4096⟩, ⟨2000, 512⟩]

theorem absent_key_read_served_fresh_reader :
    ∃ next, (World.init 4).run [.submit 1 8#64 twoIovecs 3 0 1,
        .complete 0 (iovLenSum twoIovecs), .reap] = some next ∧
      next.calls 1 = some ⟨8#64, 3, 0, twoIovecs, .returned .ok⟩ ∧
      next.written = (World.init 4).written ++ readvWrites 3 0 0 twoIovecs (iovLenSum twoIovecs) ∧
      (iovLenSum twoIovecs ≤ iovLenSum twoIovecs → ∀ j (small : j < twoIovecs.length),
        ⟨3, 0, 0 + iovLenSum (twoIovecs.take j), (twoIovecs.get ⟨j, small⟩).iovBase,
          (twoIovecs.get ⟨j, small⟩).iovLen⟩ ∈ next.written) ∧
      next.mNPendingSqe = (World.init 4).mNPendingSqe ∧
      next.mIoUring.sq = [] ∧ next.mIoUring.inflight = [] ∧ next.mIoUring.cq = [] :=
  absent_key_read_served _ rfl rfl (by decide) (by decide) ⟨rfl, rfl, rfl⟩ rfl (by decide) _

/-- Two reads of 4096 bytes at offset 0 of descriptor 3 into different buffers.  The second
is coalesced: its readv carries one zero-length iovec, completes with 0 bytes, and resumes
it with `IOStatus::OK()` while the first is still in flight.  Its buffer is never written,
not even after the first read's data has arrived. -/
theorem duplicate_read_resumed_unfilled :
    ∃ w done, (World.init 4).run [.submit 1 8#64 [⟨1000, 4096⟩] 3 0 1,
        .submit 2 16#64 [⟨2000, 4096⟩] 3 0 1, .complete 1 0, .reap] = some w ∧
      (w.calls 1).map Call.state = some .suspended ∧
      (w.calls 2).map Call.state = some (.returned .ok) ∧ ¬ Filled w 3 0 ⟨2000, 4096⟩ ∧
      w.run [.complete 0 4096, .reap] = some done ∧
      (done.calls 1).map Call.state = some (.returned .ok) ∧ Filled done 3 0 ⟨1000, 4096⟩ ∧
      ¬ Filled done 3 0 ⟨2000, 4096⟩ :=
  ⟨_, _, rfl, by decide, by decide, by decide, rfl, by decide, by decide, by decide⟩

end CxxRocksdb
end RustRocksdb
