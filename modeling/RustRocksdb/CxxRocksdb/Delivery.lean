import RustRocksdb.CxxRocksdb.Resumption

namespace RustRocksdb
namespace CxxRocksdb

/-!
# What a resumed read has received

A submit at a key with nothing pending hands its whole request to `new_iov` with
`std::move`, which leaves `ctx->m_iov` empty, and prepares a readv of exactly that request.
An empty request leaves `ctx->m_iov` empty too, and its no-op reads nothing.  The invariant
of this module follows such entries through the ring: while the context is live and holds
the coroutine's promise, a waiting or running entry is the readv of that coroutine's
request, and a completed one has had the kernel's bytes written for it.

From it, for every reachable reader and every interleaving of submits, completions and
reaps: when the reaper resumes a coroutine whose context gave its iovecs away, and the
completion reported at least the request's length, each requested iovec has received its
whole length from its own place in the file.  The coalescing path has no such guarantee,
which is what the duplicate read of the resumption module shows.
-/

/-- Entries whose context gave its iovecs to the readv read exactly the request of the
coroutine whose promise the context holds, and once completed have been written out. -/
structure DirectReads (w : World) : Prop where
  queued : ∀ sqe ∈ w.mIoUring.sq ++ w.mIoUring.inflight, ∀ io c,
    w.heap (decodeUserData sqe.userData).2 = some io → io.mIov = [] → io.mPromise = some c →
    ∃ call, w.calls c = some call ∧ sqe.op = (prepSqe call.fd call.off call.ctx call.iov).op
  completed : ∀ cqe ∈ w.mIoUring.cq, ∀ io c,
    w.heap (decodeUserData cqe.userData).2 = some io → io.mIov = [] → io.mPromise = some c →
    ∃ call, w.calls c = some call ∧
      ∀ write ∈ (prepSqe call.fd call.off call.ctx call.iov).op.writes cqe.res, write ∈ w.written

theorem directReads_init (entries : Nat) : DirectReads (World.init entries) :=
  ⟨by simp [World.init], by simp [World.init]⟩

section Steps

variable {w next : World}

/-- A submit call allocates a fresh context and a fresh coroutine and adds at most one
entry, which names that context and, when the context's iovecs were moved out and it holds
the promise, reads the coroutine's request. -/
theorem DirectReads.of_fresh (tracked : Tracked w) (direct : DirectReads w) {call : Nat}
    {ctx : BitVec 64} {io : IoCtx} {record : Call} (freshCall : w.calls call = none)
    (freshCtx : w.heap ctx = none) (heap : next.heap = Function.update w.heap ctx (some io))
    (calls : next.calls = Function.update w.calls call (some record))
    (written : next.written = w.written) (cq : next.mIoUring.cq = w.mIoUring.cq)
    (added : Option Sqe)
    (queued : ∀ sqe ∈ next.mIoUring.sq ++ next.mIoUring.inflight,
      sqe ∈ added ∨ sqe ∈ w.mIoUring.sq ++ w.mIoUring.inflight)
    (addedReads : ∀ sqe ∈ added, (decodeUserData sqe.userData).2 = ctx ∧
      (io.mIov = [] → ∀ c, io.mPromise = some c →
        c = call ∧ sqe.op = (prepSqe record.fd record.off record.ctx record.iov).op)) :
    DirectReads next where
  queued sqe member io' c live moved owns := by
    rcases queued sqe member with fresh | old
    · obtain ⟨named, reads⟩ := addedReads sqe fresh
      rw [heap, named, Function.update_same, Option.some.injEq] at live
      subst live
      obtain ⟨rfl, op⟩ := reads moved c owns
      exact ⟨record, by simp [calls], op⟩
    · have entry := Ring.mem_userDatas_of_queued old
      rw [heap, Function.update_noteq (tracked.ne_of_fresh freshCtx entry)] at live
      obtain ⟨owner, found, op⟩ := direct.queued sqe old io' c live moved owns
      rw [calls, Function.update_noteq (tracked.ne_of_freshCall freshCall entry live owns)]
      exact ⟨owner, found, op⟩
  completed cqe member io' c live moved owns := by
    rw [cq] at member
    have entry := Ring.mem_userDatas_of_completed member
    rw [heap, Function.update_noteq (tracked.ne_of_fresh freshCtx entry)] at live
    obtain ⟨owner, found, writes⟩ := direct.completed cqe member io' c live moved owns
    rw [calls, Function.update_noteq (tracked.ne_of_freshCall freshCall entry live owns), written]
    exact ⟨owner, found, writes⟩

theorem directReads_submitQueue (tracked : Tracked w) (direct : DirectReads w) {call : Nat}
    {ctx : BitVec 64} (iov : List Iovec) (fd off ret : Int) (freshCall : w.calls call = none)
    (freshCtx : w.heap ctx = none) (aligned : ctx.toNat % 2 = 0) :
    DirectReads (w.submitQueue call ctx iov fd off ret) := by
  have named : (decodeUserData
      (prepSqe fd off ctx (coalesce w.mPendingIo ⟨fd, off⟩ iov).newIov).userData).2 = ctx := by
    rw [prepSqe_userData, decodeUserData_sqeUserData _ aligned]
  have reads : (coalesce w.mPendingIo ⟨fd, off⟩ iov).ctxIov = [] →
      (prepSqe fd off ctx (coalesce w.mPendingIo ⟨fd, off⟩ iov).newIov).op =
        (prepSqe fd off ctx iov).op := fun moved => by
    rw [coalesce_newIov_of_ctxIov_eq_nil moved]
  have pushed := fun other => (Ring.mem_queued_pushSqe w.mIoUring
    (prepSqe fd off ctx (coalesce w.mPendingIo ⟨fd, off⟩ iov).newIov) other).1
  cases free : w.mIoUring.ioUringGetSqe
  · rw [World.submitQueue_of_sqeFull _ _ _ _ _ _ _ free]
    exact direct.of_fresh tracked freshCall freshCtx rfl rfl rfl rfl none (fun _ => .inr)
      (by simp)
  · rcases lt_or_le ret 0 with rejected | accepted
    · rw [World.submitQueue_of_rejected _ _ _ _ _ _ _ free rejected]
      refine direct.of_fresh tracked freshCall freshCtx rfl rfl rfl rfl (some _)
        (fun _ member => ((Ring.mem_queued_pushSqe _ _ _).1 member).imp
          (fun same => Option.mem_some_iff.2 same.symm) id) ?_
      rintro sqe ⟨⟩
      exact ⟨(Sqe.freeIov_userData _).symm ▸ named, by simp⟩
    · rw [World.submitQueue_of_accepted _ _ _ _ _ _ _ free accepted]
      refine direct.of_fresh tracked freshCall freshCtx rfl rfl rfl (by simp [Ring.pushSqe])
        (some _) (fun _ member => (pushed _ ((Ring.mem_queued_ioUringSubmit _ _).1 member)).imp
          (fun same => Option.mem_some_iff.2 same.symm) id) ?_
      rintro sqe ⟨⟩
      exact ⟨named, fun moved c owns => ⟨by simpa [awaitCtx] using owns.symm, reads moved⟩⟩

theorem directReads_kernelComplete (direct : DirectReads w) (i : Nat) (res : Int) :
    DirectReads (w.kernelComplete i res) := by
  cases found : w.mIoUring.inflight.get? i with
  | none =>
      have missing : w.mIoUring.inflight[i]? = none := by rwa [← List.get?_eq_getElem?]
      have same : w.kernelComplete i res = w := by
        simp [World.kernelComplete, Ring.complete_of_missing found, missing]
      rw [same]
      exact direct
  | some sqe =>
      have running := List.get?_mem found
      constructor
      · intro other member io c live moved owns
        simp only [World.kernelComplete, Ring.complete_of_found found, List.mem_append] at member
        refine direct.queued other ?_ io c live moved owns
        rcases member with waiting | running'
        · exact List.mem_append_left _ waiting
        · exact List.mem_append_right _ (List.mem_of_mem_erase running')
      · intro cqe member io c live moved owns
        simp only [World.kernelComplete, Ring.complete_of_found found, List.mem_append,
          List.mem_singleton] at member
        simp only [World.kernelComplete, found, Option.map_some', Option.getD_some,
          List.mem_append]
        rcases member with old | rfl
        · obtain ⟨owner, owned, writes⟩ := direct.completed cqe old io c live moved owns
          exact ⟨owner, owned, fun write made => .inl (writes write made)⟩
        · obtain ⟨owner, owned, op⟩ :=
            direct.queued sqe (List.mem_append_right _ running) io c live moved owns
          exact ⟨owner, owned, fun write made => .inr (op ▸ made)⟩

/-- Reaping deletes one context and resumes at most one coroutine, which keeps its request;
the bytes written stay. -/
theorem directReads_reapOne (direct : DirectReads w) {cqe : Cqe}
    (reaped : w.reapOne cqe = some next) : DirectReads next := by
  rcases World.reapOne_cases reaped with ⟨-, rfl⟩ | ⟨-, head, -, rfl⟩
  · exact ⟨direct.queued, direct.completed⟩
  · have kept : ∀ {u : BitVec 64} {io : IoCtx},
        Function.update w.heap (decodeUserData cqe.userData).2 none (decodeUserData u).2 =
          some io → w.heap (decodeUserData u).2 = some io := fun {u io} live => by
      by_cases same : (decodeUserData u).2 = (decodeUserData cqe.userData).2
      · rw [same, Function.update_same] at live
        cases live
      · rwa [Function.update_noteq same] at live
    constructor
    · intro sqe member io c live moved owns
      obtain ⟨owner, found, op⟩ := direct.queued sqe member io c (kept live) moved owns
      obtain ⟨state, resumed⟩ := resumeIfSet_eq_some found head.mPromise
      exact ⟨_, resumed, op⟩
    · intro later member io c live moved owns
      obtain ⟨owner, found, writes⟩ :=
        direct.completed later (List.mem_of_mem_tail member) io c (kept live) moved owns
      obtain ⟨state, resumed⟩ := resumeIfSet_eq_some found head.mPromise
      exact ⟨_, resumed, writes⟩

theorem directReads_step (tracked : Tracked w) (direct : DirectReads w) {e : Event}
    (stepped : w.step e = some next) : DirectReads next := by
  rcases World.step_cases stepped with
    ⟨call, ctx, iov, fd, off, ret, -, freshCall, freshCtx, aligned, rfl⟩ | ⟨i, res, -, -, rfl⟩ |
    ⟨-, cqe, rest, -, reaped⟩
  · exact directReads_submitQueue tracked direct iov fd off ret freshCall freshCtx aligned
  · exact directReads_kernelComplete direct i res
  · exact directReads_reapOne direct reaped

end Steps

theorem Reachable.directReads {w : World} (reachable : Reachable w) : DirectReads w := by
  induction reachable with
  | init entries => exact directReads_init entries
  | step e reached stepped direct => exact directReads_step reached.tracked direct stepped

/-- For every reachable reader and every event: when the event resumes a coroutine whose
context kept no iovecs (the submit found nothing pending at its key, or the request was
empty: `coalesce_ctxIov_eq_nil_iff`), the event is a reap of a completion for that context, and if
the completion reported at least the request's length, the `j`-th requested iovec has
received its whole length from the bytes after those of the iovecs before it. -/
theorem moved_request_filled_on_resume {w next : World} (reachable : Reachable w) {e : Event}
    (stepped : w.step e = some next) {c : Nat} {entry : Call} (found : w.calls c = some entry)
    (resumed : next.calls c ≠ some entry) {io : IoCtx} (live : w.heap entry.ctx = some io)
    (moved : io.mIov = []) :
    e = .reap ∧ ∃ cqe rest, w.mIoUring.cq = cqe :: rest ∧
      (decodeUserData cqe.userData).2 = entry.ctx ∧
      (iovLenSum entry.iov ≤ cqe.res → ∀ j (small : j < entry.iov.length),
        ⟨entry.fd, entry.off, entry.off + iovLenSum (entry.iov.take j),
          (entry.iov.get ⟨j, small⟩).iovBase, (entry.iov.get ⟨j, small⟩).iovLen⟩ ∈
            next.written) := by
  rcases step_calls reachable.tracked stepped found with kept | ⟨suspended, rfl, -, cqe, rest,
    head, -, named⟩
  · exact absurd kept resumed
  obtain ⟨-, -, -, io', live', owns⟩ := reachable.tracked.awaited c entry found suspended
  rw [live, Option.some.injEq] at live'
  subst live'
  obtain ⟨owner, owned, writes⟩ := reachable.directReads.completed cqe (by simp [head]) io c
    (named ▸ live) moved owns
  rw [found, Option.some.injEq] at owned
  subst owned
  refine ⟨rfl, cqe, rest, head, named, fun full j small => ?_⟩
  have reaped : w.reapOne cqe = some next := World.step_reap head ▸ stepped
  have same : next.written = w.written := by
    rcases World.reapOne_cases reaped with ⟨-, rfl⟩ | ⟨-, -, -, rfl⟩ <;> rfl
  have requested : entry.iov ≠ [] := List.ne_nil_of_length_pos (by omega)
  have nonneg : 0 ≤ cqe.res := le_trans (Int.natCast_nonneg _) full
  rw [same]
  refine writes _ ?_
  rw [prepSqe_of_ne_nil requested, Op.writes, if_pos nonneg]
  exact mem_readvWrites_of_full _ _ _ _ _ (by omega) j small

/-- The read of `twoIovecs` at offset 0 of descriptor 3, submitted and completed in full. -/
def servedBeforeReap : List Event :=
  [.submit 1 8#64 twoIovecs 3 0 1, .complete 0 (iovLenSum twoIovecs)]

/-- Its coroutine, suspended until the reap. -/
def servedCall : Call := ⟨8#64, 3, 0, twoIovecs, .suspended⟩

theorem moved_request_filled_on_resume_two_iovecs :
    ∃ w next io, (World.init 4).run servedBeforeReap = some w ∧ w.step .reap = some next ∧
      w.calls 1 = some servedCall ∧ next.calls 1 ≠ some servedCall ∧
      w.heap servedCall.ctx = some io ∧ io.mIov = [] ∧
      (Event.reap = .reap ∧ ∃ cqe rest, w.mIoUring.cq = cqe :: rest ∧
        (decodeUserData cqe.userData).2 = servedCall.ctx ∧
        (iovLenSum servedCall.iov ≤ cqe.res → ∀ j (small : j < servedCall.iov.length),
          ⟨servedCall.fd, servedCall.off, servedCall.off + iovLenSum (servedCall.iov.take j),
            (servedCall.iov.get ⟨j, small⟩).iovBase, (servedCall.iov.get ⟨j, small⟩).iovLen⟩ ∈
              next.written)) :=
  ⟨_, _, _, rfl, rfl, rfl, by decide, rfl, rfl,
    @moved_request_filled_on_resume _ _ (.ofRun 4 servedBeforeReap rfl) .reap rfl 1 servedCall rfl
      (by decide) _ rfl rfl⟩

end CxxRocksdb
end RustRocksdb
