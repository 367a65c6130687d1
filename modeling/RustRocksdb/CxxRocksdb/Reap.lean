import RustRocksdb.CxxRocksdb.Contexts

namespace RustRocksdb
namespace CxxRocksdb

/-!
# The loop of `io_uring_reap_cq`

Each iteration with `res ≥ 0` marks its completion seen, so the queue loses its head, and
the loop stops after exactly as many iterations as there were completions, having handed
each to the dispatcher once, in queue order.  Every iteration lowers `m_n_pending_sqe`.

A completion with a negative result takes the `assert(false)` branch, which does not call
`io_uring_cqe_seen`.  With assertions compiled out, the next iteration peeks the same
entry, and the loop never ends while it lowers the counter on every pass.
-/

namespace World

/-- An iteration on a completion with `res ≥ 0` removes exactly that completion. -/
theorem reapOne_cq_of_nonneg {w next : World} {cqe : Cqe} {rest : List Cqe}
    (head : w.mIoUring.cq = cqe :: rest) (nonneg : 0 ≤ cqe.res)
    (reaped : w.reapOne cqe = some next) :
    next.mIoUring.cq = rest ∧ next.mNPendingSqe = w.mNPendingSqe - 1 := by
  rcases reapOne_cases reaped with ⟨negative, -⟩ | ⟨-, io, -, rfl⟩
  · omega
  · exact ⟨by simp [Ring.ioUringCqeSeen, head], rfl⟩

/-- A negative result at the head keeps the loop on that entry forever. -/
theorem ioUringReapCq_of_neg_head {w : World} {cqe : Cqe} {rest : List Cqe}
    (head : w.mIoUring.cq = cqe :: rest) (negative : cqe.res < 0) (nProcessed fuel : Nat) :
    w.ioUringReapCq nProcessed fuel = none := by
  induction fuel generalizing w with
  | zero => simp [ioUringReapCq, head]
  | succ fuel ih =>
      simp only [ioUringReapCq, head, reapOne_of_neg w negative, Option.some_bind,
        not_le.2 negative, if_false]
      exact ih head

end World

/-- On a reachable world whose completions all have `res ≥ 0`, the loop dispatches each
completion once, in order, and stops after exactly that many iterations. -/
theorem ioUringReapCq_drain {w : World} (reachable : Reachable w)
    (nonneg : ∀ cqe ∈ w.mIoUring.cq, 0 ≤ cqe.res) :
    ∃ next, w.mIoUring.cq.foldlM World.reapOne w = some next ∧ next.mIoUring.cq = [] ∧
      next.mNPendingSqe = w.mNPendingSqe - w.mIoUring.cq.length ∧
      ∀ nProcessed fuel, w.ioUringReapCq nProcessed fuel =
        if w.mIoUring.cq.length ≤ fuel then some (next, nProcessed + w.mIoUring.cq.length)
        else none := by
  generalize queue : w.mIoUring.cq = completions at nonneg
  induction completions generalizing w with
  | nil =>
      refine ⟨w, rfl, queue, by simp, fun nProcessed fuel => ?_⟩
      cases fuel <;> simp [World.ioUringReapCq, queue]
  | cons cqe rest ih =>
      have first := nonneg cqe (List.mem_cons_self _ _)
      obtain ⟨middle, reaped⟩ := reapOne_defined reachable queue
      obtain ⟨remaining, lowered⟩ := World.reapOne_cq_of_nonneg queue first reaped
      obtain ⟨next, folded, drained, counter, loop⟩ :=
        ih (reachable.step .reap ((World.step_reap queue).trans reaped)) remaining
          (fun later member => nonneg later (List.mem_cons_of_mem _ member))
      refine ⟨next, by simp [List.foldlM, reaped, folded], drained, ?_, fun nProcessed fuel => ?_⟩
      · simp only [counter, lowered, List.length_cons, Nat.cast_succ]
        omega
      · cases fuel with
        | zero => simp [World.ioUringReapCq, queue]
        | succ fuel =>
            simp only [World.ioUringReapCq, queue, reaped, Option.some_bind, first, if_true, loop,
              List.length_cons, Nat.add_le_add_iff_right]
            split <;> simp [Nat.add_assoc, Nat.add_comm 1]

/-- On a reachable world whose `k` completions all have `res ≥ 0`, `io_uring_reap_cq`
marks each seen, dispatches each once in queue order, stops after exactly `k` iterations,
returns `k`, and lowers `m_n_pending_sqe` by exactly `k`. -/
theorem ioUringReapCq_nonneg_returns_count {w : World} (reachable : Reachable w)
    (nonneg : ∀ cqe ∈ w.mIoUring.cq, 0 ≤ cqe.res) :
    ∃ next, w.mIoUring.cq.foldlM World.reapOne w = some next ∧ next.mIoUring.cq = [] ∧
      next.mNPendingSqe = w.mNPendingSqe - w.mIoUring.cq.length ∧
      ∀ fuel, w.ioUringReapCq 0 fuel =
        if w.mIoUring.cq.length ≤ fuel then some (next, w.mIoUring.cq.length) else none := by
  obtain ⟨next, folded, drained, counter, loop⟩ := ioUringReapCq_drain reachable nonneg
  exact ⟨next, folded, drained, counter, fun fuel => by simpa using loop 0 fuel⟩

/-- Two reads, both completed and not yet reaped. -/
def twoCompletedReads : List Event :=
  [.submit 1 8#64 [⟨1000, 4096⟩] 3 0 1, .submit 2 16#64 [⟨2000, 512⟩] 5 0 1,
    .complete 0 4096, .complete 0 512]

theorem ioUringReapCq_nonneg_returns_count_two :
    ∃ w, (World.init 4).run twoCompletedReads = some w ∧ Reachable w ∧
      (∀ cqe ∈ w.mIoUring.cq, 0 ≤ cqe.res) ∧
      ∃ next, w.mIoUring.cq.foldlM World.reapOne w = some next ∧ next.mIoUring.cq = [] ∧
        next.mNPendingSqe = w.mNPendingSqe - w.mIoUring.cq.length ∧
        ∀ fuel, w.ioUringReapCq 0 fuel =
          if w.mIoUring.cq.length ≤ fuel then some (next, w.mIoUring.cq.length) else none :=
  ⟨_, rfl, .ofRun 4 twoCompletedReads rfl, by decide,
    ioUringReapCq_nonneg_returns_count (.ofRun 4 twoCompletedReads rfl) (by decide)⟩

/-- A read the kernel fails with `-EIO`: the iteration on its completion does not mark it
seen, only lowers the counter, and the loop never returns. -/
theorem negative_result_never_seen :
    ∃ w next, (World.init 4).run [.submit 1 8#64 [⟨1000, 4096⟩] 3 0 1, .complete 0 (-5)] = some w ∧
      w.mIoUring.cq.length = 1 ∧ w.step .reap = some next ∧ next.mIoUring = w.mIoUring ∧
      next.mNPendingSqe = w.mNPendingSqe - 1 ∧ ∀ fuel, w.ioUringReapCq 0 fuel = none :=
  ⟨_, _, rfl, rfl, rfl, rfl, rfl, World.ioUringReapCq_of_neg_head rfl (by decide) 0⟩

end CxxRocksdb
end RustRocksdb
