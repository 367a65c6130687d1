import RustRocksdb.CxxRocksdb.Coalescer

namespace RustRocksdb
namespace CxxRocksdb

/-!
# The reader, its ring, and the coroutines it suspends

A `World` holds the members of `Async_reader` that the read path uses, `m_n_pending_sqe`,
`m_pending_io` and `m_io_uring`, together with what they point into: the `IO_ctx` objects
alive on the heap and the submit-queue coroutines started so far.  Three fields are ghost
state, written by no code: `written` records the bytes the kernel placed in caller
buffers through iovec arrays the reader still owned, `stranded` counts entries whose
`io_uring_submit` failed, and `spins` counts loop iterations in `io_uring_reap_cq` that met
a negative result.

`m_n_pending_sqe` is a `std::atomic<int>`, whose `fetch_add` and `fetch_sub` wrap around at
`2^31`.  Here it is an `Int`, the exact sum of those increments and decrements; the source's
value is that sum wrapped into the range of `int`, and the two differ only once the sum
leaves that range, which takes more than `2^31 - 1` entries outstanding at once or as many
iterations of a reap loop spinning on a negative result.

Everything happens on the one thread that drives the ring.  A run interleaves three
kinds of event: a caller starts the submit-queue lambda on a fresh context, the kernel
finishes a running operation, or `io_uring_reap_cq` runs one iteration of its loop.  A
coroutine resumed inside the loop may start new submissions before the next iteration;
in a run these are the events between two iterations.
-/

/-- How far a submit-queue coroutine has got. -/
inductive CallState where
  | suspended
  | returned (status : IOStatus)
  deriving DecidableEq, Repr

/-- A call of the submit-queue lambda: its context, its request and its state. -/
structure Call where
  ctx : BitVec 64
  fd : Int
  off : Int
  iov : List Iovec
  state : CallState
  deriving DecidableEq, Repr

/-- The reader's members, the heap of contexts, the coroutines and the ghost state. -/
structure World where
  mNPendingSqe : Int
  mPendingIo : IoKey → Option IoValue
  mIoUring : Ring
  heap : BitVec 64 → Option IoCtx
  calls : Nat → Option Call
  written : List Write
  stranded : Nat
  spins : Nat

/-- Modelled from the spec: the awaiter of `Async_future(true, ctx)`, whose source is not
in this repository, stores the suspended coroutine's promise in `ctx->m_promise`, the
continuation that the reaper resumes. -/
def awaitCtx (io : IoCtx) (call : Nat) : IoCtx := { io with mPromise := some call }

/-- `schedule_task(promise)`: the coroutine resumes after its `co_await` and reaches
`co_return IOStatus::OK()`. -/
def scheduleTask (calls : Nat → Option Call) (promise : Nat) : Nat → Option Call :=
  Function.update calls promise
    ((calls promise).map fun call => { call with state := .returned .ok })

/-- `if (promise != nullptr) schedule_task(promise)`. -/
def resumeIfSet (calls : Nat → Option Call) : Option Nat → Nat → Option Call
  | some promise => scheduleTask calls promise
  | none => calls

theorem resumeIfSet_of_ne {calls : Nat → Option Call} {promise : Option Nat} {c : Nat}
    (other : promise ≠ some c) : resumeIfSet calls promise c = calls c := by
  cases promise with
  | none => rfl
  | some resumed => exact Function.update_noteq (fun same => other (by rw [same])) _ _

/-- Resuming changes a coroutine's state and nothing else about it. -/
theorem resumeIfSet_eq_some {calls : Nat → Option Call} {c : Nat} {call : Call}
    (found : calls c = some call) (promise : Option Nat) :
    ∃ state, resumeIfSet calls promise c = some { call with state } := by
  by_cases resumed : promise = some c
  · subst resumed
    exact ⟨.returned .ok, by simp [resumeIfSet, scheduleTask, found]⟩
  · exact ⟨call.state, (resumeIfSet_of_ne resumed).trans found⟩

theorem resumeIfSet_self (calls : Nat → Option Call) (c : Nat) :
    resumeIfSet calls (some c) c = (calls c).map fun call => { call with state := .returned .ok } :=
  Function.update_same _ _ _

/-- The cleanup of the no-op branch of `io_uring_reap_cq`: for each `io` of the context,
erase the pending lengths equal to its length, then erase the key if its set is empty. -/
def eraseNopLens (mPendingIo : IoKey → Option IoValue) (ctx : IoCtx) :
    IoKey → Option IoValue :=
  let ioKey : IoKey := ⟨ctx.mFd, ctx.mOff⟩
  match mPendingIo ioKey with
  | none => mPendingIo
  | some pendingLens =>
      let pendingLens := ctx.mIov.foldl
        (fun pendingLens io =>
          (pendingLens.lens.filter fun pendingLen => pendingLen = io.iovLen).foldl
            IoValue.erase pendingLens)
        pendingLens
      if pendingLens.lens.isEmpty then Function.update mPendingIo ioKey none
      else Function.update mPendingIo ioKey (some pendingLens)

namespace World

/-- A reader whose `io_uring_queue_init` gave a ring of `entries` slots. -/
def init (entries : Nat) : World :=
  ⟨0, fun _ => none, ⟨entries, [], [], []⟩, fun _ => none, fun _ => none, [], 0, 0⟩

/-- The submit-queue lambda installed by the constructor, run as coroutine `call` on the
context at `ctx`, whose caller filled `ctx->m_iov` with `iov`, to read `fd` at `off`; the
kernel answers `io_uring_submit` with `ret`.  The result is the world once the coroutine
has suspended at its `co_await` or returned an error. -/
def submitQueue (w : World) (call : Nat) (ctx : BitVec 64) (iov : List Iovec)
    (fd off : Int) (ret : Int) : World :=
  let coalesced := coalesce w.mPendingIo ⟨fd, off⟩ iov
  let io : IoCtx := ⟨fd, off, coalesced.ctxIov, none⟩
  if !w.mIoUring.ioUringGetSqe then
    { w with
      mPendingIo := coalesced.pendingIo
      heap := Function.update w.heap ctx (some io)
      calls := Function.update w.calls call
        (some ⟨ctx, fd, off, iov, .returned (.ioError .kIOUringSqeFull none)⟩) }
  else
    let (ring, submitted) :=
      (w.mIoUring.pushSqe (prepSqe fd off ctx coalesced.newIov)).ioUringSubmit ret
    if submitted < 0 then
      -- the rejected submit consumed nothing, and `co_return` destroys `new_iov`, the array
      -- the entry left in the submission queue points to
      { w with
        mPendingIo := coalesced.pendingIo
        mIoUring := w.mIoUring.pushSqe (prepSqe fd off ctx coalesced.newIov).freeIov
        heap := Function.update w.heap ctx (some io)
        calls := Function.update w.calls call
          (some ⟨ctx, fd, off, iov, .returned (.ioError .kIOUringSubmitError (some (-submitted).toNat))⟩)
        stranded := w.stranded + 1 }
    else
      { w with
        mPendingIo := coalesced.pendingIo
        mIoUring := ring
        mNPendingSqe := w.mNPendingSqe + 1
        heap := Function.update w.heap ctx (some (awaitCtx io call))
        calls := Function.update w.calls call (some ⟨ctx, fd, off, iov, .suspended⟩) }

/-- The body of the loop in `io_uring_reap_cq` for the completion `cqe` that
`io_uring_peek_cqe` returned, up to and including the `fetch_sub`.  `none` when the entry
names no live context, which would be undefined behaviour. -/
def reapOne (w : World) (cqe : Cqe) : Option World :=
  if 0 ≤ cqe.res then
    let (nop, ctxPtr) := decodeUserData cqe.userData
    match w.heap ctxPtr with
    | none => none
    | some ctx =>
        some { w with
          mPendingIo := if nop then eraseNopLens w.mPendingIo ctx else w.mPendingIo
          mIoUring := w.mIoUring.ioUringCqeSeen
          heap := Function.update w.heap ctxPtr none
          calls := resumeIfSet w.calls ctx.mPromise
          mNPendingSqe := w.mNPendingSqe - 1 }
  else
    some { w with mNPendingSqe := w.mNPendingSqe - 1, spins := w.spins + 1 }

/-- `io_uring_peek_cq`: a completion is ready. -/
def ioUringPeekCq (w : World) : Bool := !w.mIoUring.cq.isEmpty

/-- `pending_io_uring_sqe_count`: the counter, converted from `int` to `uint32_t`. -/
def pendingIoUringSqeCount (w : World) : UInt32 := UInt32.ofNat (w.mNPendingSqe % 2 ^ 32).toNat

/-- `io_uring_reap_cq`, allowed `fuel` iterations and counting on from `nProcessed`.  It
returns the world and `n_processed` once `io_uring_peek_cqe` finds the queue empty, and
`none` when the fuel runs out first or an entry names no live context.

In the source, `schedule_task` resumes the coroutine before the iteration's `fetch_sub`, and
the code it returns to may start new submissions inside the call.  This function admits no
submission between iterations.  A run places such submissions as `submit` events after the
iteration, whose `fetch_sub` the model has already made, so the counter differs from the
source's only in the middle of an iteration. -/
def ioUringReapCq (w : World) (nProcessed : Nat) : Nat → Option (World × Nat)
  | 0 => if w.mIoUring.cq = [] then some (w, nProcessed) else none
  | fuel + 1 =>
      match w.mIoUring.cq with
      | [] => some (w, nProcessed)
      | cqe :: _ =>
          (w.reapOne cqe).bind fun next =>
            next.ioUringReapCq (if 0 ≤ cqe.res then nProcessed + 1 else nProcessed) fuel

/-- The kernel finishes its `i`-th running operation with result `res`. -/
def kernelComplete (w : World) (i : Nat) (res : Int) : World :=
  { w with
    mIoUring := w.mIoUring.complete i res
    written := w.written ++ ((w.mIoUring.inflight.get? i).map fun sqe => sqe.op.writes res).getD [] }

end World

/-- The events of a run. -/
inductive Event where
  /-- A caller allocates a context at `ctx` holding `iov` and starts the submit-queue
  lambda on it as coroutine `call`; the kernel will answer `io_uring_submit` with `ret`. -/
  | submit (call : Nat) (ctx : BitVec 64) (iov : List Iovec) (fd off : Int) (ret : Int)
  /-- The kernel finishes its `i`-th running operation with result `res`. -/
  | complete (i : Nat) (res : Int)
  /-- One iteration of the loop in `io_uring_reap_cq`. -/
  | reap
  deriving DecidableEq, Repr

namespace World

/-- One event.  A new coroutine and a new context are fresh, and the context is aligned,
as `new` returns it; the kernel completes only a running operation; the reaper iterates
only while a completion is ready. -/
def step (w : World) : Event → Option World
  | .submit call ctx iov fd off ret =>
      if w.calls call = none ∧ w.heap ctx = none ∧ ctx.toNat % 2 = 0 then
        some (w.submitQueue call ctx iov fd off ret)
      else none
  | .complete i res =>
      if i < w.mIoUring.inflight.length then some (w.kernelComplete i res) else none
  | .reap =>
      match w.mIoUring.cq with
      | [] => none
      | cqe :: _ => w.reapOne cqe

/-- A run of events, stopping at the first that cannot happen. -/
def run (w : World) : List Event → Option World
  | [] => some w
  | e :: es => (w.step e).bind fun next => next.run es

/-- A run of two schedules is the second run from where the first ends. -/
theorem run_append (w : World) (es fs : List Event) :
    w.run (es ++ fs) = (w.run es).bind fun middle => middle.run fs := by
  induction es generalizing w with
  | nil => rfl
  | cons e es ih =>
      simp only [run, List.cons_append]
      cases w.step e <;> simp [ih]

/-- What every step of a run keeps, the whole run keeps. -/
theorem run_induction (P : World → Prop) {w next : World} {es : List Event}
    (step : ∀ {v u : World} {e : Event}, e ∈ es → P v → v.step e = some u → P u)
    (start : P w) (ran : w.run es = some next) : P next := by
  induction es generalizing w with
  | nil =>
      simp only [run, Option.some.injEq] at ran
      exact ran ▸ start
  | cons e es ih =>
      simp only [run, Option.bind_eq_some] at ran
      obtain ⟨middle, stepped, rest⟩ := ran
      exact ih (fun member => step (List.mem_cons_of_mem _ member))
        (step (List.mem_cons_self _ _) start stepped) rest

end World

/-! ## What each operation does -/

namespace World

section Submit

variable (w : World) (call : Nat) (ctx : BitVec 64) (iov : List Iovec) (fd off ret : Int)

/-- The `kIOUringSqeFull` exit: the pending map is updated all the same. -/
theorem submitQueue_of_sqeFull (full : w.mIoUring.ioUringGetSqe = false) :
    w.submitQueue call ctx iov fd off ret =
      { w with
        mPendingIo := (coalesce w.mPendingIo ⟨fd, off⟩ iov).pendingIo
        heap := Function.update w.heap ctx
          (some ⟨fd, off, (coalesce w.mPendingIo ⟨fd, off⟩ iov).ctxIov, none⟩)
        calls := Function.update w.calls call
          (some ⟨ctx, fd, off, iov, .returned (.ioError .kIOUringSqeFull none)⟩) } := by
  simp [submitQueue, full]

/-- The `kIOUringSubmitError` exit: the prepared entry stays in the submission queue, its
iovec array freed. -/
theorem submitQueue_of_rejected (free : w.mIoUring.ioUringGetSqe = true) (rejected : ret < 0) :
    w.submitQueue call ctx iov fd off ret =
      { w with
        mPendingIo := (coalesce w.mPendingIo ⟨fd, off⟩ iov).pendingIo
        mIoUring := w.mIoUring.pushSqe
          (prepSqe fd off ctx (coalesce w.mPendingIo ⟨fd, off⟩ iov).newIov).freeIov
        heap := Function.update w.heap ctx
          (some ⟨fd, off, (coalesce w.mPendingIo ⟨fd, off⟩ iov).ctxIov, none⟩)
        calls := Function.update w.calls call
          (some ⟨ctx, fd, off, iov, .returned (.ioError .kIOUringSubmitError (some (-ret).toNat))⟩)
        stranded := w.stranded + 1 } := by
  simp [submitQueue, free, Ring.ioUringSubmit, rejected]

/-- The successful exit: the entry is submitted, counted, and the coroutine suspends. -/
theorem submitQueue_of_accepted (free : w.mIoUring.ioUringGetSqe = true) (accepted : 0 ≤ ret) :
    w.submitQueue call ctx iov fd off ret =
      { w with
        mPendingIo := (coalesce w.mPendingIo ⟨fd, off⟩ iov).pendingIo
        mIoUring := ((w.mIoUring.pushSqe
          (prepSqe fd off ctx (coalesce w.mPendingIo ⟨fd, off⟩ iov).newIov)).ioUringSubmit ret).1
        mNPendingSqe := w.mNPendingSqe + 1
        heap := Function.update w.heap ctx
          (some (awaitCtx ⟨fd, off, (coalesce w.mPendingIo ⟨fd, off⟩ iov).ctxIov, none⟩ call))
        calls := Function.update w.calls call (some ⟨ctx, fd, off, iov, .suspended⟩) } := by
  have notRejected : ¬ ret < 0 := by omega
  simp [submitQueue, free, Ring.ioUringSubmit, notRejected, Int.ofNat_nonneg]

/-- Every exit commits the coalescer's update of the pending map. -/
@[simp] theorem submitQueue_mPendingIo :
    (w.submitQueue call ctx iov fd off ret).mPendingIo =
      (coalesce w.mPendingIo ⟨fd, off⟩ iov).pendingIo := by
  cases free : w.mIoUring.ioUringGetSqe
  · simp [submitQueue_of_sqeFull _ _ _ _ _ _ _ free]
  · rcases lt_or_le ret 0 with rejected | accepted
    · simp [submitQueue_of_rejected _ _ _ _ _ _ _ free rejected]
    · simp [submitQueue_of_accepted _ _ _ _ _ _ _ free accepted]

/-- A submit call touches no other coroutine. -/
theorem submitQueue_calls_of_ne {c : Nat} (other : c ≠ call) :
    (w.submitQueue call ctx iov fd off ret).calls c = w.calls c := by
  cases free : w.mIoUring.ioUringGetSqe
  · simp [submitQueue_of_sqeFull _ _ _ _ _ _ _ free, Function.update_noteq other]
  · rcases lt_or_le ret 0 with rejected | accepted
    · simp [submitQueue_of_rejected _ _ _ _ _ _ _ free rejected, Function.update_noteq other]
    · simp [submitQueue_of_accepted _ _ _ _ _ _ _ free accepted, Function.update_noteq other]

/-- A submit call leaves the completion queue and the spinning iterations alone. -/
theorem submitQueue_cq_spins :
    (w.submitQueue call ctx iov fd off ret).mIoUring.cq = w.mIoUring.cq ∧
      (w.submitQueue call ctx iov fd off ret).spins = w.spins := by
  cases free : w.mIoUring.ioUringGetSqe
  · simp [submitQueue_of_sqeFull _ _ _ _ _ _ _ free]
  · rcases lt_or_le ret 0 with rejected | accepted
    · simp [submitQueue_of_rejected _ _ _ _ _ _ _ free rejected, Ring.pushSqe]
    · simp [submitQueue_of_accepted _ _ _ _ _ _ _ free accepted, Ring.pushSqe]

end Submit

end World

/-! The submit path records the request in `m_pending_io` before it asks for a slot, and
prepares its entry before it calls `io_uring_submit`.  Neither failure exit undoes either
step, and only the counter is left alone on both. -/

/-- On a reader with a one-slot ring, a read rejected with `-EAGAIN` leaves its length
pending and its entry queued; the next read then finds no slot and fails with
`kIOUringSqeFull`, and its length is recorded all the same. -/
theorem failed_submissions_mutate_reader :
    ∃ w full, (World.init 1).run [.submit 1 8#64 [⟨1000, 4096⟩] 3 0 (-11)] = some w ∧
      (w.calls 1).map Call.state = some (.returned (.ioError .kIOUringSubmitError (some 11))) ∧
      pendingLens (World.init 1).mPendingIo ⟨3, 0⟩ = [] ∧ pendingLens w.mPendingIo ⟨3, 0⟩ = [4096] ∧
      (World.init 1).mIoUring.sq = [] ∧ w.mIoUring.sq.length = 1 ∧
      w.step (.submit 2 16#64 [⟨2000, 512⟩] 5 0 1) = some full ∧
      (full.calls 2).map Call.state = some (.returned (.ioError .kIOUringSqeFull none)) ∧
      pendingLens w.mPendingIo ⟨5, 0⟩ = [] ∧ pendingLens full.mPendingIo ⟨5, 0⟩ = [512] :=
  ⟨_, _, rfl, by decide, by decide, by decide, rfl, by decide, rfl, by decide, by decide,
    by decide⟩

namespace World

/-- One loop iteration on a completion with a negative result: only the counter moves. -/
theorem reapOne_of_neg (w : World) {cqe : Cqe} (negative : cqe.res < 0) :
    w.reapOne cqe = some { w with mNPendingSqe := w.mNPendingSqe - 1, spins := w.spins + 1 } := by
  simp [reapOne, not_le.2 negative]

/-- One loop iteration on a completion with `res ≥ 0` whose context is live. -/
theorem reapOne_of_live (w : World) {cqe : Cqe} {io : IoCtx} (nonneg : 0 ≤ cqe.res)
    (live : w.heap (decodeUserData cqe.userData).2 = some io) :
    w.reapOne cqe = some { w with
      mPendingIo := if (decodeUserData cqe.userData).1 then eraseNopLens w.mPendingIo io
        else w.mPendingIo
      mIoUring := w.mIoUring.ioUringCqeSeen
      heap := Function.update w.heap (decodeUserData cqe.userData).2 none
      calls := resumeIfSet w.calls io.mPromise
      mNPendingSqe := w.mNPendingSqe - 1 } := by
  simp only [reapOne, nonneg, if_true, live]

theorem reapOne_cases {w next : World} {cqe : Cqe} (reaped : w.reapOne cqe = some next) :
    (cqe.res < 0 ∧ next = { w with mNPendingSqe := w.mNPendingSqe - 1, spins := w.spins + 1 }) ∨
    (0 ≤ cqe.res ∧ ∃ io, w.heap (decodeUserData cqe.userData).2 = some io ∧
      next = { w with
        mPendingIo := if (decodeUserData cqe.userData).1 then eraseNopLens w.mPendingIo io
          else w.mPendingIo
        mIoUring := w.mIoUring.ioUringCqeSeen
        heap := Function.update w.heap (decodeUserData cqe.userData).2 none
        calls := resumeIfSet w.calls io.mPromise
        mNPendingSqe := w.mNPendingSqe - 1 }) := by
  rcases lt_or_le cqe.res 0 with negative | nonneg
  · rw [reapOne_of_neg w negative] at reaped
    exact Or.inl ⟨negative, (Option.some.inj reaped).symm⟩
  · cases live : w.heap (decodeUserData cqe.userData).2 with
    | none => simp [reapOne, nonneg, live] at reaped
    | some io =>
        rw [reapOne_of_live w nonneg live] at reaped
        exact Or.inr ⟨nonneg, io, rfl, (Option.some.inj reaped).symm⟩

/-- What one event can do. -/
theorem step_cases {w next : World} {e : Event} (stepped : w.step e = some next) :
    (∃ call ctx iov fd off ret, e = .submit call ctx iov fd off ret ∧ w.calls call = none ∧
      w.heap ctx = none ∧ ctx.toNat % 2 = 0 ∧ next = w.submitQueue call ctx iov fd off ret) ∨
    (∃ i res, e = .complete i res ∧ i < w.mIoUring.inflight.length ∧
      next = w.kernelComplete i res) ∨
    (e = .reap ∧ ∃ cqe rest, w.mIoUring.cq = cqe :: rest ∧ w.reapOne cqe = some next) := by
  cases e with
  | submit call ctx iov fd off ret =>
      simp only [step] at stepped
      split at stepped
      · rename_i fresh
        exact Or.inl ⟨call, ctx, iov, fd, off, ret, rfl, fresh.1, fresh.2.1, fresh.2.2,
          (Option.some.inj stepped).symm⟩
      · cases stepped
  | complete i res =>
      simp only [step] at stepped
      split at stepped
      · exact Or.inr (Or.inl ⟨i, res, rfl, ‹_›, (Option.some.inj stepped).symm⟩)
      · cases stepped
  | reap =>
      simp only [step] at stepped
      split at stepped
      · cases stepped
      · exact Or.inr (Or.inr ⟨rfl, _, _, ‹_›, stepped⟩)

/-- The kernel finishing the head of the running entries moves it to the completion queue
and records what it wrote. -/
theorem step_complete_head {w : World} {sqe : Sqe} {rest : List Sqe}
    (running : w.mIoUring.inflight = sqe :: rest) (res : Int) :
    w.step (.complete 0 res) = some { w with
      mIoUring := { w.mIoUring with
        inflight := rest, cq := w.mIoUring.cq ++ [⟨sqe.userData, res⟩] }
      written := w.written ++ sqe.op.writes res } := by
  have found : w.mIoUring.inflight.get? 0 = some sqe := by simp [running]
  simp [step, kernelComplete, running, Ring.complete_of_found found]

/-- An iteration of the reaper's loop handles the head of the completion queue. -/
theorem step_reap {w : World} {cqe : Cqe} {rest : List Cqe} (head : w.mIoUring.cq = cqe :: rest) :
    w.step .reap = w.reapOne cqe := by
  simp only [step, head]

end World

/-- The worlds a reader can reach from its construction. -/
inductive Reachable : World → Prop where
  | init (entries : Nat) : Reachable (World.init entries)
  | step {w next : World} (e : Event) : Reachable w → w.step e = some next → Reachable next

theorem Reachable.run {w next : World} {es : List Event} (reachable : Reachable w)
    (ran : w.run es = some next) : Reachable next :=
  World.run_induction Reachable (fun _ reach stepped => reach.step _ stepped) reachable ran

/-- A run from a freshly constructed reader reaches its end. -/
theorem Reachable.ofRun (entries : Nat) (es : List Event) {w : World}
    (ran : (World.init entries).run es = some w) : Reachable w :=
  (Reachable.init entries).run ran

end CxxRocksdb
end RustRocksdb
