import Mathlib.Data.BitVec
import RustRocksdb.CxxRocksdb.Basic

namespace RustRocksdb
namespace CxxRocksdb

/-!
# The tag bit in `user_data`

A submission carries one 64-bit word back to its completion.  The submit path stores the
`IO_ctx` pointer there, and for a no-op it first sets the pointer's low bit, which an
aligned allocation leaves clear.  The reaper tests that bit and masks it off again with
`c & ~1`.

The mask is written with the `int` constant `~1`.  Converting a negative `int` to
`uintptr_t` extends its sign, so the mask keeps the upper half of the word; a mask of
32 bits would lose every address above `2^32`.  Pointers and `user_data` are
`BitVec 64`: liburing's `io_uring_sqe_set_data` and `io_uring_cqe_get_data` convert
between them without changing a bit.
-/

/-- The source's `~1`: the complement of the `int` constant `1`, converted to
`uintptr_t`. -/
def notOne : BitVec 64 := (~~~(1#32)).signExtend 64

/-- The `user_data` stored for the context at `ctx`: the pointer itself for a readv,
`((uintptr_t) ctx) | 1` for a no-op. -/
def sqeUserData (nop : Bool) (ctx : BitVec 64) : BitVec 64 :=
  if nop then ctx ||| 1#64 else ctx

/-- How `io_uring_reap_cq` reads `c = user_data`: whether `c & 1` is set, and the context
pointer, `c & ~1` in the no-op branch and `c` itself otherwise. -/
def decodeUserData (c : BitVec 64) : Bool × BitVec 64 :=
  if c &&& 1#64 ≠ 0#64 then (true, c &&& notOne) else (false, c)

theorem getLsbD_notOne (i : Nat) : notOne.getLsbD i = (decide (i < 64) && decide (i ≠ 0)) := by
  by_cases small : i < 32
  · simp only [notOne, BitVec.getLsbD_signExtend, small, if_true, BitVec.getLsbD_not,
      BitVec.getLsbD_one]
    simp [small]
  · have msb : (~~~(1#32)).msb = true := by decide
    have nonzero : i ≠ 0 := by omega
    simp only [notOne, BitVec.getLsbD_signExtend, small, if_false, msb]
    simp [nonzero]

section Aligned

variable {ctx : BitVec 64}

theorem getLsbD_zero_of_even (aligned : ctx.toNat % 2 = 0) : ctx.getLsbD 0 = false := by
  simp [BitVec.getLsbD, Nat.testBit_zero, aligned]

theorem and_one_of_even (aligned : ctx.toNat % 2 = 0) : ctx &&& 1#64 = 0#64 := by
  ext i
  have low := getLsbD_zero_of_even aligned
  by_cases zero : (i : Nat) = 0
  · simp [zero, low]
  · simp [zero]

theorem or_one_and_one_ne_zero : (ctx ||| 1#64) &&& 1#64 ≠ 0#64 := by
  intro cleared
  have bit := congrArg (fun c : BitVec 64 => c.getLsbD 0) cleared
  simp at bit

theorem or_one_and_notOne (aligned : ctx.toNat % 2 = 0) : (ctx ||| 1#64) &&& notOne = ctx := by
  ext i
  have low := getLsbD_zero_of_even aligned
  by_cases zero : (i : Nat) = 0
  · simp [zero, low, getLsbD_notOne]
  · simp [zero, getLsbD_notOne]

/-- The reaper reads back exactly the tag and the context the submit path stored. -/
theorem decodeUserData_sqeUserData (nop : Bool) (aligned : ctx.toNat % 2 = 0) :
    decodeUserData (sqeUserData nop ctx) = (nop, ctx) := by
  cases nop
  · simp [decodeUserData, sqeUserData, and_one_of_even aligned]
  · simp [decodeUserData, sqeUserData, or_one_and_one_ne_zero, or_one_and_notOne aligned]

end Aligned

/-- On the full 64-bit width, the reaper's test `c & 1` is set exactly for a no-op, and the
pointer it recovers, `c & ~1` for a no-op and `c` for a readv, is the context's own. -/
theorem userData_tag_roundTrip (nop : Bool) (ctx : BitVec 64) (aligned : ctx.toNat % 2 = 0) :
    (sqeUserData nop ctx &&& 1#64 ≠ 0#64 ↔ nop = true) ∧
      (if nop then sqeUserData nop ctx &&& notOne else sqeUserData nop ctx) = ctx := by
  cases nop
  · simp [sqeUserData, and_one_of_even aligned]
  · simp [sqeUserData, or_one_and_one_ne_zero, or_one_and_notOne aligned]

/-- A no-op for a context above `2^32`, where a 32-bit mask would lose the high bits. -/
theorem userData_tag_roundTrip_high :
    (0x7f1234567890#64).toNat % 2 = 0 ∧
      ((sqeUserData true 0x7f1234567890#64 &&& 1#64 ≠ 0#64 ↔ true = true) ∧
        (if true then sqeUserData true 0x7f1234567890#64 &&& notOne
          else sqeUserData true 0x7f1234567890#64) = 0x7f1234567890#64) :=
  ⟨by decide, userData_tag_roundTrip true 0x7f1234567890#64 (by decide)⟩

end CxxRocksdb
end RustRocksdb
