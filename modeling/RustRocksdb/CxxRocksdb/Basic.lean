import Mathlib.Data.List.Nodup
import Mathlib.Logic.Function.Basic

namespace RustRocksdb
namespace CxxRocksdb

/-!
# The data of the asynchronous point-read path

`Async_reader` keeps, next to its ring, one table: `m_pending_io` maps the target of a
read, a file descriptor and an offset, to the set of read lengths in flight there.  A read
is described by the `IO_ctx` its caller allocates, which carries the `iovec` buffers to
fill and, once the submitting coroutine suspends, the promise to resume.

Sets are `std::unordered_set<size_t>` in the source.  Their loops do not depend on the
iteration order, so a set is a duplicate-free list here, in some iteration order, and the
proof field keeps every value a set.  Integers that the code only compares are `Int` or
`Nat` without a width.
-/

/-- A `struct iovec`: the address of a caller buffer and its length. -/
structure Iovec where
  iovBase : Nat
  iovLen : Nat
  deriving DecidableEq, Repr

/-- A value-initialised `iovec`, as `std::vector::resize` appends it: a null base and
length zero. -/
def Iovec.zero : Iovec := ⟨0, 0⟩

/-- `Async_reader::IO_key`.  Equality is over the raw pair; the hash is irrelevant to
the map's contents. -/
structure IoKey where
  mFd : Int
  mOff : Int
  deriving DecidableEq, Repr

/-- `Async_reader::IO_value`, the lengths in flight at one key, listed in the set's
iteration order.  An `unordered_set` never holds a length twice. -/
structure IoValue where
  lens : List Nat
  nodup : lens.Nodup

namespace IoValue

/-- A value-initialised `IO_value{}`. -/
def empty : IoValue := ⟨[], List.nodup_nil⟩

/-- `unordered_set::insert`: a length already present leaves the set as it was. -/
def insert (v : IoValue) (len : Nat) : IoValue := ⟨v.lens.insert len, v.nodup.insert⟩

/-- `unordered_set::erase` by value. -/
def erase (v : IoValue) (len : Nat) : IoValue := ⟨v.lens.erase len, v.nodup.erase len⟩

@[simp] theorem lens_empty : empty.lens = [] := rfl

@[simp] theorem mem_insert {v : IoValue} {len other : Nat} :
    other ∈ (v.insert len).lens ↔ other = len ∨ other ∈ v.lens :=
  List.mem_insert_iff

@[simp] theorem mem_erase {v : IoValue} {len other : Nat} :
    other ∈ (v.erase len).lens ↔ other ≠ len ∧ other ∈ v.lens :=
  v.nodup.mem_erase_iff

/-- Inserting lengths read off a list, as both branches of the submit path do, adds
exactly those lengths. -/
theorem mem_foldl_insert {α : Type} (f : α → Nat) (xs : List α) (v : IoValue) (len : Nat) :
    len ∈ (xs.foldl (fun acc x => acc.insert (f x)) v).lens ↔
      len ∈ v.lens ∨ ∃ x ∈ xs, f x = len := by
  induction xs generalizing v with
  | nil => simp
  | cons x xs ih =>
      simp only [List.foldl_cons, ih, mem_insert, List.mem_cons, exists_eq_or_imp]
      tauto

end IoValue

/-- The lengths `m_pending_io` holds at `key`, none when the key is absent. -/
def pendingLens (pendingIo : IoKey → Option IoValue) (key : IoKey) : List Nat :=
  ((pendingIo key).map IoValue.lens).getD []

@[simp] theorem pendingLens_some {pendingIo : IoKey → Option IoValue} {key : IoKey}
    {v : IoValue} (found : pendingIo key = some v) : pendingLens pendingIo key = v.lens := by
  simp [pendingLens, found]

@[simp] theorem pendingLens_none {pendingIo : IoKey → Option IoValue} {key : IoKey}
    (absent : pendingIo key = none) : pendingLens pendingIo key = [] := by
  simp [pendingLens, absent]

/-- `Async_future::IO_ctx` as far as the reader reads and writes it.  `mPromise` is the
promise of the suspended coroutine, `none` for a null pointer; coroutines are named by
numbers. -/
structure IoCtx where
  mFd : Int
  mOff : Int
  mIov : List Iovec
  mPromise : Option Nat
  deriving DecidableEq, Repr

/-- The subcodes of `Status` that this path produces. -/
inductive SubCode where
  | kIOUringSqeFull
  | kIOUringSubmitError
  deriving DecidableEq, Repr

/-- `IOStatus` as the submit path returns it.  The message of a submission error is
`strerror(-ret)`; it is kept as the `errno` that determines the text. -/
inductive IOStatus where
  | ok
  | ioError (subcode : SubCode) (msg : Option Nat)
  deriving DecidableEq, Repr

end CxxRocksdb
end RustRocksdb
