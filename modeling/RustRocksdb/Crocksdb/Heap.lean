import Mathlib.Logic.Function.Basic

namespace RustRocksdb
namespace Crocksdb

/-!
# Strings handed to the caller on the C heap

The C API returns values and error messages in blocks that the caller frees.  `CopyString`
`malloc`s a block for a value and copies its bytes; `SaveError` stores a `strdup` of a failed
status's text in `*errptr`, first freeing the message already there.  A caller may pass one
`errptr` to several calls, and `SaveError`'s own comment names what that needs: the pointer
in `*errptr` must be null or a block from `malloc`.

`Heap` holds the blocks handed out and not yet freed.  Addresses are natural numbers, `0`
being `nullptr`; the heap carries as fields that `0` is never a block and that no address at
or past `next`, where the next block goes, is in use.

The main result, `saveErrors_keeps_last_failure`, follows one `errptr` through any sequence
of calls: `*errptr` ends holding the text of the last failed status, or what it held before
if none failed, every message an earlier call stored has been freed, and no call frees a
pointer that is not a block.
-/

/-- The bytes of a `std::string` or of a heap block. -/
abbrev Bytes := List UInt8

/-- A `rocksdb::Status` as the C API reads it: `ok()`, `IsNotFound()`, and the text of
`ToString()` for a status that is not ok. -/
inductive Status where
  | ok
  | notFound (text : Bytes)
  | failed (text : Bytes)
  deriving DecidableEq, Repr

/-- The text `ToString()` gives for a status that is not ok. -/
def Status.failure : Status → Option Bytes
  | .ok => none
  | .notFound text | .failed text => some text

/-- The blocks `malloc` and `strdup` handed out and not yet freed, by address. -/
structure Heap where
  blocks : Nat → Option Bytes
  next : Nat
  null_unused : blocks 0 = none
  next_pos : 0 < next
  fresh : ∀ a, next ≤ a → blocks a = none

/-- A heap with no blocks. -/
def Heap.empty : Heap := ⟨fun _ => none, 1, rfl, Nat.one_pos, fun _ _ => rfl⟩

/-- `malloc` of a block holding `bytes`, at the first address never handed out. -/
def Heap.alloc (h : Heap) (bytes : Bytes) : Nat × Heap :=
  (h.next,
    { blocks := Function.update h.blocks h.next (some bytes)
      next := h.next + 1
      null_unused := by
        rw [Function.update_noteq (Nat.ne_of_lt h.next_pos)]
        exact h.null_unused
      next_pos := Nat.succ_pos _
      fresh := fun a past => by
        rw [Function.update_noteq (by omega)]
        exact h.fresh a (by omega) })

/-- `free(p)`: nothing for `nullptr`, the release of a block `malloc` handed out, and
undefined for any other pointer. -/
def Heap.free (h : Heap) (p : Nat) : Option Heap :=
  if p = 0 then some h
  else if (h.blocks p).isSome then
    some
      { blocks := Function.update h.blocks p none
        next := h.next
        null_unused := by
          by_cases zero : (0 : Nat) = p
          · rw [← zero, Function.update_same]
          · rw [Function.update_noteq zero]
            exact h.null_unused
        next_pos := h.next_pos
        fresh := fun a past => by
          by_cases here : a = p
          · rw [here, Function.update_same]
          · rw [Function.update_noteq here]
            exact h.fresh a past }
  else none

/-- `CopyString`: a `malloc`ed block with the bytes of `str` and no terminator. -/
def copyString (h : Heap) (str : Bytes) : Nat × Heap := h.alloc str

/-- The bytes `strdup(text.c_str())` copies: those before the first NUL, then the NUL. -/
def cString (text : Bytes) : Bytes := text.takeWhile (· != 0) ++ [0]

/-- `strdup(text.c_str())`. -/
def strdup (h : Heap) (text : Bytes) : Nat × Heap := h.alloc (cString text)

/-- `SaveError(errptr, s)`, with `slot` the pointer in `*errptr`: whether `s` failed, the
new pointer in `*errptr`, and the heap. -/
def saveError (h : Heap) (slot : Nat) (s : Status) : Option (Bool × Nat × Heap) :=
  match s with
  | .ok => some (false, slot, h)
  | .notFound text | .failed text =>
      (if slot = 0 then some h else h.free slot).map fun h =>
        let (p, h) := strdup h text
        (true, p, h)

/-- `SaveError` once per status, in order, on one `errptr` whose pointer starts as `slot`:
what a caller that passes the same `errptr` to several calls sees. -/
def saveErrors (h : Heap) (slot : Nat) : List Status → Option (Nat × Heap)
  | [] => some (slot, h)
  | s :: rest => (saveError h slot s).bind fun (_, slot, h) => saveErrors h slot rest

/-- The text of the last status of a list that is not ok. -/
def lastFailure : List Status → Option Bytes
  | [] => none
  | s :: rest => (lastFailure rest).or s.failure

section Blocks

variable (h : Heap) (bytes : Bytes) (p a : Nat)

@[simp] theorem alloc_fst : (h.alloc bytes).1 = h.next := rfl

@[simp] theorem alloc_blocks_self : (h.alloc bytes).2.blocks h.next = some bytes :=
  Function.update_same _ _ _

theorem alloc_blocks_of_ne (other : a ≠ h.next) : (h.alloc bytes).2.blocks a = h.blocks a :=
  Function.update_noteq other _ _

/-- The address `malloc` hands out was not a block. -/
theorem blocks_next : h.blocks h.next = none := h.fresh _ (Nat.le_refl _)

/-- Freeing a block removes it and keeps every other block. -/
theorem free_of_live (live : (h.blocks p).isSome) :
    ∃ h', h.free p = some h' ∧ h'.next = h.next ∧
      ∀ a, h'.blocks a = if a = p then none else h.blocks a := by
  have nonnull : p ≠ 0 := fun zero => by simp [zero, h.null_unused] at live
  unfold Heap.free
  rw [if_neg nonnull, if_pos live]
  refine ⟨_, rfl, rfl, fun a => ?_⟩
  by_cases here : a = p
  · rw [here, if_pos rfl]
    exact Function.update_same _ _ _
  · rw [if_neg here]
    exact Function.update_noteq here _ _

end Blocks

section Slot

variable {h : Heap} {slot : Nat} {s : Status} {text : Bytes}

/-- One failed status: `*errptr` gets a fresh block with the status's text, and the block it
held before, if any, is freed. -/
theorem saveError_of_failure (owned : slot = 0 ∨ (h.blocks slot).isSome)
    (failure : s.failure = some text) :
    ∃ p h', saveError h slot s = some (true, p, h') ∧ h.blocks p = none ∧
      h'.blocks p = some (cString text) ∧
      ∀ a, a ≠ p → h'.blocks a = if a = slot then none else h.blocks a := by
  obtain ⟨freed, released, same, frame⟩ : ∃ freed, (if slot = 0 then some h else h.free slot) =
      some freed ∧ freed.next = h.next ∧
      ∀ a, freed.blocks a = if a = slot then none else h.blocks a := by
    by_cases null : slot = 0
    · subst null
      refine ⟨h, if_pos rfl, rfl, fun a => ?_⟩
      by_cases here : a = 0 <;> simp [here, h.null_unused]
    · obtain ⟨freed, release, same, frame⟩ := free_of_live h slot (owned.resolve_left null)
      exact ⟨freed, by rw [if_neg null, release], same, frame⟩
  have unused : h.blocks freed.next = none := same ▸ blocks_next h
  refine ⟨freed.next, (freed.alloc (cString text)).2, ?_, unused, alloc_blocks_self _ _,
    fun a other => by rw [alloc_blocks_of_ne _ _ _ other, frame]⟩
  cases s with
  | ok => cases failure
  | notFound | failed =>
      cases failure
      simp [saveError, released, strdup]

/-- Releasing the block of `slot` and taking a fresh `p`, then releasing `p` and taking `q`,
releases the block of `slot` and takes `q`. -/
theorem blocks_replace_trans {h₁ h₂ : Heap} {p q : Nat} (unused : h.blocks p = none)
    (first : ∀ a, a ≠ p → h₁.blocks a = if a = slot then none else h.blocks a)
    (second : ∀ a, a ≠ q → h₂.blocks a = if a = p then none else h₁.blocks a) :
    ∀ a, a ≠ q → h₂.blocks a = if a = slot then none else h.blocks a := by
  intro a other
  rw [second a other]
  by_cases freed : a = p
  · subst freed
    by_cases here : a = slot <;> simp [here, unused]
  · rw [if_neg freed, first a freed]

/-- A status that did not fail leaves `*errptr` and the heap as they were. -/
theorem saveError_of_success (success : s.failure = none) :
    saveError h slot s = some (false, slot, h) := by
  cases s with
  | ok => rfl
  | notFound | failed => cases success

/-- **One error slot over any sequence of calls.**  From a slot that is null or owns its
block, every call is defined, and at the end `*errptr` holds the text of the last failed
status, as a block of its own, or, if no status failed, the pointer it started with over
an unchanged heap.  Apart from that block, the heap is the one the calls started from
less the block the slot held: each message an earlier call stored has been freed. -/
theorem saveErrors_keeps_last_failure (h : Heap) (slot : Nat)
    (owned : slot = 0 ∨ (h.blocks slot).isSome) (statuses : List Status) :
    ∃ slot' h', saveErrors h slot statuses = some (slot', h') ∧
      (lastFailure statuses = none → slot' = slot ∧ h' = h) ∧
      ∀ text, lastFailure statuses = some text →
        h'.blocks slot' = some (cString text) ∧
        ∀ a, a ≠ slot' → h'.blocks a = if a = slot then none else h.blocks a := by
  induction statuses generalizing h slot with
  | nil => exact ⟨slot, h, rfl, fun _ => ⟨rfl, rfl⟩, fun _ none => by cases none⟩
  | cons s rest ih =>
      cases failure : s.failure with
      | none =>
          obtain ⟨slot', h', run, kept, last⟩ := ih h slot owned
          have same : lastFailure (s :: rest) = lastFailure rest := by
            simp [lastFailure, failure]
          exact ⟨slot', h', by simp [saveErrors, saveError_of_success failure, run],
            same ▸ kept, same ▸ last⟩
      | some text =>
          obtain ⟨p, h₁, saved, unused, stored, frame⟩ := saveError_of_failure owned failure
          obtain ⟨slot', h', run, kept, last⟩ := ih h₁ p (.inr (by simp [stored]))
          refine ⟨slot', h', by simp [saveErrors, saved, run], fun none => by
            cases later : lastFailure rest <;> simp [lastFailure, later, failure] at none,
            fun found message => ?_⟩
          cases later : lastFailure rest with
          | none =>
              obtain ⟨rfl, rfl⟩ := kept later
              simp only [lastFailure, later, failure, Option.none_or, Option.some.injEq] at message
              exact message ▸ ⟨stored, frame⟩
          | some latest =>
              simp only [lastFailure, later, failure, Option.or_some, Option.some.injEq] at message
              obtain ⟨held, others⟩ := last latest later
              exact ⟨message ▸ held, blocks_replace_trans unused frame others⟩

/-- A slot that already holds a message from an earlier call. -/
def reusedSlot : Heap := (Heap.empty.alloc [5, 0]).2

/-- The slot is reused by a failed call, a successful one, and a `NotFound` whose text has a
NUL in it. -/
theorem saveErrors_keeps_last_failure_reused_slot :
    (1 = 0 ∨ (reusedSlot.blocks 1).isSome) ∧
      ∃ slot' h', saveErrors reusedSlot 1 [.failed [1], .ok, .notFound [2, 0, 3]] =
          some (slot', h') ∧
        (lastFailure [.failed [1], .ok, .notFound [2, 0, 3]] = none →
          slot' = 1 ∧ h' = reusedSlot) ∧
        ∀ text, lastFailure [.failed [1], .ok, .notFound [2, 0, 3]] = some text →
          h'.blocks slot' = some (cString text) ∧
          ∀ a, a ≠ slot' → h'.blocks a = if a = 1 then none else reusedSlot.blocks a :=
  ⟨.inr rfl, saveErrors_keeps_last_failure reusedSlot 1 (.inr rfl) _⟩

end Slot

end Crocksdb
end RustRocksdb
