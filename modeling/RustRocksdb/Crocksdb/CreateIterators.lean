import Mathlib.Data.List.Range

namespace RustRocksdb
namespace Crocksdb

/-!
# Iterators over several column families

`crocksdb_create_iterators` and `ctitandb_create_iterators` build the vector of
`ColumnFamilyHandle*` for `NewIterators` in the same way.  The vector is constructed with
`size` elements, all null, and the loop then appends each handle's `rep` after them, so
`NewIterators` receives `2 * size` handles of which the first `size` are null.  On
success both copy the first `size` results, which belong to the null handles, into the
caller's array; `assert(res.size() == size)` states the intended length.

The two functions differ only in which `NewIterators` they call.  They are one definition
over that call, and each keeps its own name and its own choice of call.  Pointers are
addresses, `0` being `nullptr`; the database is what its iterator calls return.

`crocksdb_flush_cfs` builds its handle vector from the same kind of array the other way,
assigning by index into the constructed vector, and passes exactly the handles.  The last
lemmas compare the two: the iterator functions' vector is the flush vector behind `size`
null handles.
-/

/-- `crocksdb_column_family_handle_t`, a wrapper around a `ColumnFamilyHandle*`. -/
structure CrocksdbColumnFamilyHandle where
  rep : Nat
  deriving DecidableEq, Repr

/-- The `NewIterators` calls these functions make: `DB::NewIterators` and
`TitanDB::NewIterators`, each returning one iterator per handle, or `none` for an error
status. -/
structure Db (ReadOptions TitanReadOptions : Type) where
  newIterators : ReadOptions → List Nat → Option (List Nat)
  titanNewIterators : TitanReadOptions → List Nat → Option (List Nat)

/-- `column_families_vec` as both functions build it: `size` null pointers from the
constructor, then one `push_back` per handle. -/
def columnFamiliesVec (columnFamilies : Nat → CrocksdbColumnFamilyHandle) (size : Nat) :
    List Nat :=
  (List.range size).foldl (fun vec i => vec ++ [(columnFamilies i).rep]) (List.replicate size 0)

/-- The body shared by both functions after the vector is built: an error status returns
nothing; otherwise `iterators[i]->rep = res[i]` for every `i < size`. -/
def createIteratorsWith (newIterators : List Nat → Option (List Nat))
    (columnFamilies : Nat → CrocksdbColumnFamilyHandle) (size : Nat) : Option (List Nat) :=
  (newIterators (columnFamiliesVec columnFamilies size)).map fun res =>
    (List.range size).map fun i => res.getD i 0

variable {ReadOptions TitanReadOptions : Type}

/-- `crocksdb_create_iterators`. -/
def crocksdbCreateIterators (db : Db ReadOptions TitanReadOptions) (opts : ReadOptions)
    (columnFamilies : Nat → CrocksdbColumnFamilyHandle) (size : Nat) : Option (List Nat) :=
  createIteratorsWith (db.newIterators opts) columnFamilies size

/-- `ctitandb_create_iterators`: without Titan options it calls the plain `NewIterators`;
otherwise it first copies `options` into the base of the Titan options (`setBase`). -/
def ctitandbCreateIterators (db : Db ReadOptions TitanReadOptions)
    (setBase : TitanReadOptions → ReadOptions → TitanReadOptions) (options : ReadOptions)
    (titanOptions : Option TitanReadOptions)
    (columnFamilies : Nat → CrocksdbColumnFamilyHandle) (size : Nat) : Option (List Nat) :=
  createIteratorsWith
    (match titanOptions with
      | none => db.newIterators options
      | some titan => db.titanNewIterators (setBase titan options))
    columnFamilies size

theorem foldl_push (f : Nat → Nat) (indices : List Nat) (init : List Nat) :
    indices.foldl (fun vec i => vec ++ [f i]) init = init ++ indices.map f := by
  induction indices generalizing init with
  | nil => simp
  | cons i rest ih => simp [ih]

/-- The vector is `size` null handles followed by the handles' `rep`s. -/
theorem columnFamiliesVec_eq (columnFamilies : Nat → CrocksdbColumnFamilyHandle) (size : Nat) :
    columnFamiliesVec columnFamilies size =
      List.replicate size 0 ++ (List.range size).map fun i => (columnFamilies i).rep :=
  foldl_push _ _ _

/-- For every array of `size` handles, `NewIterators` receives `2 * size` handles whose first
`size` are null; when it returns one iterator per handle, every entry the caller gets back
is the iterator of a null handle. -/
theorem createIteratorsWith_null_handles (columnFamilies : Nat → CrocksdbColumnFamilyHandle)
    (size : Nat) (iteratorFor : Nat → Nat) :
    (columnFamiliesVec columnFamilies size).length = 2 * size ∧
      (∀ i < size, (columnFamiliesVec columnFamilies size).getD i 0 = 0) ∧
      createIteratorsWith (fun vec => some (vec.map iteratorFor)) columnFamilies size =
        some (List.replicate size (iteratorFor 0)) := by
  rw [columnFamiliesVec_eq]
  refine ⟨by simp; omega, fun i small => ?_, ?_⟩
  · have nulls : i < (List.replicate size 0).length := by simpa using small
    simp [List.getD_eq_getElem?_getD, List.getElem?_append_left nulls, small]
  · simp only [createIteratorsWith, columnFamiliesVec_eq, Option.map_some', Option.some.injEq]
    apply List.ext_getElem (by simp)
    intro i inRange _
    have small : i < size := by simpa using inRange
    have nulls : i < (List.replicate size (iteratorFor 0)).length := by simpa using small
    simp [List.getD_eq_getElem?_getD, List.getElem?_append_left nulls, small]

/-- The handle vector of `crocksdb_flush_cfs`, built the other way: constructed with
`num_handles` null pointers, each then overwritten by index. -/
def flushCfsHandles (columnFamilys : Nat → CrocksdbColumnFamilyHandle) (numHandles : Nat) :
    List Nat :=
  (List.range numHandles).foldl (fun handles i => handles.set i (columnFamilys i).rep)
    (List.replicate numHandles 0)

theorem foldl_set_range (f : Nat → Nat) (size : Nat) :
    ∀ filled ≤ size, (List.range filled).foldl (fun handles i => handles.set i (f i))
      (List.replicate size 0) = (List.range filled).map f ++ List.replicate (size - filled) 0 := by
  intro filled
  induction filled with
  | zero => simp
  | succ filled ih =>
      intro fits
      have remaining : size - filled = (size - (filled + 1)) + 1 := by omega
      rw [List.range_succ, List.foldl_append, ih (by omega), remaining, List.replicate_succ]
      have position : ((List.range filled).map f).length = filled := by simp
      simp [List.set_append_right _ _ (by omega : ((List.range filled).map f).length ≤ filled),
        position]

/-- `crocksdb_flush_cfs` passes exactly the handles' `rep`s, in order. -/
theorem flushCfsHandles_eq (columnFamilys : Nat → CrocksdbColumnFamilyHandle) (numHandles : Nat) :
    flushCfsHandles columnFamilys numHandles =
      (List.range numHandles).map fun i => (columnFamilys i).rep := by
  simpa using foldl_set_range (fun i => (columnFamilys i).rep) numHandles numHandles le_rfl

/-- For every array, the vector the two iterator functions pass is the one
`crocksdb_flush_cfs` builds from the same array, behind as many null handles. -/
theorem columnFamiliesVec_eq_nulls_append_flushCfsHandles
    (columnFamilies : Nat → CrocksdbColumnFamilyHandle) (size : Nat) :
    columnFamiliesVec columnFamilies size =
      List.replicate size 0 ++ flushCfsHandles columnFamilies size := by
  rw [columnFamiliesVec_eq, flushCfsHandles_eq]

/-- One handle, with `rep` `4096`, and a database whose `NewIterators` returns iterator
`h + 1` for handle `h`: both functions pass `[nullptr, 4096]` and hand back the iterator of
the null handle. -/
theorem create_iterators_pass_null_handles :
    columnFamiliesVec (fun _ => ⟨4096⟩) 1 = [0, 4096] ∧
      crocksdbCreateIterators (⟨fun _ vec => some (vec.map (· + 1)),
        fun _ vec => some (vec.map (· + 1))⟩ : Db Unit Unit) () (fun _ => ⟨4096⟩) 1 = some [1] ∧
      ctitandbCreateIterators (⟨fun _ vec => some (vec.map (· + 1)),
        fun _ vec => some (vec.map (· + 1))⟩ : Db Unit Unit) (fun _ _ => ()) () none
        (fun _ => ⟨4096⟩) 1 = some [1] ∧
      ctitandbCreateIterators (⟨fun _ vec => some (vec.map (· + 1)),
        fun _ vec => some (vec.map (· + 1))⟩ : Db Unit Unit) (fun _ _ => ()) () (some ())
        (fun _ => ⟨4096⟩) 1 = some [1] := by
  decide

end Crocksdb
end RustRocksdb
