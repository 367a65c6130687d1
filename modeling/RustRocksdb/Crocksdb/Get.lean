import RustRocksdb.Crocksdb.Heap

namespace RustRocksdb
namespace Crocksdb

/-!
# Point reads: `crocksdb_get` and `crocksdb_multi_get`

`crocksdb_get` hands its caller a `CopyString` of the value for an ok status, a null pointer
and length `0` for `NotFound`, and for any other status a null pointer, length `0`, and the
status's text through `SaveError`.  `crocksdb_multi_get` does the same per key in a loop over
the results of one `MultiGet`, except that it writes each key's error string itself: a
`strdup` of the text for a failed status and `nullptr` otherwise.  The `_cf` variants differ
only in the `Get` and `MultiGet` they call.

The main result compares the two paths.  When `MultiGet` answers each key as `Get` does,
`crocksdb_multi_get` gives every key what `crocksdb_get` gives it with a null `*errptr`: the
same value block, length and error string, with the blocks allocated in the same order.
-/

/-- The read calls of `rocksdb::DB` these functions make.  `Get` returns a status and fills
a string; `MultiGet` returns one status and fills one string per key, given as a list of
pairs as long as the keys. -/
structure DbReads (ReadOptions ColumnFamily : Type) where
  get : ReadOptions → Bytes → Status × Bytes
  getCf : ReadOptions → ColumnFamily → Bytes → Status × Bytes
  multiGet : ReadOptions → List Bytes → List (Status × Bytes)
  multiGetCf : ReadOptions → List ColumnFamily → List Bytes → List (Status × Bytes)
  multiGet_length : ∀ options keys, (multiGet options keys).length = keys.length
  multiGetCf_length : ∀ options cfs keys, (multiGetCf options cfs keys).length = keys.length

/-- The body `crocksdb_get` and `crocksdb_get_cf` share once `Get` returned `s` and filled
`tmp`: the returned pointer, `*vallen`, the pointer in `*errptr`, and the heap. -/
def getResult (h : Heap) (errptr : Nat) (s : Status) (tmp : Bytes) :
    Option (Nat × Nat × Nat × Heap) :=
  match s with
  | .ok =>
      let (result, h) := copyString h tmp
      some (result, tmp.length, errptr, h)
  | .notFound _ => some (0, 0, errptr, h)
  | .failed _ => (saveError h errptr s).map fun (_, errptr, h) => (0, 0, errptr, h)

/-- One pass of the loop `crocksdb_multi_get` and `crocksdb_multi_get_cf` share:
`values_list[i]`, `values_list_sizes[i]` and `errs[i]` for `statuses[i]` and `values[i]`. -/
def multiGetEntry (h : Heap) (s : Status) (value : Bytes) : (Nat × Nat × Nat) × Heap :=
  match s with
  | .ok =>
      let (p, h) := copyString h value
      ((p, value.length, 0), h)
  | .notFound _ => ((0, 0, 0), h)
  | .failed text =>
      let (err, h) := strdup h text
      ((0, 0, err), h)

/-- The loop of `crocksdb_multi_get` over every key, in order. -/
def multiGetEntries (h : Heap) : List (Status × Bytes) → List (Nat × Nat × Nat) × Heap
  | [] => ([], h)
  | (s, value) :: rest =>
      let (entry, h) := multiGetEntry h s value
      let (entries, h) := multiGetEntries h rest
      (entry :: entries, h)

variable {ReadOptions ColumnFamily : Type}

/-- `crocksdb_get`. -/
def crocksdbGet (db : DbReads ReadOptions ColumnFamily) (options : ReadOptions) (key : Bytes)
    (h : Heap) (errptr : Nat) : Option (Nat × Nat × Nat × Heap) :=
  let (s, tmp) := db.get options key
  getResult h errptr s tmp

/-- `crocksdb_get_cf`. -/
def crocksdbGetCf (db : DbReads ReadOptions ColumnFamily) (options : ReadOptions)
    (columnFamily : ColumnFamily) (key : Bytes) (h : Heap) (errptr : Nat) :
    Option (Nat × Nat × Nat × Heap) :=
  let (s, tmp) := db.getCf options columnFamily key
  getResult h errptr s tmp

/-- `crocksdb_multi_get`: `values_list`, `values_list_sizes` and `errs`, one entry per key. -/
def crocksdbMultiGet (db : DbReads ReadOptions ColumnFamily) (options : ReadOptions)
    (keys : List Bytes) (h : Heap) : List (Nat × Nat × Nat) × Heap :=
  multiGetEntries h (db.multiGet options keys)

/-- `crocksdb_multi_get_cf`, whose `column_families[i]` and `keys_list[i]` are given as one
list of pairs. -/
def crocksdbMultiGetCf (db : DbReads ReadOptions ColumnFamily) (options : ReadOptions)
    (keys : List (ColumnFamily × Bytes)) (h : Heap) : List (Nat × Nat × Nat) × Heap :=
  multiGetEntries h (db.multiGetCf options (keys.map Prod.fst) (keys.map Prod.snd))

/-- A single-key read called on each key in turn, each time with a null `*errptr`, collecting
what it returns as `crocksdb_multi_get` lays out its arrays. -/
def getEach {Key : Type} (get : Key → Heap → Nat → Option (Nat × Nat × Nat × Heap)) (h : Heap) :
    List Key → Option (List (Nat × Nat × Nat) × Heap)
  | [] => some ([], h)
  | key :: keys =>
      (get key h 0).bind fun (result, vallen, err, h) =>
        (getEach get h keys).map fun (entries, h) => ((result, vallen, err) :: entries, h)

/-- With a null `*errptr`, `crocksdb_get`'s body stores exactly what one pass of the loop of
`crocksdb_multi_get` stores: `SaveError` has nothing to free and `strdup`s the text. -/
theorem getResult_null (h : Heap) (s : Status) (tmp : Bytes) :
    getResult h 0 s tmp =
      some ((multiGetEntry h s tmp).1.1, (multiGetEntry h s tmp).1.2.1,
        (multiGetEntry h s tmp).1.2.2, (multiGetEntry h s tmp).2) := by
  cases s <;> rfl

/-- Any read that runs `crocksdb_get`'s body on what a lookup returns gives, key by key,
the loop of `crocksdb_multi_get` over the lookups. -/
theorem getEach_getResult {Key : Type} (lookup : Key → Status × Bytes) (h : Heap)
    (keys : List Key) :
    getEach (fun key h errptr => getResult h errptr (lookup key).1 (lookup key).2) h keys =
      some (multiGetEntries h (keys.map lookup)) := by
  induction keys generalizing h with
  | nil => rfl
  | cons key keys ih => simp [getEach, multiGetEntries, getResult_null, ih]

/-- **The batched read answers as the single one.**  When `MultiGet` answers each key as
`Get` does, `crocksdb_multi_get` gives every key what `crocksdb_get` gives it with a null
`*errptr`, called on the keys in order: the same value block and length, the same error
string, and the same heap, blocks allocated in the same order.  The same holds of the two
`_cf` functions. -/
theorem multiGet_answers_as_get (db : DbReads ReadOptions ColumnFamily) (options : ReadOptions)
    (h : Heap) (keys : List Bytes) (cfKeys : List (ColumnFamily × Bytes))
    (agrees : db.multiGet options keys = keys.map (db.get options))
    (agreesCf : db.multiGetCf options (cfKeys.map Prod.fst) (cfKeys.map Prod.snd) =
      cfKeys.map fun key => db.getCf options key.1 key.2) :
    getEach (crocksdbGet db options) h keys = some (crocksdbMultiGet db options keys h) ∧
      getEach (fun key => crocksdbGetCf db options key.1 key.2) h cfKeys =
        some (crocksdbMultiGetCf db options cfKeys h) := by
  rw [crocksdbMultiGet, crocksdbMultiGetCf, agrees, agreesCf]
  exact ⟨getEach_getResult _ h keys, getEach_getResult _ h cfKeys⟩

/-- A lookup with the value `[7]` under the key `[1]`, a failure for the key `[2]`, and
nothing under any other key. -/
def oneValueLookup (key : Bytes) : Status × Bytes :=
  if key = [1] then (.ok, [7]) else if key = [2] then (.failed [9], []) else (.notFound [], [])

/-- A database whose `Get` and `MultiGet` both answer with `oneValueLookup`. -/
def oneValueDb : DbReads Unit Unit where
  get _ := oneValueLookup
  getCf _ _ := oneValueLookup
  multiGet _ keys := keys.map oneValueLookup
  multiGetCf _ _ keys := keys.map oneValueLookup
  multiGet_length _ _ := by simp
  multiGetCf_length _ _ _ := by simp

theorem multiGet_answers_as_get_three_keys :
    oneValueDb.multiGet () [[1], [2], [3]] = [[1], [2], [3]].map (oneValueDb.get ()) ∧
      oneValueDb.multiGetCf () ([((), [2])].map Prod.fst) ([((), [2])].map Prod.snd) =
        [((), [2])].map (fun key => oneValueDb.getCf () key.1 key.2) ∧
      getEach (crocksdbGet oneValueDb ()) Heap.empty [[1], [2], [3]] =
        some (crocksdbMultiGet oneValueDb () [[1], [2], [3]] Heap.empty) ∧
      getEach (fun key => crocksdbGetCf oneValueDb () key.1 key.2) Heap.empty [((), [2])] =
        some (crocksdbMultiGetCf oneValueDb () [((), [2])] Heap.empty) :=
  ⟨rfl, rfl, multiGet_answers_as_get oneValueDb () Heap.empty _ _ rfl rfl⟩

end Crocksdb
end RustRocksdb
