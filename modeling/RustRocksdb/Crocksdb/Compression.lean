import Mathlib.Data.List.Basic

namespace RustRocksdb
namespace Crocksdb

/-!
# Compression per level

`crocksdb_options_set_compression_per_level` resizes `compression_per_level` to the number of
levels it is given and stores each `uint32_t` of the caller's array through
`static_cast<CompressionType>`; `crocksdb_options_get_compression_per_level` copies the vector
back out, one `uint32_t` per level, into the caller's array.  `CompressionType` is an
enumeration over `unsigned char`, so a value goes in reduced modulo 256, and so does the `int`
given to `crocksdb_options_set_compression`.

`crocksdb_options_set_min_level_to_compress` rebuilds the vector from `num_levels`: for
`level >= 0` it resizes it to `num_levels`, writes `kNoCompression` below `level` and the
options' `compression` from `level` on, whatever the vector held before.  Its
`assert(level <= num_levels)` is not compiled into release builds, where a larger `level`
writes past the end of the vector; a negative `num_levels` becomes a huge `size_t` in
`resize`, which throws.  The model has no result in either case.

Each `v[i] = x` is `assign`, with no result past the end, where `operator[]` has no defined
behaviour; the loops of the three functions are `assignEach`.
-/

/-- `rocksdb::CompressionType`, an enumeration over `unsigned char`. -/
abbrev CompressionType := UInt8

/-- `rocksdb::kNoCompression`, also the value `resize` gives new elements. -/
def kNoCompression : CompressionType := 0

/-- The fields of `rocksdb::Options` these functions read and write. -/
structure Options where
  numLevels : Int
  compression : CompressionType
  compressionPerLevel : List CompressionType
  deriving DecidableEq, Repr

/-- `std::vector::resize(count)`: the first `count` elements, padded with `kNoCompression`. -/
def resize (v : List CompressionType) (count : Nat) : List CompressionType :=
  v.take count ++ List.replicate (count - v.length) kNoCompression

/-- `v[i] = x`, which has no defined behaviour past the end. -/
def assign {α : Type} (v : List α) (i : Nat) (x : α) : Option (List α) :=
  if i < v.length then some (v.set i x) else none

/-- `for (j = i; j < i + count; j++) v[j] = value(j)`, where reading `value(j)` may itself
have no defined behaviour. -/
def assignEach {α : Type} (value : Nat → Option α) : List α → Nat → Nat → Option (List α)
  | v, _, 0 => some v
  | v, i, count + 1 => do
      let x ← value i
      let v ← assign v i x
      assignEach value v (i + 1) count

/-- `crocksdb_options_set_compression`: `static_cast<CompressionType>` of an `int`. -/
def crocksdbOptionsSetCompression (opt : Options) (t : Int) : Options :=
  { opt with compression := UInt8.ofNat (t % 256).toNat }

/-- `crocksdb_options_get_compression`. -/
def crocksdbOptionsGetCompression (opt : Options) : UInt32 :=
  opt.compression.toUInt32

/-- `crocksdb_options_set_compression_per_level`, reading `level_values[i]` for
`i < num_levels` from the caller's array `levelValues`. -/
def crocksdbOptionsSetCompressionPerLevel (opt : Options) (levelValues : List UInt32)
    (numLevels : Nat) : Option Options :=
  (assignEach (fun i => (levelValues.get? i).map UInt32.toUInt8)
      (resize opt.compressionPerLevel numLevels) 0 numLevels).map
    fun v => { opt with compressionPerLevel := v }

/-- `crocksdb_options_get_compression_level_number`. -/
def crocksdbOptionsGetCompressionLevelNumber (opt : Options) : Nat :=
  opt.compressionPerLevel.length

/-- `crocksdb_options_get_compression_per_level`, writing into the caller's array
`levelValues`. -/
def crocksdbOptionsGetCompressionPerLevel (opt : Options) (levelValues : List UInt32) :
    Option (List UInt32) :=
  assignEach (fun i => (opt.compressionPerLevel.get? i).map UInt8.toUInt32) levelValues 0
    opt.compressionPerLevel.length

/-- `crocksdb_options_set_min_level_to_compress`. -/
def crocksdbOptionsSetMinLevelToCompress (opt : Options) (level : Int) : Option Options :=
  if 0 ≤ level then
    -- `resize` takes a `size_t`, and throws for the one a negative `num_levels` becomes
    if opt.numLevels < 0 then none
    else do
      let v := resize opt.compressionPerLevel opt.numLevels.toNat
      let v ← assignEach (fun _ => some kNoCompression) v 0 level.toNat
      let v ← assignEach (fun _ => some opt.compression) v level.toNat
        (opt.numLevels - level).toNat
      pure { opt with compressionPerLevel := v }
  else some opt

section Loops

variable {α : Type}

@[simp] theorem length_resize (v : List CompressionType) (count : Nat) :
    (resize v count).length = count := by
  simp only [resize, List.length_append, List.length_take, List.length_replicate]
  omega

/-- A loop whose reads are all defined and whose writes all fall inside the vector replaces
the elements it runs over by the values it reads. -/
theorem assignEach_of_values (value : Nat → Option α) (v : List α) (i : Nat) (ys : List α)
    (values : ∀ k (small : k < ys.length), value (i + k) = some (ys.get ⟨k, small⟩))
    (fits : i + ys.length ≤ v.length) :
    assignEach value v i ys.length = some (v.take i ++ ys ++ v.drop (i + ys.length)) := by
  induction ys generalizing v i with
  | nil => simp [assignEach]
  | cons y ys ih =>
      have inside : i < v.length := by simp at fits; omega
      have first : value i = some y := values 0 (Nat.succ_pos _)
      have later := ih (v.set i y) (i + 1) (fun k small => by
          rw [Nat.add_right_comm, Nat.add_assoc]
          exact values (k + 1) (by simp; omega))
        (by simp at fits ⊢; omega)
      have front : (v.set i y).take (i + 1) = v.take i ++ [y] := by
        rw [List.set_eq_take_append_cons_drop, if_pos inside,
          List.take_append_eq_append_take]
        simp [Nat.min_eq_left inside.le]
      show (value i).bind (fun x => (assign v i x).bind fun v => assignEach value v (i + 1) _) = _
      rw [first, Option.some_bind, assign, if_pos inside, Option.some_bind, later, front,
        List.drop_set_of_lt _ _ (by omega : i < i + 1 + ys.length)]
      simp [Nat.add_right_comm, Nat.add_assoc, Nat.add_comm 1]

/-- A loop with a read that has no defined behaviour, or a write past the end, has no
result. -/
theorem assignEach_eq_none (value : Nat → Option α) (v : List α) (i count k : Nat)
    (inside : k < count) (bad : value (i + k) = none ∨ v.length ≤ i + k) :
    assignEach value v i count = none := by
  induction count generalizing v i k with
  | zero => omega
  | succ count ih =>
      simp only [assignEach]
      cases read : value i with
      | none => rfl
      | some x =>
          by_cases fits : i < v.length
          · cases k with
            | zero => simp [read] at bad; omega
            | succ k =>
                simp only [Option.some_bind, assign, fits, if_true]
                exact ih _ _ k (by omega) (by simpa [Nat.add_right_comm, Nat.add_assoc] using bad)
          · simp [assign, fits]

/-- A loop storing one value over `count` elements that all lie inside the vector. -/
theorem assignEach_const (x : α) (v : List α) (i count : Nat) (fits : i + count ≤ v.length) :
    assignEach (fun _ => some x) v i count =
      some (v.take i ++ List.replicate count x ++ v.drop (i + count)) := by
  simpa using assignEach_of_values (fun _ => some x) v i (List.replicate count x)
    (fun k small => by simp) (by simpa using fits)

/-- A loop that copies the first `count` elements of an array through `f` into a vector
with room for them. -/
theorem assignEach_copy {β : Type} (f : β → α) (xs : List β) (v : List α) (count : Nat)
    (readable : count ≤ xs.length) (fits : count ≤ v.length) :
    assignEach (fun i => (xs.get? i).map f) v 0 count =
      some ((xs.take count).map f ++ v.drop count) := by
  have length : ((xs.take count).map f).length = count := by simp; omega
  have copied := assignEach_of_values (fun i => (xs.get? i).map f) v 0 ((xs.take count).map f)
    (fun k small => by simp at small ⊢; simp [List.getElem?_eq_getElem (by omega : k < xs.length)])
    (by omega)
  rw [length, Nat.zero_add, List.take_zero, List.nil_append] at copied
  exact copied

end Loops

/-- **`crocksdb_options_set_min_level_to_compress` in one equation.**  A negative `level`
changes nothing.  Otherwise the call has a defined result exactly when
`level <= num_levels`, and then the vector holds `num_levels` entries whatever it held
before: `kNoCompression` for the levels below `level` and the options' `compression` for the
others. -/
theorem min_level_to_compress_rebuilds_levels (opt : Options) (level : Int) :
    crocksdbOptionsSetMinLevelToCompress opt level =
      if level < 0 then some opt
      else if level ≤ opt.numLevels then
        some { opt with
          compressionPerLevel := List.replicate level.toNat kNoCompression ++
            List.replicate (opt.numLevels - level).toNat opt.compression }
      else none := by
  unfold crocksdbOptionsSetMinLevelToCompress
  by_cases negative : level < 0
  · rw [if_neg (by omega), if_pos negative]
  rw [if_pos (by omega), if_neg negative]
  by_cases below : opt.numLevels < 0
  · rw [if_pos below, if_neg (by omega)]
  rw [if_neg below]
  dsimp only
  have sized := length_resize opt.compressionPerLevel opt.numLevels.toNat
  generalize resize opt.compressionPerLevel opt.numLevels.toNat = v at sized ⊢
  by_cases within : level ≤ opt.numLevels
  · have first := assignEach_const kNoCompression v 0 level.toNat (by omega)
    simp only [Nat.zero_add, List.take_zero, List.nil_append] at first
    have second := assignEach_const opt.compression
      (List.replicate level.toNat kNoCompression ++ v.drop level.toNat) level.toNat
      (opt.numLevels - level).toNat (by simp; omega)
    rw [if_pos within]
    simp only [first, second, Option.bind_eq_bind, Option.some_bind]
    simp [List.take_left', List.drop_eq_nil_of_le, sized]
    omega
  · rw [if_neg within, assignEach_eq_none _ v 0 level.toNat opt.numLevels.toNat (by omega)
      (.inr (by omega))]
    rfl

/-- `static_cast<CompressionType>` of a `uint32_t`, then `static_cast<uint32_t>`: the value
modulo 256. -/
theorem toUInt32_toUInt8 (v : UInt32) : v.toUInt8.toUInt32 = v % 256 := by
  apply UInt32.toNat.inj
  rw [UInt32.toNat_mod]
  simp [UInt8.toUInt32, UInt32.toUInt8, Nat.toUInt8, Nat.toUInt32, UInt32.toNat, UInt8.toNat,
    UInt32.ofNat, UInt8.ofNat]

/-- **Compression settings read back modulo 256.**  The compression given to
`crocksdb_options_set_compression` reads back from `crocksdb_options_get_compression` reduced
modulo 256.  After `crocksdb_options_set_compression_per_level` with `num_levels` values, read
from an array that holds them, the vector has `num_levels` entries whatever it held before,
and `crocksdb_options_get_compression_per_level` writes each value back into the first
`num_levels` slots of an array with room for them, reduced modulo 256, and leaves the rest
of that array as it was.  A value comes back unchanged exactly when it is below 256. -/
theorem compression_settings_round_trip (opt : Options) (t : Int) (levelValues : List UInt32)
    (numLevels : Nat) (readable : numLevels ≤ levelValues.length) (out : List UInt32)
    (room : numLevels ≤ out.length) :
    (crocksdbOptionsGetCompression (crocksdbOptionsSetCompression opt t)).toNat =
        (t % 256).toNat ∧
      ∃ opt', crocksdbOptionsSetCompressionPerLevel opt levelValues numLevels = some opt' ∧
        crocksdbOptionsGetCompressionLevelNumber opt' = numLevels ∧
        crocksdbOptionsGetCompressionPerLevel opt' out =
          some ((levelValues.take numLevels).map (· % 256) ++ out.drop numLevels) := by
  have stored := assignEach_copy UInt32.toUInt8 levelValues
    (resize opt.compressionPerLevel numLevels) numLevels readable (by simp)
  rw [List.drop_eq_nil_of_le (by simp), List.append_nil] at stored
  have levels : ((levelValues.take numLevels).map UInt32.toUInt8).length = numLevels := by
    simp; omega
  refine ⟨?_, { opt with compressionPerLevel := (levelValues.take numLevels).map UInt32.toUInt8 },
    by rw [crocksdbOptionsSetCompressionPerLevel, stored]; rfl, levels, ?_⟩
  · simp [crocksdbOptionsGetCompression, crocksdbOptionsSetCompression, UInt8.toUInt32,
      Nat.toUInt32, UInt32.toNat, UInt8.toNat, UInt32.ofNat, UInt8.ofNat]
    omega
  · rw [crocksdbOptionsGetCompressionPerLevel]
    dsimp only
    rw [levels, assignEach_copy _ _ _ _ (by rw [levels]) room, List.take_of_length_le
      (by rw [levels])]
    simp [Function.comp_def, toUInt32_toUInt8]

/-- Four levels with values from an earlier call, two of three values copied, one of which
does not fit an `unsigned char`, and a negative compression. -/
theorem compression_settings_round_trip_wide_value :
    2 ≤ [1, 300, 7].length ∧ 2 ≤ [0, 0, 0].length ∧
      (crocksdbOptionsGetCompression
          (crocksdbOptionsSetCompression ⟨4, 1, [1, 1, 1, 1]⟩ (-1))).toNat =
        ((-1 : Int) % 256).toNat ∧
      ∃ opt', crocksdbOptionsSetCompressionPerLevel ⟨4, 1, [1, 1, 1, 1]⟩ [1, 300, 7] 2 = some opt' ∧
        crocksdbOptionsGetCompressionLevelNumber opt' = 2 ∧
        crocksdbOptionsGetCompressionPerLevel opt' [0, 0, 0] =
          some (([1, 300, 7].take 2).map (· % 256) ++ [0, 0, 0].drop 2) :=
  ⟨by decide, by decide, compression_settings_round_trip _ _ _ _ (by decide) _ (by decide)⟩

end Crocksdb
end RustRocksdb
