import RustRocksdb.Crocksdb.Heap

namespace RustRocksdb
namespace Crocksdb

/-!
# The block cipher of the CTR encrypted environment

`crocksdb_ctr_encrypted_env_create` builds a `CTRBlockCipher` from the caller's key bytes and
hands it to RocksDB's CTR encryption provider.  Its constructor asserts that the block size is
the length of the string it keeps, and the one call in the C API passes `ciphertext_len` and a
string of exactly `ciphertext_len` bytes, so `CTRBlockCipher` carries that equation as a
field.  `Encrypt` XORs the first `block_size_` bytes of the block it is given with the kept
string, byte by byte; `Decrypt` calls `Encrypt`.

The main result: on every block of at least `BlockSize()` bytes, `Encrypt` is defined and
keeps the bytes past the block, `Decrypt` gives the block back, and the key cancels between
the encryptions of any two blocks.
-/

/-- `CTRBlockCipher`, with its constructor's `assert(block_size == cipertext.size())`. -/
structure CTRBlockCipher where
  blockSize : Nat
  cipertext : Bytes
  block_size_eq : blockSize = cipertext.length

/-- The block cipher `crocksdb_ctr_encrypted_env_create` builds from `ciphertext_len` bytes. -/
def crocksdbCtrEncryptedEnvCreate (ciphertext : Bytes) : CTRBlockCipher :=
  ⟨ciphertext.length, ciphertext, rfl⟩

/-- The loop of `Encrypt`: `data[i] = data[i] ^ ciper_ptr[i]` for each byte of the key, with
no defined behaviour when `data` is shorter. -/
def xorBlock : Bytes → Bytes → Option Bytes
  | data, [] => some data
  | [], _ :: _ => none
  | d :: data, k :: key => (xorBlock data key).map ((d ^^^ k) :: ·)

/-- `CTRBlockCipher::Encrypt`, whose loop runs for `i < block_size_`, the length of the key. -/
def CTRBlockCipher.encrypt (c : CTRBlockCipher) (data : Bytes) : Option Bytes :=
  xorBlock data c.cipertext

/-- `CTRBlockCipher::Decrypt`. -/
def CTRBlockCipher.decrypt (c : CTRBlockCipher) (data : Bytes) : Option Bytes :=
  c.encrypt data

theorem xor_xor_cancel (a b : UInt8) : a ^^^ b ^^^ b = a := by
  show UInt8.mk (a.toBitVec ^^^ b.toBitVec ^^^ b.toBitVec) = a
  rw [BitVec.xor_assoc, BitVec.xor_self, BitVec.xor_zero]

theorem xor_xor_xor_cancel (a b k : UInt8) : a ^^^ k ^^^ (b ^^^ k) = a ^^^ b := by
  show UInt8.mk (a.toBitVec ^^^ k.toBitVec ^^^ (b.toBitVec ^^^ k.toBitVec)) =
    UInt8.mk (a.toBitVec ^^^ b.toBitVec)
  rw [BitVec.xor_assoc, BitVec.xor_comm b.toBitVec, ← BitVec.xor_assoc k.toBitVec,
    BitVec.xor_self, BitVec.zero_xor]

/-- On a block at least as long as the key, the loop is defined and keeps the bytes past the
key's length. -/
theorem xorBlock_of_le (data key : Bytes) (room : key.length ≤ data.length) :
    ∃ out, xorBlock data key = some out ∧ out.drop key.length = data.drop key.length := by
  induction key generalizing data with
  | nil => exact ⟨data, by cases data <;> rfl, rfl⟩
  | cons k key ih =>
      cases data with
      | nil => simp at room
      | cons d data =>
          obtain ⟨out, loop, rest⟩ := ih data (by simpa using room)
          exact ⟨(d ^^^ k) :: out, by simp [xorBlock, loop], by simpa⟩

/-- The loop is its own inverse. -/
theorem xorBlock_xorBlock (data key out : Bytes) (loop : xorBlock data key = some out) :
    xorBlock out key = some data := by
  induction key generalizing data out with
  | nil => simpa [xorBlock] using loop.symm
  | cons k key ih =>
      cases data with
      | nil => cases loop
      | cons d data =>
          obtain ⟨rest, inner, rfl⟩ := Option.map_eq_some'.mp loop
          simp [xorBlock, ih data rest inner, xor_xor_cancel]

/-- Over the key's length, the bytes of two outputs of the loop XOR to those of its inputs. -/
theorem xorBlock_cancel (data other key out otherOut : Bytes)
    (loop : xorBlock data key = some out) (otherLoop : xorBlock other key = some otherOut) :
    (List.zipWith (· ^^^ ·) out otherOut).take key.length =
      (List.zipWith (· ^^^ ·) data other).take key.length := by
  induction key generalizing data other out otherOut with
  | nil => rfl
  | cons k key ih =>
      cases data with
      | nil => cases loop
      | cons d data =>
          cases other with
          | nil => cases otherLoop
          | cons o other =>
              obtain ⟨rest, inner, rfl⟩ := Option.map_eq_some'.mp loop
              obtain ⟨otherRest, otherInner, rfl⟩ := Option.map_eq_some'.mp otherLoop
              simp [ih data other rest otherRest inner otherInner, xor_xor_xor_cancel]

/-- **`Decrypt` undoes `Encrypt`, and the key cancels.**  On every block of at least
`BlockSize()` bytes, `Encrypt` is defined and keeps the bytes past the first `BlockSize()`,
and `Decrypt` of what it gives is the block.  For two such blocks, the first `BlockSize()`
bytes of their encryptions XOR to those of the blocks themselves, whatever the key. -/
theorem decrypt_encrypt_round_trip (c : CTRBlockCipher) (data other : Bytes)
    (room : c.blockSize ≤ data.length) (otherRoom : c.blockSize ≤ other.length) :
    ∃ encrypted otherEncrypted, c.encrypt data = some encrypted ∧
      c.encrypt other = some otherEncrypted ∧
      encrypted.drop c.blockSize = data.drop c.blockSize ∧
      c.decrypt encrypted = some data ∧
      (List.zipWith (· ^^^ ·) encrypted otherEncrypted).take c.blockSize =
        (List.zipWith (· ^^^ ·) data other).take c.blockSize := by
  rw [c.block_size_eq] at room otherRoom ⊢
  obtain ⟨encrypted, loop, rest⟩ := xorBlock_of_le data c.cipertext room
  obtain ⟨otherEncrypted, otherLoop, -⟩ := xorBlock_of_le other c.cipertext otherRoom
  exact ⟨encrypted, otherEncrypted, loop, otherLoop, rest, xorBlock_xorBlock _ _ _ loop,
    xorBlock_cancel _ _ _ _ _ loop otherLoop⟩

/-- A two-byte key on a three-byte block and a two-byte one. -/
theorem decrypt_encrypt_round_trip_short_key :
    (crocksdbCtrEncryptedEnvCreate [0x5a, 0xff]).blockSize ≤ [1, 2, 3].length ∧
      (crocksdbCtrEncryptedEnvCreate [0x5a, 0xff]).blockSize ≤ [7, 9].length ∧
      ∃ encrypted otherEncrypted,
        (crocksdbCtrEncryptedEnvCreate [0x5a, 0xff]).encrypt [1, 2, 3] = some encrypted ∧
        (crocksdbCtrEncryptedEnvCreate [0x5a, 0xff]).encrypt [7, 9] = some otherEncrypted ∧
        encrypted.drop (crocksdbCtrEncryptedEnvCreate [0x5a, 0xff]).blockSize =
          [1, 2, 3].drop (crocksdbCtrEncryptedEnvCreate [0x5a, 0xff]).blockSize ∧
        (crocksdbCtrEncryptedEnvCreate [0x5a, 0xff]).decrypt encrypted = some [1, 2, 3] ∧
        (List.zipWith (· ^^^ ·) encrypted otherEncrypted).take
            (crocksdbCtrEncryptedEnvCreate [0x5a, 0xff]).blockSize =
          (List.zipWith (· ^^^ ·) [1, 2, 3] [7, 9]).take
            (crocksdbCtrEncryptedEnvCreate [0x5a, 0xff]).blockSize :=
  ⟨by decide, by decide, decrypt_encrypt_round_trip _ _ _ (by decide) (by decide)⟩

end Crocksdb
end RustRocksdb
