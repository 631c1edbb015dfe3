/-
The output buffer: a byte string of fixed length, filled from the front.

* `Buffer`: the bytes and how many of them are output;
* `Buffer.contents`: the output;
* `Buffer.put`, `Buffer.resolve`: appending one byte, and the byte that a
  source stands for;
* `Buffer.enlarge`: more room after the output;
* `contents_put`, `contents_enlarge`, `resolve_back`: these operations in terms
  of the output alone.
-/
import Deflate.Machine

namespace Deflate

/-- A byte string whose first `filled` bytes are output. -/
structure Buffer where
  /-- The output and the room after it. -/
  bytes : ByteArray
  /-- How many bytes are output. -/
  filled : Nat
  /-- The output lies in the buffer. -/
  filled_le : filled ≤ bytes.size

namespace Buffer

/-- That many zero bytes. -/
def zeros (size : Nat) : ByteArray :=
  ⟨Array.replicate size 0⟩

/-- An empty buffer with room for `size` bytes. -/
def ofSize (size : Nat) : Buffer where
  bytes := zeros size
  filled := 0
  filled_le := Nat.zero_le _

/-- The output. -/
def contents (b : Buffer) : ByteArray :=
  b.bytes.extract 0 b.filled

/-- There is room for one more byte. -/
abbrev HasRoom (b : Buffer) : Prop :=
  b.filled < b.bytes.size

/-- Appends one byte to the output. -/
def put (b : Buffer) (byte : UInt8) (room : b.HasRoom) : Buffer where
  bytes := b.bytes.set b.filled byte room
  filled := b.filled + 1
  filled_le := by
    have h : b.filled < b.bytes.size := room
    have hs : (b.bytes.set b.filled byte room).size = b.bytes.size := Array.size_set ..
    omega

/-- The byte that a source stands for. -/
def resolve (b : Buffer) : Source → UInt8
  | .literal byte => byte
  | .back distance => if h : b.filled - distance < b.bytes.size then b.bytes[b.filled - distance] else 0

/-- The same output in `size` bytes of space, if that is more. -/
def enlarge (b : Buffer) (size : Nat) : Buffer where
  bytes := b.bytes ++ zeros (size - b.bytes.size)
  filled := b.filled
  filled_le := by
    have h := b.filled_le
    rw [ByteArray.size_append]
    omega

theorem size_zeros (size : Nat) : (zeros size).size = size := by
  simp [zeros, ByteArray.size]

/-- A buffer gets the size asked for, if this is larger. -/
theorem size_enlarge {b : Buffer} {size : Nat} (h : b.bytes.size < size) :
    (b.enlarge size).bytes.size = size := by
  simp only [enlarge, ByteArray.size_append, size_zeros]
  omega

theorem data_put (b : Buffer) (byte : UInt8) (room : b.HasRoom) :
    (b.put byte room).bytes.data =
      b.bytes.data.set b.filled byte (by rw [ByteArray.size_data]; exact room) := rfl

/-- A byte is put in place of another one. -/
theorem size_put (b : Buffer) (byte : UInt8) (room : b.HasRoom) :
    (b.put byte room).bytes.size = b.bytes.size := by
  rw [← ByteArray.size_data, ← ByteArray.size_data, data_put, Array.size_set]

/-- A larger buffer has room for at least one byte. -/
theorem hasRoom_enlarge {b : Buffer} {size : Nat} (h : b.bytes.size < size) :
    (b.enlarge size).HasRoom := by
  have hf := b.filled_le
  have hs := size_enlarge h
  show b.filled < (b.enlarge size).bytes.size
  omega

/-! ### What the operations do to the output -/

theorem size_contents (b : Buffer) : b.contents.size = b.filled := by
  have h := b.filled_le
  simp only [contents, ByteArray.size_extract]
  omega

theorem contents_ofSize (size : Nat) : (ofSize size).contents = .empty := by
  simp [contents, ofSize]

theorem data_contents (b : Buffer) : b.contents.data = b.bytes.data.extract 0 b.filled :=
  ByteArray.data_extract

/-- One byte is appended, and the output before it is not altered. -/
theorem contents_put (b : Buffer) (byte : UInt8) (room : b.HasRoom) :
    (b.put byte room).contents = b.contents.push byte := by
  have h : b.filled < b.bytes.data.size := by rw [ByteArray.size_data]; exact room
  apply ByteArray.ext
  rw [data_contents, data_put, ByteArray.data_push, data_contents]
  show (b.bytes.data.set b.filled byte h).extract 0 (b.filled + 1) = _
  rw [Array.extract_succ_right (Nat.succ_pos _) (by rw [Array.size_set]; exact h),
    Array.getElem_set_self, Array.extract_set, dif_neg (Nat.not_lt_zero _),
    dif_neg (by omega)]

/-- The room added is no output. -/
theorem contents_enlarge (b : Buffer) (size : Nat) : (b.enlarge size).contents = b.contents := by
  have h : b.filled - b.bytes.data.size = 0 := by
    rw [ByteArray.size_data]
    exact Nat.sub_eq_zero_of_le b.filled_le
  apply ByteArray.ext
  rw [data_contents, data_contents]
  show (b.bytes ++ zeros (size - b.bytes.size)).data.extract 0 b.filled = _
  rw [ByteArray.data_append, Array.extract_append, h, Array.extract_zero, Array.append_empty]

/-- A source that does not reach before the output finds a byte of it. -/
theorem resolve_back (b : Buffer) {distance : Nat}
    (h : b.filled - distance < b.contents.size) :
    b.resolve (.back distance) = b.contents[b.filled - distance] := by
  have hf := b.filled_le
  have hs := b.size_contents
  rw [resolve, dif_pos (by omega)]
  simp only [contents, ByteArray.getElem_eq_getElem_data, ByteArray.data_extract,
    Array.getElem_extract, Nat.zero_add]

end Buffer

end Deflate
