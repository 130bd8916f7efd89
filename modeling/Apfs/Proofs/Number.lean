import Apfs.Block
import Apfs.Proofs.LittleEndian

/-!
# Numbers in a block

`slice` is a stretch of a block as a list of bytes and `number` the number that it denotes. Both
are total: what lies behind the end of the block is left out. Wherever the block holds all the
bytes of a machine word, the word read there is that number.
-/

namespace Apfs.Block

/-- The bytes from offset `i` on, `width` of them unless the block ends before. -/
def slice (b : Block) (i width : Nat) : List UInt8 := (b.toList.drop i).take width

/-- The number that the bytes from offset `i` on denote. -/
def number (b : Block) (i width : Nat) : Nat := LittleEndian.value (b.slice i width)

variable {b : Block} {i : Nat}

theorem size_lt_pow (b : Block) : b.bytes.size < 2 ^ 64 := b.size_lt

@[simp] theorem length_slice (b : Block) (i width : Nat) :
    (b.slice i width).length = min width (b.bytes.size - i) := by
  simp [slice]

theorem length_slice_of_le {width : Nat} (h : i + width ≤ b.bytes.size) :
    (b.slice i width).length = width := by
  rw [length_slice]
  omega

@[simp] theorem slice_zero (b : Block) (i : Nat) : b.slice i 0 = [] := rfl

theorem slice_succ (h : i < b.bytes.size) (width : Nat) :
    b.slice i (width + 1) = b.bytes[i] :: b.slice (i + 1) width := by
  have first : b.toList.drop i = b.bytes[i] :: b.toList.drop (i + 1) :=
    List.drop_eq_getElem_cons (by simpa using h)
  rw [slice, first, List.take_succ_cons, slice]

theorem slice_add (b : Block) (i v w : Nat) :
    b.slice i (v + w) = b.slice i v ++ b.slice (i + v) w := by
  simp only [slice, List.take_add, List.drop_drop]

/-- What stands in a block behind other bytes is a slice of it. -/
theorem slice_eq {width : Nat} {before bytes : List UInt8} (h : before ++ bytes <+: b.toList)
    (start : before.length = i) (length : bytes.length = width) : b.slice i width = bytes := by
  subst start length
  obtain ⟨after, h⟩ := h
  rw [slice, ← h, List.append_assoc, List.drop_left, List.take_left]

theorem exists_ofBytes?_eq {bytes : List UInt8} (h : bytes.length < UInt64.size) :
    ∃ b, ofBytes? bytes.toByteArray = some b ∧ b.toList = bytes := by
  have size : bytes.toByteArray.size < UInt64.size := List.size_toByteArray ▸ h
  refine ⟨⟨bytes.toByteArray, size⟩, ?_, ?_⟩
  · rw [ofBytes?, dif_pos size]
  · simp [toList]

theorem ofBytes?_toList (b : Block) : ofBytes? b.toList.toByteArray = some b := by
  have bytes : b.toList.toByteArray = b.bytes := by
    apply ByteArray.ext
    simp [toList]
  rw [ofBytes?, bytes, dif_pos b.size_lt]

theorem number_lt (b : Block) (i width : Nat) : b.number i width < 256 ^ width := by
  have value := LittleEndian.value_lt (b.slice i width)
  have bound : (b.slice i width).length ≤ width := by
    rw [length_slice]
    exact Nat.min_le_left _ _
  exact Nat.lt_of_lt_of_le value (Nat.pow_le_pow_right (by decide) bound)

theorem bytes_number {width : Nat} (h : i + width ≤ b.bytes.size) :
    LittleEndian.bytes width (b.number i width) = b.slice i width := by
  have value := LittleEndian.bytes_value (b.slice i width)
  rwa [length_slice_of_le h] at value

@[simp] theorem toNat_u16 (h : i + 2 ≤ b.bytes.size) : (b.u16 i h).toNat = b.number i 2 := by
  have value : b.number i 2 = LittleEndian.value [b.bytes[i], b.bytes[i + 1]] := by
    rw [number, slice_succ (by omega), slice_succ (by omega), slice_zero]
  have bound : b.number i 2 < 2 ^ 16 := b.number_lt i 2
  rw [u16, ← value, UInt16.toNat_ofNat', Nat.mod_eq_of_lt bound]

@[simp] theorem toNat_u32 (h : i + 4 ≤ b.bytes.size) : (b.u32 i h).toNat = b.number i 4 := by
  have value : b.number i 4 = LittleEndian.value
      [b.bytes[i], b.bytes[i + 1], b.bytes[i + 2], b.bytes[i + 3]] := by
    rw [number, slice_succ (by omega), slice_succ (by omega), slice_succ (by omega),
      slice_succ (by omega), slice_zero]
  have bound : b.number i 4 < 2 ^ 32 := b.number_lt i 4
  rw [u32, ← value, UInt32.toNat_ofNat', Nat.mod_eq_of_lt bound]

@[simp] theorem toNat_u64 (h : i + 8 ≤ b.bytes.size) : (b.u64 i h).toNat = b.number i 8 := by
  have value : b.number i 8 = LittleEndian.value
      [b.bytes[i], b.bytes[i + 1], b.bytes[i + 2], b.bytes[i + 3],
        b.bytes[i + 4], b.bytes[i + 5], b.bytes[i + 6], b.bytes[i + 7]] := by
    rw [number, slice_succ (by omega), slice_succ (by omega), slice_succ (by omega),
      slice_succ (by omega), slice_succ (by omega), slice_succ (by omega),
      slice_succ (by omega), slice_succ (by omega), slice_zero]
  have bound : b.number i 8 < 2 ^ 64 := b.number_lt i 8
  rw [u64, ← value, UInt64.toNat_ofNat', Nat.mod_eq_of_lt bound]

theorem toNat_widened16 (h : i + 2 ≤ b.bytes.size) :
    (b.u16 i h).toUInt64.toNat = b.number i 2 := by
  rw [UInt16.toNat_toUInt64, toNat_u16]

theorem toNat_widened32 (h : i + 4 ≤ b.bytes.size) :
    (b.u32 i h).toUInt64.toNat = b.number i 4 := by
  rw [UInt32.toNat_toUInt64, toNat_u32]

end Apfs.Block
