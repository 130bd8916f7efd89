import Apfs.Node.Contents
import Apfs.Proofs.Node.Checks
import Apfs.Proofs.ObjectChecksum

/-!
# Where the contents of a node stand

The block of a node is its parts one after the other. Each part is the slice of the block that its
place tells: the records at the ends, the slots by their index, and the key and the value of an
entry by the sizes of those before it. Where an entry stands between others is said by splitting
the list of entries around it.
-/

namespace Apfs.Node

/-- The number of bytes of all keys. -/
def keysSize (entries : List (List UInt8 × List UInt8)) : Nat := (entries.map (·.1.length)).sum

/-- The number of bytes of all values. -/
def valuesSize (entries : List (List UInt8 × List UInt8)) : Nat := (entries.map (·.2.length)).sum

section Sizes

variable {key value : List UInt8} {before after : List (List UInt8 × List UInt8)}

theorem keysSize_append_cons : keysSize (before ++ (key, value) :: after)
    = keysSize before + (key.length + keysSize after) := by
  simp [keysSize]

theorem valuesSize_append_cons : valuesSize (before ++ (key, value) :: after)
    = valuesSize before + (value.length + valuesSize after) := by
  simp [valuesSize]

theorem valuesSize_reverse (entries : List (List UInt8 × List UInt8)) :
    valuesSize entries.reverse = valuesSize entries := by
  rw [valuesSize, List.map_reverse, List.sum_reverse, valuesSize]

theorem length_flatMap_key (entries : List (List UInt8 × List UInt8)) :
    (entries.flatMap (·.1)).length = keysSize entries := List.length_flatMap

theorem length_flatMap_value (entries : List (List UInt8 × List UInt8)) :
    (entries.flatMap (·.2)).length = valuesSize entries := List.length_flatMap

end Sizes

namespace Contents

variable {c : Contents} {key value : List UInt8} {before after : List (List UInt8 × List UInt8)}

@[simp] theorem length_slots (k v : Nat) (entries : List (List UInt8 × List UInt8)) :
    (slots k v entries).length = entries.length := by
  induction entries generalizing k v with
  | nil => rfl
  | cons e entries ih => simp [slots, ih]

/-- The slot of an entry counts on from the sizes of the entries before it. -/
theorem slots_append_cons (k v : Nat) :
    slots k v (before ++ (key, value) :: after) = slots k v before ++
      slot (k + keysSize before) (v + valuesSize before) key value ::
      slots (k + keysSize before + key.length) (v + valuesSize before + value.length) after := by
  induction before generalizing k v with
  | nil => rfl
  | cons e before ih =>
    rw [List.cons_append, slots, ih]
    simp [slots, keysSize, valuesSize, Nat.add_assoc]

theorem length_slotBytes (slots : List EntrySlot) :
    (slots.flatMap Record.toBytes).length = 8 * slots.length := by
  induction slots with
  | nil => rfl
  | cons slot slots ih =>
    rw [List.flatMap_cons, List.length_append, ih, LawfulRecord.length_toBytes, size_entrySlot,
      List.length_cons]
    omega

theorem length_keys (c : Contents) : c.keys.length = keysSize c.entries := length_flatMap_key _

theorem length_values (c : Contents) : c.values.length = valuesSize c.entries := by
  rw [values, length_flatMap_value, valuesSize_reverse]

/-! ## The sealed node -/

/-- The object header of the sealed node. -/
def sealedObject (c : Contents) : ObjectHeader :=
  { c.object with checksum := fletcher64 (c.bytes.drop 8) }

/-- The bytes of the sealed node. -/
def sealedBytes (c : Contents) : List UInt8 :=
  Record.toBytes c.sealedObject ++ Record.toBytes c.header
    ++ (slots 0 0 c.entries).flatMap Record.toBytes
    ++ c.keys ++ c.free ++ c.values ++ Record.toBytes c.footer

theorem length_sealedBytes (c : Contents) :
    c.sealedBytes.length = 90 + 8 * c.entries.length + keysSize c.entries + c.free.length
      + valuesSize c.entries := by
  simp only [sealedBytes, List.length_append, LawfulRecord.length_toBytes, length_slotBytes,
    length_slots, length_keys, length_values, size_objectHeader, size_nodeHeader, size_nodeFooter]
  omega

theorem length_bytes_eq (c : Contents) : c.bytes.length = c.sealedBytes.length := by
  simp only [bytes, sealedBytes, List.length_append, LawfulRecord.length_toBytes]

/-- Sealing a node changes nothing but the bytes of the checksum. -/
theorem sealedBytes_eq (c : Contents) :
    c.sealedBytes = LittleEndian.bytes 8 (fletcher64 (c.bytes.drop 8)).toNat ++ c.bytes.drop 8 := by
  have covered : c.bytes.drop 8 = (Record.toBytes c.object).drop 8 ++ (Record.toBytes c.header
      ++ ((slots 0 0 c.entries).flatMap Record.toBytes
      ++ (c.keys ++ (c.free ++ (c.values ++ Record.toBytes c.footer))))) := by
    simp only [bytes, List.append_assoc]
    refine List.drop_append_of_le_length ?_
    rw [LawfulRecord.length_toBytes, size_objectHeader]
    decide
  rw [sealedBytes, sealedObject, ObjectHeader.toBytes_with]
  simp only [List.append_assoc, List.append_cancel_left_eq]
  exact covered.symm

section Parts

variable {b : Block} (h : b.toList = c.sealedBytes)

include h

theorem size_eq : b.bytes.size
    = 90 + 8 * c.entries.length + keysSize c.entries + c.free.length + valuesSize c.entries := by
  rw [← Block.length_toList, h, length_sealedBytes]

theorem slice_object : b.slice 0 32 = Record.toBytes c.sealedObject := by
  have length := LawfulRecord.length_toBytes c.sealedObject
  refine Block.slice_eq ?_ List.length_nil length
  rw [List.nil_append, h]
  simp only [sealedBytes, List.append_assoc]
  exact List.prefix_append _ _

theorem slice_header : b.slice 32 18 = Record.toBytes c.header := by
  refine Block.slice_eq ?_ (LawfulRecord.length_toBytes c.sealedObject)
    (LawfulRecord.length_toBytes _)
  simp only [h, sealedBytes, List.append_assoc, List.prefix_append_right_inj]
  exact List.prefix_append _ _

theorem slice_footer : b.slice (b.bytes.size - 40) 40 = Record.toBytes c.footer := by
  have whole : c.sealedBytes <+: b.toList := h ▸ List.prefix_rfl
  refine Block.slice_eq whole ?_ (LawfulRecord.length_toBytes _)
  rw [size_eq h]
  simp only [List.length_append, LawfulRecord.length_toBytes, length_slotBytes, length_slots,
    length_keys, length_values, size_objectHeader, size_nodeHeader]
  omega

variable (split : c.entries = before ++ (key, value) :: after)

include split

/-- The slot of an entry stands behind those of the entries before it. -/
theorem slice_slot : b.slice (50 + 8 * before.length) 8
    = Record.toBytes (slot (keysSize before) (valuesSize before) key value) := by
  have start : (Record.toBytes c.sealedObject ++ Record.toBytes c.header
      ++ (slots 0 0 before).flatMap Record.toBytes).length = 50 + 8 * before.length := by
    simp only [List.length_append, LawfulRecord.length_toBytes, length_slotBytes, length_slots,
      size_objectHeader, size_nodeHeader]
  refine Block.slice_eq ?_ start (LawfulRecord.length_toBytes _)
  rw [h, sealedBytes, split, slots_append_cons, List.flatMap_append, List.flatMap_cons]
  simp only [List.append_assoc, List.prefix_append_right_inj, Nat.zero_add]
  exact List.prefix_append _ _

/-- The key of an entry stands behind the keys before it. -/
theorem slice_key : b.slice (50 + 8 * c.entries.length + keysSize before) key.length = key := by
  have start : (Record.toBytes c.sealedObject ++ Record.toBytes c.header
      ++ (slots 0 0 c.entries).flatMap Record.toBytes ++ before.flatMap (·.1)).length
      = 50 + 8 * c.entries.length + keysSize before := by
    simp only [List.length_append, LawfulRecord.length_toBytes, length_slotBytes, length_slots,
      size_objectHeader, size_nodeHeader, length_flatMap_key]
  have keys : c.keys = before.flatMap (·.1) ++ (key ++ after.flatMap (·.1)) := by
    rw [keys, split, List.flatMap_append, List.flatMap_cons]
  refine Block.slice_eq ?_ start rfl
  rw [h, sealedBytes, keys]
  simp only [List.append_assoc, List.prefix_append_right_inj]
  exact List.prefix_append _ _

/-- The value of an entry stands in front of the values before it. -/
theorem slice_value : b.slice (b.bytes.size - 40 - (valuesSize before + value.length))
    value.length = value := by
  have start : (Record.toBytes c.sealedObject ++ Record.toBytes c.header
      ++ (slots 0 0 c.entries).flatMap Record.toBytes ++ c.keys ++ c.free
      ++ after.reverse.flatMap (·.2)).length
      = b.bytes.size - 40 - (valuesSize before + value.length) := by
    have values : valuesSize c.entries
        = valuesSize before + (value.length + valuesSize after) := by
      rw [split, valuesSize_append_cons]
    simp only [size_eq h, values, List.length_append, LawfulRecord.length_toBytes,
      length_slotBytes, length_slots, size_objectHeader, size_nodeHeader, length_keys,
      length_flatMap_value, valuesSize_reverse]
    omega
  have values : c.values
      = after.reverse.flatMap (·.2) ++ (value ++ before.reverse.flatMap (·.2)) := by
    rw [values, split]
    simp
  refine Block.slice_eq ?_ start rfl
  rw [h, sealedBytes, values]
  simp only [List.append_assoc, List.prefix_append_right_inj]
  exact List.prefix_append _ _

end Parts

theorem exists_block?_eq (small : c.sealedBytes.length ≤ 65536) :
    ∃ b, c.block? = some b ∧ b.toList = c.sealedBytes := by
  rw [← length_bytes_eq] at small
  have word : c.bytes.length < UInt64.size := Nat.lt_of_le_of_lt small (by decide)
  obtain ⟨b, some, toList⟩ := Block.exists_ofBytes?_eq word
  refine ⟨b.sealed, ?_, ?_⟩
  · have fits : c.bytes.length ≤ BlockSize.maximum.toNat := small
    rw [block?, if_pos fits, some]
    rfl
  · rw [Block.toList_sealed, Block.coveredChecksum, toList, sealedBytes_eq, checksumSize]

end Contents

end Apfs.Node
