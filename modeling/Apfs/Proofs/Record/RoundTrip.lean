import Apfs.Proofs.Record

/-!
# Records round-trip

A row of fields has each of them at its own width, one behind the other. The four records are read
from such rows: what is written in front of any bytes is read back, what is read of a block is
written as the first bytes of that block, and a block that is too short is refused with its size.
So a record tells exactly the bytes that it takes up.
-/

namespace Apfs.Record

/-- The bytes of some fields, each of which is a number that is written at a width. -/
def row (fields : List (Nat × Nat)) : List UInt8 :=
  fields.flatMap fun (width, n) => LittleEndian.bytes width n

/-- Reading a record at the front of a block and writing its fields in a row undo each other. -/
structure InvertsRow (α : Type) [Record α] (name : String) (size : Nat)
    (fields : α → List (Nat × Nat)) : Prop where
  read_row (r : α) (suffix : List UInt8) {b : Block}
    (written : b.toList = row (fields r) ++ suffix) : read α b = .ok r
  row_read {b : Block} (room : size ≤ b.bytes.size) :
    ∃ r, read α b = .ok r ∧ row (fields r) = b.toList.take size
  read_eq_iff {b b' : Block} (room : size ≤ b.bytes.size) (room' : size ≤ b'.bytes.size) :
    read α b = read α b' ↔ b.toList.take size = b'.toList.take size
  refuses {b : Block} (short : b.bytes.size < size) :
    read α b = .error (.truncated name (.ofNat size) b.size)

section

variable {α : Type} [Record α]

theorem read_eq_ok {b : Block} (room : size α ≤ b.bytes.size) :
    ∃ h, read α b = .ok (ofBlock b 0 h) :=
  ⟨by omega, readAt_eq_ok (by omega)⟩

variable [LawfulRecord α]

theorem toBytes_ofBlock_zero {b : Block} (h : 0 + size α ≤ b.bytes.size) :
    toBytes (ofBlock b 0 h : α) = b.toList.take (size α) := by
  rw [LawfulRecord.toBytes_ofBlock, Block.slice, List.drop_zero]

/-- A lawful record is read from the row in which it is written. -/
theorem invertsRow {fields : α → List (Nat × Nat)} (written : ∀ r, toBytes r = row (fields r)) :
    InvertsRow α (name α) (size α) fields where
  read_row r suffix b front := by
    have room : size α ≤ b.bytes.size := by
      rw [← b.length_toList, front, ← written, List.length_append, LawfulRecord.length_toBytes]
      omega
    obtain ⟨h, found⟩ := read_eq_ok (α := α) room
    rw [found, ofBlock_eq h]
    rw [Block.slice, List.drop_zero, front, ← written]
    exact List.take_left' (LawfulRecord.length_toBytes r)
  row_read {b} room := by
    obtain ⟨h, found⟩ := read_eq_ok (α := α) room
    exact ⟨_, found, by rw [← written, toBytes_ofBlock_zero]⟩
  read_eq_iff {b b'} room room' := by
    obtain ⟨h, found⟩ := read_eq_ok (α := α) room
    obtain ⟨h', found'⟩ := read_eq_ok (α := α) room'
    rw [found, found', ← toBytes_ofBlock_zero h, ← toBytes_ofBlock_zero h']
    constructor
    · intro same
      rw [Except.ok.inj same]
    · intro same
      rw [LawfulRecord.eq_of_toBytes_eq same]
  refuses {b} short := readAt_eq_error (by omega)

end

/-- The four records of a node are read from the rows of their fields, in the order in which they
are declared. -/
theorem read_inverts_row :
    InvertsRow ObjectHeader "object header" 32 (fun r => [(8, r.checksum.toNat),
      (8, r.identifier.toNat), (8, r.version.toNat), (4, r.type.toNat), (4, r.subtype.toNat)]) ∧
    InvertsRow NodeHeader "B-tree header" 18 (fun r => [(2, r.flags.toNat),
      (2, r.entriesOffset.toNat), (2, r.entriesSize.toNat), (2, r.unusedOffset.toNat),
      (2, r.unusedSize.toNat), (2, r.keyFreeListOffset.toNat), (2, r.keyFreeListSize.toNat),
      (2, r.valueFreeListOffset.toNat), (2, r.valueFreeListSize.toNat)]) ∧
    InvertsRow NodeFooter "B-tree footer" 40 (fun r => [(4, r.flags.toNat), (4, r.nodeSize.toNat),
      (4, r.keySize.toNat), (4, r.valueSize.toNat), (4, r.maximumKeySize.toNat),
      (4, r.maximumValueSize.toNat), (8, r.numberOfEntries.toNat), (8, r.numberOfNodes.toNat)]) ∧
    InvertsRow EntrySlot "entry descriptor" 8 (fun r => [(2, r.keyOffset.toNat),
      (2, r.keySize.toNat), (2, r.valueOffset.toNat), (2, r.valueSize.toNat)]) := by
  refine ⟨invertsRow fun r => ?_, invertsRow fun r => ?_, invertsRow fun r => ?_,
    invertsRow fun r => ?_⟩
  all_goals simp [toBytes, row]

end Apfs.Record
