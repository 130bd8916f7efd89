import Apfs.Proofs.Check
import Apfs.Proofs.Number
import Apfs.Record.EntrySlot
import Apfs.Record.NodeFooter
import Apfs.Record.NodeHeader
import Apfs.Record.ObjectHeader

/-!
# Lawful records

A record is lawful if it is written in as many bytes as it claims to take up, if writing what was
read gives back the bytes that it was read from, and if no two records are written alike. The four
records of a node are lawful. A block then reads as a record exactly where the bytes of that
record stand.
-/

namespace Apfs

open LittleEndian

class LawfulRecord (α : Type) [Record α] : Prop where
  length_toBytes (r : α) : (Record.toBytes r).length = Record.size α
  toBytes_ofBlock {b : Block} {i : Nat} (h : i + Record.size α ≤ b.bytes.size) :
    Record.toBytes (Record.ofBlock b i h : α) = b.slice i (Record.size α)
  eq_of_toBytes_eq {r s : α} : Record.toBytes r = Record.toBytes s → r = s

attribute [simp] LawfulRecord.length_toBytes

@[simp] theorem size_objectHeader : Record.size ObjectHeader = 32 := rfl
@[simp] theorem size_nodeHeader : Record.size NodeHeader = 18 := rfl
@[simp] theorem size_nodeFooter : Record.size NodeFooter = 40 := rfl
@[simp] theorem size_entrySlot : Record.size EntrySlot = 8 := rfl

instance : LawfulRecord ObjectHeader where
  length_toBytes r := by simp [Record.toBytes]
  toBytes_ofBlock {b i} h := by
    rw [size_objectHeader] at h
    simp only [Record.toBytes, Record.ofBlock, Block.toNat_u32, Block.toNat_u64]
    repeat rw [Block.bytes_number (by omega)]
    simp only [← Block.slice_add, Record.size]
  eq_of_toBytes_eq {r s} h := by
    simp only [Record.toBytes, List.append_assoc, bytes_append_inj, bytes_toNat_inj32,
      bytes_toNat_inj64] at h
    cases r
    simp_all

instance : LawfulRecord NodeHeader where
  length_toBytes r := by simp [Record.toBytes]
  toBytes_ofBlock {b i} h := by
    rw [size_nodeHeader] at h
    simp only [Record.toBytes, Record.ofBlock, Block.toNat_u16]
    repeat rw [Block.bytes_number (by omega)]
    simp only [← Block.slice_add, Record.size]
  eq_of_toBytes_eq {r s} h := by
    simp only [Record.toBytes, List.append_assoc, bytes_append_inj, bytes_toNat_inj16] at h
    cases r
    simp_all

instance : LawfulRecord NodeFooter where
  length_toBytes r := by simp [Record.toBytes]
  toBytes_ofBlock {b i} h := by
    rw [size_nodeFooter] at h
    simp only [Record.toBytes, Record.ofBlock, Block.toNat_u32, Block.toNat_u64]
    repeat rw [Block.bytes_number (by omega)]
    simp only [← Block.slice_add, Record.size]
  eq_of_toBytes_eq {r s} h := by
    simp only [Record.toBytes, List.append_assoc, bytes_append_inj, bytes_toNat_inj32,
      bytes_toNat_inj64] at h
    cases r
    simp_all

instance : LawfulRecord EntrySlot where
  length_toBytes r := by simp [Record.toBytes]
  toBytes_ofBlock {b i} h := by
    rw [size_entrySlot] at h
    simp only [Record.toBytes, Record.ofBlock, Block.toNat_u16]
    repeat rw [Block.bytes_number (by omega)]
    simp only [← Block.slice_add, Record.size]
  eq_of_toBytes_eq {r s} h := by
    simp only [Record.toBytes, List.append_assoc, bytes_append_inj, bytes_toNat_inj16] at h
    cases r
    simp_all

/-- A block reads as a record where the bytes of the record stand. -/
theorem ofBlock_eq {α : Type} [Record α] [LawfulRecord α] {b : Block} {i : Nat} {r : α}
    (h : i + Record.size α ≤ b.bytes.size) (bytes : b.slice i (Record.size α) = Record.toBytes r) :
    Record.ofBlock b i h = r := by
  apply LawfulRecord.eq_of_toBytes_eq
  rw [LawfulRecord.toBytes_ofBlock, bytes]

namespace Follows

variable {α : Type} [Record α] {b : Block} {i : Nat}

theorem readAt :
    Follows (Record.readAt α b i)
      [⟨i + Record.size α ≤ b.bytes.size, .truncated (Record.name α) (.ofNat (Record.size α))
        (.ofNat (b.bytes.size - i))⟩]
      fun r => ∃ room, r = Record.ofBlock b i room := by
  unfold Record.readAt
  split
  case isTrue room => exact .passed (by simp [firstDefect?_cons, room]) ⟨room, rfl⟩
  case isFalse short => exact .failed (by simp [firstDefect?_cons, short])

/-- A record that the block is known to have room for is read without a check of its own. -/
theorem readAt_bind {β : Type} {next : α → Except Defect β} {checks : List Check} {P : β → Prop}
    (room : i + Record.size α ≤ b.bytes.size)
    (rest : Follows (next (Record.ofBlock b i room)) checks P) :
    Follows (Record.readAt α b i >>= next) checks P := by
  rw [Record.readAt_eq_ok room]
  exact rest

end Follows

end Apfs
