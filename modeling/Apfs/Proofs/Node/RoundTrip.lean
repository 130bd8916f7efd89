import Apfs.LocatedNode
import Apfs.Proofs.Node.Acceptance
import Apfs.Proofs.Node.Building
import Apfs.Proofs.Node.Records

/-!
# Nodes are read as they were written

A block in which contents were written holds a node with exactly these contents: what the headers
and the footer say, and each entry in its place.
-/

namespace Apfs

namespace LocatedNode

theorem decode_eq_ok {location : Location} {b : Block} {verify : Bool} {n : Node}
    (verified : b.verifyChecksum = .ok ()) (decoded : Node.decode b = .ok n) :
    decode location b verify = .ok (ofNode location n) := by
  cases verify with
  | false =>
    rw [decode, decoded]
    rfl
  | true =>
    rw [decode, verified, decoded]
    rfl

end LocatedNode

namespace Node.Contents

variable {c : Contents} {b : Block}

section Numbers

variable (h : b.toList = c.sealedBytes) (small : b.bytes.size ≤ 65536)

include h

theorem object_room : 0 + Record.size ObjectHeader ≤ b.bytes.size := by
  have size := size_eq h
  rw [size_objectHeader]
  omega

theorem header_room : 32 + Record.size NodeHeader ≤ b.bytes.size := by
  have size := size_eq h
  rw [size_nodeHeader]
  omega

theorem footer_room : b.bytes.size - 40 + Record.size NodeFooter ≤ b.bytes.size := by
  have size := size_eq h
  rw [size_nodeFooter]
  omega

theorem object_eq (room : 0 + Record.size ObjectHeader ≤ b.bytes.size) :
    Record.ofBlock b 0 room = c.sealedObject := ofBlock_eq room (slice_object h)

theorem header_eq (room : 32 + Record.size NodeHeader ≤ b.bytes.size) :
    Record.ofBlock b 32 room = c.header := ofBlock_eq room (slice_header h)

theorem footer_eq (room : b.bytes.size - 40 + Record.size NodeFooter ≤ b.bytes.size) :
    Record.ofBlock b (b.bytes.size - 40) room = c.footer := ofBlock_eq room (slice_footer h)

theorem entriesOffset_eq : b.entriesOffset = 0 := by
  have room := header_room h
  rw [← toNat_entriesOffset room, header_eq h room]
  rfl

theorem entryCount_eq : b.entryCount = c.entries.length := by
  have size := size_eq h
  have small := b.size_lt_pow
  have room := footer_room h
  rw [← toNat_numberOfEntries (by omega) room, footer_eq h room]
  exact Nat.mod_eq_of_lt (by omega)

include small

theorem entriesSize_eq : b.entriesSize = 8 * c.entries.length := by
  have size := size_eq h
  have room := header_room h
  have table : c.tableSize = 8 * c.entries.length := rfl
  rw [← toNat_entriesSize room, header_eq h room, ← table]
  exact Nat.mod_eq_of_lt (by omega)

theorem unusedOffset_eq : b.unusedOffset = keysSize c.entries := by
  have size := size_eq h
  have room := header_room h
  rw [← toNat_unusedOffset room, header_eq h room, ← length_keys]
  rw [← length_keys] at size
  exact Nat.mod_eq_of_lt (by omega)

theorem unusedSize_eq : b.unusedSize = c.free.length := by
  have size := size_eq h
  have room := header_room h
  rw [← toNat_unusedSize room, header_eq h room]
  exact Nat.mod_eq_of_lt (by omega)

variable {key value : List UInt8} {before after : List (List UInt8 × List UInt8)}
  (split : c.entries = before ++ (key, value) :: after)

include split

/-- The numbers in the slot of an entry are those that were written there. -/
theorem slotNumbers_eq : b.keyOffset before.length = keysSize before ∧
    b.keyLength before.length = key.length ∧
    b.valueOffset before.length = valuesSize before + value.length ∧
    b.valueLength before.length = value.length := by
  have size := size_eq h
  have keys := congrArg keysSize split
  have values := congrArg valuesSize split
  rw [keysSize_append_cons] at keys
  rw [valuesSize_append_cons] at values
  have index : before.length < c.entries.length := by
    rw [split, List.length_append, List.length_cons]
    omega
  have slotStart : b.slotStart before.length = 50 + 8 * before.length := by
    rw [Block.slotStart, entriesOffset_eq h]
  have room : b.slotStart before.length + Record.size EntrySlot ≤ b.bytes.size := by
    rw [slotStart, size_entrySlot]
    omega
  have read : Record.ofBlock b (b.slotStart before.length) room
      = slot (keysSize before) (valuesSize before) key value :=
    ofBlock_eq room (slotStart ▸ slice_slot h split)
  have keyOffset := congrArg (·.keyOffset.toNat) read
  have keySize := congrArg (·.keySize.toNat) read
  have valueOffset := congrArg (·.valueOffset.toNat) read
  have valueSize := congrArg (·.valueSize.toNat) read
  refine ⟨?_, ?_, ?_, ?_⟩
  · exact (Block.toNat_u16 _).symm.trans (keyOffset.trans (Nat.mod_eq_of_lt (by omega)))
  · exact (Block.toNat_u16 _).symm.trans (keySize.trans (Nat.mod_eq_of_lt (by omega)))
  · exact (Block.toNat_u16 _).symm.trans (valueOffset.trans (Nat.mod_eq_of_lt (by omega)))
  · exact (Block.toNat_u16 _).symm.trans (valueSize.trans (Nat.mod_eq_of_lt (by omega)))

/-- The numbers of an entry tell where its key and its value were written. -/
theorem entryNumbers_eq : b.entryNumbers before.length
    = ((50 + 8 * c.entries.length + keysSize before, key.length),
      (b.bytes.size - 40 - (valuesSize before + value.length), value.length)) := by
  obtain ⟨keyOffset, keyLength, valueOffset, valueLength⟩ := slotNumbers_eq h small split
  rw [Block.entryNumbers, Block.keyStart, Block.valueStart, keyOffset, keyLength, valueOffset,
    valueLength, entriesOffset_eq h, entriesSize_eq h small]

/-- The bytes at the numbers of an entry are its key and its value. -/
theorem recordAt_eq : recordAt b (b.entryNumbers before.length)
    = ⟨key.toByteArray, value.toByteArray⟩ := by
  rw [entryNumbers_eq h small split, recordAt, slice_key h split, slice_value h split]

end Numbers

theorem split_at (c : Contents) {i : Nat} (hi : i < c.entries.length) :
    c.entries = c.entries.take i ++ (c.entries[i].1, c.entries[i].2) :: c.entries.drop (i + 1) := by
  show c.entries = c.entries.take i ++ c.entries[i] :: c.entries.drop (i + 1)
  rw [List.getElem_cons_drop, List.take_append_drop]

theorem length_take_entries {i : Nat} (hi : i < c.entries.length) :
    (c.entries.take i).length = i := List.length_take_of_le (Nat.le_of_lt hi)

theorem valuesSize_take_succ {i : Nat} (hi : i < c.entries.length) :
    valuesSize (c.entries.take (i + 1))
      = valuesSize (c.entries.take i) + c.entries[i].2.length := by
  rw [valuesSize, List.take_succ_eq_append_getElem hi, List.map_append, List.sum_append_nat,
    ← valuesSize]
  rfl

theorem isNode (h : b.toList = c.sealedBytes) (small : b.bytes.size ≤ 65536) : b.IsNode := by
  have size := size_eq h
  have footerRoom := footer_room h
  have object := object_eq h (object_room h)
  have header := header_eq h (header_room h)
  have footer := footer_eq h footerRoom
  have entriesOffset := entriesOffset_eq h
  have entriesSize := entriesSize_eq h small
  have unusedOffset := unusedOffset_eq h small
  have unusedSize := unusedSize_eq h small
  have count := entryCount_eq h
  constructor
  case minimum => omega
  case type => exact (Block.toNat_u32 _).symm.trans (congrArg (·.type.toNat) object)
  case subtype => exact (Block.toNat_u32 _).symm.trans (congrArg (·.subtype.toNat) object)
  case flags => exact (Block.toNat_u16 _).symm.trans (congrArg (·.flags.toNat) header)
  case regions => omega
  case keySize =>
    rw [← toNat_keySize (by omega) footerRoom, footer]
    rfl
  case valueSize =>
    rw [← toNat_valueSize (by omega) footerRoom, footer]
    rfl
  case count => omega
  case entries =>
    intro i hi
    rw [count] at hi
    have split := split_at c hi
    have keys := congrArg keysSize split
    have values := congrArg valuesSize split
    rw [keysSize_append_cons] at keys
    rw [valuesSize_append_cons] at values
    have numbers := slotNumbers_eq h small split
    rw [length_take_entries hi] at numbers
    obtain ⟨keyOffset, keyLength, valueOffset, valueLength⟩ := numbers
    rw [Block.keyStart]
    omega

/-- Where the entries were written, in the order of the entry table. -/
theorem map_entryNumbers_eq (h : b.toList = c.sealedBytes) (small : b.bytes.size ≤ 65536) :
    (List.range b.entryCount).map b.entryNumbers = c.entries.mapIdx fun i e =>
      ((50 + 8 * c.entries.length + keysSize (c.entries.take i), e.1.length),
        (b.bytes.size - 40 - valuesSize (c.entries.take (i + 1)), e.2.length)) := by
  rw [entryCount_eq h]
  refine List.ext_getElem (by simp) fun i hi _ => ?_
  have hi : i < c.entries.length := by simpa using hi
  have numbers := entryNumbers_eq h small (split_at c hi)
  rw [length_take_entries hi, ← valuesSize_take_succ hi] at numbers
  simpa using numbers

/-- The bytes at the numbers of the entries are the entries. -/
theorem map_recordAt_eq (h : b.toList = c.sealedBytes) (small : b.bytes.size ≤ 65536) :
    ((List.range b.entryCount).map b.entryNumbers).map (recordAt b)
      = c.entries.map fun e => ⟨e.1.toByteArray, e.2.toByteArray⟩ := by
  rw [entryCount_eq h]
  refine List.ext_getElem (by simp) fun i hi _ => ?_
  have hi : i < c.entries.length := by simpa using hi
  have record := recordAt_eq h small (split_at c hi)
  rw [length_take_entries hi] at record
  simpa using record

/-- A node that says what was written in a block, with each entry in its place: the keys one behind
the other after the entry table, the values one before the other up to the footer. -/
structure ReadAs (c : Contents) (b : Block) (n : LocatedNode) : Prop where
  object : n.object = { c.object with checksum := fletcher64 (b.toList.drop 8) }
  header : n.header = c.header
  footer : n.footer = c.footer
  records : n.records = c.entries.map fun e => ⟨e.1.toByteArray, e.2.toByteArray⟩
  entries : n.entries.map Entry.numbers = c.entries.mapIdx fun i e =>
    ((50 + 8 * c.entries.length + keysSize (c.entries.take i), e.1.length),
      (b.bytes.size - 40 - valuesSize (c.entries.take (i + 1)), e.2.length))

theorem exists_decode_readAs (h : b.toList = c.sealedBytes) (small : b.bytes.size ≤ 65536)
    (location : Location) (verify : Bool) :
    ∃ n, LocatedNode.decode location b verify = .ok n ∧ n.location = location ∧ c.ReadAs b n := by
  have size := size_eq h
  obtain ⟨stored, covered⟩ := Block.number_zero_and_coveredChecksum (h.trans c.sealedBytes_eq)
  have verified := Block.verifyChecksum_eq_ok_iff.mpr ⟨by omega, covered ▸ stored⟩
  obtain ⟨n, decoded⟩ := exists_decode_iff_isNode.mpr (isNode h small)
  obtain ⟨block, object, header, footer, entries⟩ := standsIn_of_decode decoded
  refine ⟨.ofNode location n, LocatedNode.decode_eq_ok verified decoded, rfl, ?_⟩
  constructor
  case object =>
    have checksum : fletcher64 (b.toList.drop 8) = c.sealedObject.checksum := covered
    rw [checksum]
    exact LawfulRecord.eq_of_toBytes_eq (object.trans (slice_object h))
  case header => exact LawfulRecord.eq_of_toBytes_eq (header.trans (slice_header h))
  case footer => exact LawfulRecord.eq_of_toBytes_eq (footer.trans (slice_footer h))
  case records =>
    show n.records = _
    rw [records_eq_map, entries, block, map_recordAt_eq h small]
  case entries => exact entries.trans (map_entryNumbers_eq h small)

/-- What is built in a block is read back from it, whatever the block held before. This is so for
each size of the block and for all entries that fit into it, with and without verification. -/
theorem decode_build (c : Contents) (block : List UInt8) (minimum : 90 ≤ block.length)
    (maximum : block.length ≤ 65536)
    (fits : 8 * c.entries.length + keysSize c.entries + valuesSize c.entries ≤ block.length - 90)
    (free : c.free = (block.take (block.length - 40 - valuesSize c.entries)).drop
      (50 + 8 * c.entries.length + keysSize c.entries)) :
    ∃ b, Block.ofBytes? (c.build block).toByteArray = some b ∧ c.block? = some b ∧
      b.bytes.size = block.length ∧ ∀ location verify, ∃ n,
        LocatedNode.decode location b verify = .ok n ∧ n.location = location ∧ c.ReadAs b n := by
  have freeSize := congrArg List.length free
  rw [List.length_drop, List.length_take] at freeSize
  have size : block.length = c.sealedBytes.length := by
    rw [length_sealedBytes]
    omega
  have inside : (block.drop (50 + 8 * c.entries.length + keysSize c.entries)).take c.free.length
      = c.free := by
    rw [List.drop_take] at free
    have freeSize : c.free.length = block.length - 40 - valuesSize c.entries
        - (50 + 8 * c.entries.length + keysSize c.entries) := by omega
    rw [freeSize]
    exact free.symm
  obtain ⟨b, laid, toList⟩ := exists_block?_eq (size ▸ maximum)
  have built : Block.ofBytes? (c.build block).toByteArray = some b := by
    rw [build_eq size inside, ← toList]
    exact b.ofBytes?_toList
  have blockSize : b.bytes.size = block.length := by rw [← Block.length_toList, toList, size]
  exact ⟨b, built, laid, blockSize, exists_decode_readAs toList (blockSize ▸ maximum)⟩

/-- Three entries, one of them empty and two of them alike. -/
def sample : Contents where
  identifier := 7
  version := 1
  keyFreeListOffset := 0xffff
  keyFreeListSize := 0
  valueFreeListOffset := 0xffff
  valueFreeListSize := 0
  flags := 2
  nodeSize := 123
  maximumKeySize := 1
  maximumValueSize := 2
  numberOfNodes := 1
  entries := [([1], [2, 3]), ([], []), ([1], [2, 3])]
  free := [9, 9, 9]

theorem decode_build_sample : ∃ b, sample.block? = some b ∧
    ∃ n, LocatedNode.decode ⟨4096, 512⟩ b true = .ok n ∧
      n.records = [⟨⟨#[1]⟩, ⟨#[2, 3]⟩⟩, ⟨⟨#[]⟩, ⟨#[]⟩⟩, ⟨⟨#[1]⟩, ⟨#[2, 3]⟩⟩] ∧
      n.entries.map Entry.numbers
        = [((74, 1), (81, 2)), ((75, 0), (81, 0)), ((75, 1), (79, 2))] := by
  have free : sample.free
      = ((List.replicate 123 9).take (123 - 40 - valuesSize sample.entries)).drop
        (50 + 8 * sample.entries.length + keysSize sample.entries) := by decide +kernel
  have size : (List.replicate 123 (9 : UInt8)).length = 123 := List.length_replicate
  obtain ⟨b, -, laid, blockSize, decoded⟩ := decode_build sample (List.replicate 123 9)
    (by rw [size]; decide) (by rw [size]; decide) (by rw [size]; decide) (by rw [size]; exact free)
  obtain ⟨n, ok, -, -, -, -, records, entries⟩ := decoded ⟨4096, 512⟩ true
  rw [blockSize, size] at entries
  exact ⟨b, laid, n, ok, records, entries⟩

end Node.Contents

end Apfs
