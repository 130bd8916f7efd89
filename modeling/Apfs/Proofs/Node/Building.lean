import Apfs.Proofs.Node.Layout

/-!
# Building nodes in place

A node can also be built in a block that is there already. The object header is written first,
then for each entry its slot, its key and its value, where two cursors count the bytes of the keys
and of the values so far, and at last the node header, the footer and the checksum. No write
touches what an earlier one has left, apart from the checksum. So this comes to the same bytes as
laying out the parts one after the other, and what the block held before remains in the free space
alone.
-/

namespace Apfs.Node

/-- Puts bytes in the place of those from offset `i` on. -/
def put (i : Nat) (bytes block : List UInt8) : List UInt8 :=
  block.take i ++ bytes ++ block.drop (i + bytes.length)

theorem put_append {i : Nat} (before old bytes after : List UInt8) (start : before.length = i)
    (length : old.length = bytes.length) :
    put i bytes (before ++ old ++ after) = before ++ bytes ++ after := by
  subst start
  rw [put, ← length, ← List.length_append, List.drop_left, List.append_assoc before, List.take_left]

theorem exists_append_of_length {bytes : List UInt8} {m n : Nat} (h : bytes.length = m + n) :
    ∃ s t, bytes = s ++ t ∧ s.length = m ∧ t.length = n := by
  refine ⟨bytes.take m, bytes.drop m, (List.take_append_drop m bytes).symm, ?_, ?_⟩
  · rw [List.length_take]
    omega
  · rw [List.length_drop]
    omega

namespace Contents

/-- Writes the slot with index `i`, and the key and the value that it points at. -/
def putEntry (keyArea footer i keysSize valuesSize : Nat) (key value block : List UInt8) :
    List UInt8 :=
  block
    |> put (50 + 8 * i) (Record.toBytes (slot keysSize valuesSize key value))
    |> put (keyArea + keysSize) key
    |> put (footer - (valuesSize + value.length)) value

def putEntries (keyArea footer i keysSize valuesSize : Nat) :
    List (List UInt8 × List UInt8) → List UInt8 → List UInt8
  | [], block => block
  | (key, value) :: entries, block =>
    putEntries keyArea footer (i + 1) (keysSize + key.length) (valuesSize + value.length) entries
      (putEntry keyArea footer i keysSize valuesSize key value block)

/-- Writes all of the node but its checksum. -/
def assemble (c : Contents) (block : List UInt8) : List UInt8 :=
  let footer := block.length - Record.size NodeFooter
  block
    |> put 0 (Record.toBytes c.object)
    |> putEntries (50 + c.tableSize) footer 0 0 0 c.entries
    |> put (Record.size ObjectHeader) (Record.toBytes c.header)
    |> put footer (Record.toBytes c.footer)

/-- The node built in a block. -/
def build (c : Contents) (block : List UInt8) : List UInt8 :=
  let block := c.assemble block
  put 0 (LittleEndian.bytes checksumSize (fletcher64 (block.drop checksumSize)).toNat) block

/-- Building an entry fills the room for it next to the entries that are there. -/
theorem putEntry_eq {keyArea footer i k v : Nat} {key value : List UInt8}
    {front oldSlot table keys oldKey keyRoom free valueRoom oldValue values tail : List UInt8}
    (hfront : front.length = 50 + 8 * i) (hslot : oldSlot.length = 8)
    (hkeyArea : 50 + 8 * i + 8 + table.length = keyArea) (hkeys : keys.length = k)
    (hkey : oldKey.length = key.length) (hvalue : oldValue.length = value.length)
    (hfooter : keyArea + k + key.length + keyRoom.length + free.length + valueRoom.length
      + value.length + v = footer) :
    putEntry keyArea footer i k v key value
        (front ++ (oldSlot ++ table) ++ keys ++ (oldKey ++ keyRoom) ++ free
          ++ (valueRoom ++ oldValue) ++ values ++ tail)
      = (front ++ Record.toBytes (slot k v key value)) ++ table ++ (keys ++ key) ++ keyRoom ++ free
          ++ valueRoom ++ (value ++ values) ++ tail := by
  have length := LawfulRecord.length_toBytes (slot k v key value)
  rw [size_entrySlot] at length
  rw [putEntry]
  generalize Record.toBytes (slot k v key value) = new at length ⊢
  have first := put_append front oldSlot new (table ++ keys ++ (oldKey ++ keyRoom) ++ free
    ++ (valueRoom ++ oldValue) ++ values ++ tail) hfront (by omega)
  have second := put_append (front ++ new ++ table ++ keys) oldKey key (keyRoom ++ free
    ++ (valueRoom ++ oldValue) ++ values ++ tail) (i := keyArea + k)
    (by simp only [List.length_append]; omega) hkey
  have third := put_append (front ++ new ++ table ++ keys ++ key ++ keyRoom ++ free ++ valueRoom)
    oldValue value (values ++ tail) (i := footer - (v + value.length))
    (by simp only [List.length_append]; omega) hvalue
  simp only [List.append_assoc] at first second third ⊢
  rw [first, second, third]

/-- Building entries fills all the room for them. The keys grow forward behind those in front of
the room, and the values backward from those behind it. -/
theorem putEntries_eq {keyArea footer i k v : Nat} {entries : List (List UInt8 × List UInt8)}
    {front table keys keyRoom free valueRoom values tail : List UInt8}
    (hfront : front.length = 50 + 8 * i) (htable : table.length = 8 * entries.length)
    (hkeyArea : 50 + 8 * i + 8 * entries.length = keyArea) (hkeys : keys.length = k)
    (hkeyRoom : keyRoom.length = keysSize entries)
    (hvalueRoom : valueRoom.length = valuesSize entries)
    (hfooter : keyArea + k + keysSize entries + free.length + valuesSize entries + v = footer) :
    putEntries keyArea footer i k v entries
        (front ++ table ++ keys ++ keyRoom ++ free ++ valueRoom ++ values ++ tail)
      = front ++ (slots k v entries).flatMap Record.toBytes ++ keys ++ entries.flatMap (·.1) ++ free
          ++ entries.reverse.flatMap (·.2) ++ values ++ tail := by
  induction entries generalizing i k v front table keys keyRoom valueRoom values with
  | nil =>
    obtain rfl := List.length_eq_zero_iff.mp htable
    obtain rfl := List.length_eq_zero_iff.mp hkeyRoom
    obtain rfl := List.length_eq_zero_iff.mp hvalueRoom
    rfl
  | cons entry entries ih =>
    obtain ⟨key, value⟩ := entry
    have hkeysSize : keysSize ((key, value) :: entries) = key.length + keysSize entries := rfl
    have hvaluesSize : valuesSize ((key, value) :: entries) = value.length + valuesSize entries :=
      rfl
    rw [List.length_cons] at htable hkeyArea
    have htable : table.length = 8 + 8 * entries.length := by omega
    obtain ⟨oldSlot, table, rfl, hslot, htable⟩ := exists_append_of_length htable
    rw [hkeysSize] at hkeyRoom hfooter
    obtain ⟨oldKey, keyRoom, rfl, hkey, hkeyRoom⟩ := exists_append_of_length hkeyRoom
    rw [hvaluesSize, Nat.add_comm value.length] at hvalueRoom hfooter
    obtain ⟨valueRoom, oldValue, rfl, hvalueRoom, hvalue⟩ := exists_append_of_length hvalueRoom
    have hslots : 50 + 8 * i + 8 + table.length = keyArea := by omega
    have hplaces : keyArea + k + key.length + keyRoom.length + free.length + valueRoom.length
        + value.length + v = footer := by omega
    rw [putEntries, putEntry_eq hfront hslot hslots hkeys hkey hvalue hplaces]
    have hfront' : (front ++ Record.toBytes (slot k v key value)).length = 50 + 8 * (i + 1) := by
      rw [List.length_append, LawfulRecord.length_toBytes, size_entrySlot, hfront]
      omega
    have hkeys' : (keys ++ key).length = k + key.length := by rw [List.length_append, hkeys]
    rw [ih hfront' htable (by omega) hkeys' hkeyRoom hvalueRoom (by omega)]
    simp [slots]

/-- Whatever stood in the place of the other parts, assembling around the free space gives the
bytes of the node. -/
theorem assemble_eq {c : Contents} {object header table keyRoom valueRoom footer : List UInt8}
    (hobject : object.length = 32) (hheader : header.length = 18)
    (htable : table.length = 8 * c.entries.length) (hkeyRoom : keyRoom.length = keysSize c.entries)
    (hvalueRoom : valueRoom.length = valuesSize c.entries) (hfooter : footer.length = 40) :
    c.assemble (object ++ header ++ table ++ keyRoom ++ c.free ++ valueRoom ++ footer)
      = c.bytes := by
  have lobject := LawfulRecord.length_toBytes c.object
  have lheader := LawfulRecord.length_toBytes c.header
  have lfooter := LawfulRecord.length_toBytes c.footer
  rw [size_objectHeader] at lobject
  rw [size_nodeHeader] at lheader
  rw [size_nodeFooter] at lfooter
  have tableSize : c.tableSize = 8 * c.entries.length := rfl
  have start : (object ++ header ++ table ++ keyRoom ++ c.free ++ valueRoom ++ footer).length - 40
      = 50 + c.tableSize + keysSize c.entries + c.free.length + valuesSize c.entries := by
    simp only [List.length_append]
    omega
  rw [assemble, bytes, size_objectHeader, size_nodeFooter, start]
  generalize Record.toBytes c.object = newObject at lobject ⊢
  generalize Record.toBytes c.header = newHeader at lheader ⊢
  generalize Record.toBytes c.footer = newFooter at lfooter ⊢
  have first := put_append [] object newObject
    (header ++ table ++ keyRoom ++ c.free ++ valueRoom ++ footer) rfl (by omega)
  have front : (newObject ++ header).length = 50 + 8 * 0 := by
    rw [List.length_append]
    omega
  have entries : putEntries (50 + c.tableSize)
      (50 + c.tableSize + keysSize c.entries + c.free.length + valuesSize c.entries) 0 0 0 c.entries
      (newObject ++ header ++ table ++ [] ++ keyRoom ++ c.free ++ valueRoom ++ [] ++ footer)
      = newObject ++ header ++ (slots 0 0 c.entries).flatMap Record.toBytes ++ [] ++ c.keys
        ++ c.free ++ c.values ++ [] ++ footer := by
    refine putEntries_eq front htable ?_ rfl hkeyRoom hvalueRoom ?_
    · omega
    · omega
  have second := put_append newObject header newHeader
    ((slots 0 0 c.entries).flatMap Record.toBytes ++ c.keys ++ c.free ++ c.values ++ footer)
    lobject (by omega)
  have last : (newObject ++ newHeader ++ (slots 0 0 c.entries).flatMap Record.toBytes ++ c.keys
      ++ c.free ++ c.values).length
      = 50 + c.tableSize + keysSize c.entries + c.free.length + valuesSize c.entries := by
    simp only [List.length_append, length_slotBytes, length_slots, length_keys, length_values]
    omega
  have third := put_append _ footer newFooter [] last (by omega)
  simp only [List.append_assoc, List.append_nil, List.nil_append, List.length_nil]
    at first entries second third ⊢
  rw [first, entries, second, third]

/-- Building a node in a block as large as itself gives the bytes of the node, if the block held
those of the free space already. -/
theorem build_eq {c : Contents} {block : List UInt8} (size : block.length = c.sealedBytes.length)
    (free : (block.drop (50 + 8 * c.entries.length + keysSize c.entries)).take c.free.length
      = c.free) : c.build block = c.sealedBytes := by
  have assembled : c.assemble block = c.bytes := by
    rw [length_sealedBytes] at size
    have size : block.length = 32 + (18 + (8 * c.entries.length + (keysSize c.entries
        + (c.free.length + (valuesSize c.entries + 40))))) := by omega
    obtain ⟨object, rest, rfl, hobject, size⟩ := exists_append_of_length size
    obtain ⟨header, rest, rfl, hheader, size⟩ := exists_append_of_length size
    obtain ⟨table, rest, rfl, htable, size⟩ := exists_append_of_length size
    obtain ⟨keyRoom, rest, rfl, hkeyRoom, size⟩ := exists_append_of_length size
    obtain ⟨middle, rest, rfl, hfree, size⟩ := exists_append_of_length size
    obtain ⟨valueRoom, footer, rfl, hvalueRoom, hfooter⟩ := exists_append_of_length size
    have before : (object ++ header ++ table ++ keyRoom).length
        = 50 + 8 * c.entries.length + keysSize c.entries := by
      simp only [List.length_append]
      omega
    have shape : object ++ (header ++ (table ++ (keyRoom ++ (middle ++ (valueRoom ++ footer)))))
        = object ++ header ++ table ++ keyRoom ++ (middle ++ (valueRoom ++ footer)) := by
      simp only [List.append_assoc]
    rw [shape, List.drop_left' before, List.take_left' hfree] at free
    subst free
    have assembled := assemble_eq hobject hheader htable hkeyRoom hvalueRoom hfooter
    simpa only [List.append_assoc] using assembled
  rw [build, assembled, sealedBytes_eq, put, List.take_zero, List.nil_append,
    LittleEndian.length_bytes, Nat.zero_add, checksumSize]

end Contents

end Apfs.Node
