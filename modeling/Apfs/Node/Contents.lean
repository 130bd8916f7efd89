import Apfs.BlockSize
import Apfs.Node.Decode
import Apfs.ObjectChecksum

/-!
# Writing nodes

The contents of a node are its entries, the bytes of its free space, and the numbers that a
decoder passes on without a look. `block?` lays them out without gaps: the entry table right
behind the headers, the keys forward from there, the free space, and the values backward from the
footer. The block is as large as its contents make it, and it carries its checksum.
-/

namespace Apfs.Node

structure Contents where
  identifier : UInt64
  version : UInt64
  keyFreeListOffset : UInt16
  keyFreeListSize : UInt16
  valueFreeListOffset : UInt16
  valueFreeListSize : UInt16
  flags : UInt32
  nodeSize : UInt32
  maximumKeySize : UInt32
  maximumValueSize : UInt32
  numberOfNodes : UInt64
  /-- The key and the value of each entry. -/
  entries : List (List UInt8 × List UInt8)
  free : List UInt8

namespace Contents

def keys (c : Contents) : List UInt8 := c.entries.flatMap (·.1)

/-- The values as they stand in the block, the last one first. -/
def values (c : Contents) : List UInt8 := c.entries.reverse.flatMap (·.2)

def tableSize (c : Contents) : Nat := Record.size EntrySlot * c.entries.length

/-- The slot of an entry behind keys and values of the given sizes. -/
def slot (keysSize valuesSize : Nat) (key value : List UInt8) : EntrySlot where
  keyOffset := .ofNat keysSize
  keySize := .ofNat key.length
  valueOffset := .ofNat (valuesSize + value.length)
  valueSize := .ofNat value.length

/-- The slots of entries behind keys and values of the given sizes. -/
def slots (keysSize valuesSize : Nat) : List (List UInt8 × List UInt8) → List EntrySlot
  | [] => []
  | (key, value) :: entries =>
    slot keysSize valuesSize key value
      :: slots (keysSize + key.length) (valuesSize + value.length) entries

def object (c : Contents) : ObjectHeader where
  checksum := 0
  identifier := c.identifier
  version := c.version
  type := ObjectHeader.btree
  subtype := ObjectHeader.fileSystemTree

def header (c : Contents) : NodeHeader where
  flags := NodeLayout.variableSizeEntries.flags
  entriesOffset := 0
  entriesSize := .ofNat c.tableSize
  unusedOffset := .ofNat c.keys.length
  unusedSize := .ofNat c.free.length
  keyFreeListOffset := c.keyFreeListOffset
  keyFreeListSize := c.keyFreeListSize
  valueFreeListOffset := c.valueFreeListOffset
  valueFreeListSize := c.valueFreeListSize

def footer (c : Contents) : NodeFooter where
  flags := c.flags
  nodeSize := c.nodeSize
  keySize := NodeFooter.variableSize
  valueSize := NodeFooter.variableSize
  maximumKeySize := c.maximumKeySize
  maximumValueSize := c.maximumValueSize
  numberOfEntries := .ofNat c.entries.length
  numberOfNodes := c.numberOfNodes

/-- The bytes of the node, with zero in place of the checksum. -/
def bytes (c : Contents) : List UInt8 :=
  Record.toBytes c.object ++ Record.toBytes c.header
    ++ (slots 0 0 c.entries).flatMap Record.toBytes
    ++ c.keys ++ c.free ++ c.values ++ Record.toBytes c.footer

/-- The node, if it is no larger than blocks can be. -/
def block? (c : Contents) : Option Block := do
  if c.bytes.length ≤ BlockSize.maximum.toNat then
    return (← Block.ofBytes? c.bytes.toByteArray).sealed
  else none

end Contents

end Apfs.Node
