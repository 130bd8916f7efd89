import Apfs.Node.Basic
import Apfs.Record.EntrySlot

/-!
# Decoding nodes

Every number in a block may be hostile, so each is checked before it is used. The checks are made
in a fixed order and the first that fails decides the defect: the sizes of the headers, the fields
that admit one value only, the size of the footer, the regions one after the other, the number of
entries, and then each entry. A single bad entry refuses the whole node.
-/

namespace Apfs

/-- The number of slots for which the entry table has room. -/
def NodeHeader.capacity (h : NodeHeader) : UInt64 :=
  h.entriesSize.toUInt64 / .ofNat (Record.size EntrySlot)

namespace Node

/-- The size of the two headers. -/
def headersSize : UInt64 := .ofNat (Record.size ObjectHeader + Record.size NodeHeader)

def footerSize : UInt64 := .ofNat (Record.size NodeFooter)

/-- The size of a node without entries and without free space. -/
def minimumSize : UInt64 := headersSize + footerSize

/-- Refuses a field that holds anything but the one value that is supported. -/
def expect (field : String) (value expected : UInt64) : Except Defect Unit :=
  Defect.require (value = expected) (.unsupported field value expected)

section Steps

variable {m : Type → Type} [Monad m] [MonadLiftT (Except Defect) m] [Arithmetic m]

/-- Takes a region off the available bytes and returns how many of them are left. -/
def takeRegion (available : UInt64) (field : String) (size : UInt16) : m UInt64 := do
  Defect.require (size.toUInt64 ≤ available) (.regionTooLarge field size.toUInt64 available)
  let rest ← Arithmetic.sub available size.toUInt64
  return rest.val

/-- Takes the regions of a node off the available bytes one after the other, which keeps them
apart. -/
def checkRegions (header : NodeHeader) (available : UInt64) : m Unit := do
  let available ← takeRegion available "entries offset" header.entriesOffset
  let available ← takeRegion available "entries size" header.entriesSize
  let available ← takeRegion available "unused offset" header.unusedOffset
  let _ ← takeRegion available "unused size" header.unusedSize

/-- The span of the key or the value of an entry, which has to lie inside the block. -/
def locate (b : Block) (index : UInt64) (field : String) (start length : UInt64) :
    m (Span.Inside b.size) := do
  let found ← Span.fitM start length b.size
  Defect.demand found (.entryOutside index field start length b.size)

/-- Where the value of an entry starts, counted backward from the footer. -/
def valueStart (footerStart index : UInt64) (slot : EntrySlot) : m UInt64 := do
  Defect.require (slot.valueOffset.toUInt64 ≤ footerStart)
    (.valueBeforeBlock index slot.valueOffset.toUInt64 footerStart)
  let start ← Arithmetic.sub footerStart slot.valueOffset.toUInt64
  return start.val

/-- Reads one slot of the entry table and finds the key and the value that it points at. -/
def resolveEntry (b : Block) (tableStart keysStart footerStart : UInt64) (i : Nat) :
    m { e : Entry // e.Fits b.size } := do
  let index ← Arithmetic.ofNat i
  let before ← Arithmetic.mul index (.ofNat (Record.size EntrySlot))
  let slotStart ← Arithmetic.add tableStart before
  let slot ← Record.readAt EntrySlot b slotStart.val.toNat
  let keyStart ← Arithmetic.add keysStart slot.keyOffset.toUInt64
  let key ← locate b index "key" keyStart slot.keySize.toUInt64
  let start ← valueStart footerStart index slot
  let value ← locate b index "value" start slot.valueSize.toUInt64
  return ⟨⟨key.val, value.val⟩, key.property, value.property⟩

def decodeM (b : Block) : m Node := do
  Defect.require (b.size ≠ 0) .emptyBlock
  Defect.require (headersSize ≤ b.size) (.truncated (Record.name NodeHeader) headersSize b.size)
  let object ← Record.read ObjectHeader b
  expect "object type" object.type.toUInt64 ObjectHeader.btree.toUInt64
  expect "object subtype" object.subtype.toUInt64 ObjectHeader.fileSystemTree.toUInt64
  let header ← Record.readAt NodeHeader b (Record.size ObjectHeader)
  Defect.require (NodeLayout.ofFlags? header.flags).isSome
    (.unsupported "B-tree header flags" header.flags.toUInt64
      NodeLayout.variableSizeEntries.flags.toUInt64)
  Defect.require (minimumSize ≤ b.size) (.truncated (Record.name NodeFooter) minimumSize b.size)
  let footerStart ← Arithmetic.sub b.size footerSize
  let footer ← Record.readAt NodeFooter b footerStart.val.toNat
  let available ← Arithmetic.sub footerStart headersSize
  checkRegions header available
  expect "footer key size" footer.keySize.toUInt64 NodeFooter.variableSize.toUInt64
  expect "footer value size" footer.valueSize.toUInt64 NodeFooter.variableSize.toUInt64
  Defect.require (footer.numberOfEntries ≤ header.capacity)
    (.tooManyEntries footer.numberOfEntries header.capacity)
  let tableStart ← Arithmetic.add headersSize header.entriesOffset.toUInt64
  let keysStart ← Arithmetic.add tableStart header.entriesSize.toUInt64
  let entries ← (List.range footer.numberOfEntries.toNat).mapM
    (resolveEntry b tableStart keysStart footerStart)
  return {
    block := b
    object := object
    header := header
    footer := footer
    entries := entries.map (·.val)
    fits := by
      intro e he
      obtain ⟨resolved, _, rfl⟩ := List.mem_map.mp he
      exact resolved.property }

end Steps

/-- The node that a block holds. -/
def decode (b : Block) : Except Defect Node := decodeM b

/-- The entries of the node that a block holds, without the block. -/
def decodeEntries (b : Block) : Except Defect (List Entry) := do
  let node ← decode b
  return node.entries

end Node

end Apfs
