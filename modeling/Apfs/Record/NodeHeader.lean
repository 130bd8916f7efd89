import Apfs.Record.Basic

/-!
# The node header

The node header follows the object header and lays out the space up to the footer: some bytes to
skip, the entry table, the keys in use, and the unused bytes. The lists of free space are carried
along, but nothing is ever read through them.
-/

namespace Apfs

/-- The node layouts that the flags of a node header can announce. -/
inductive NodeLayout
  /-- A table of descriptors that point at keys and values of any size. -/
  | variableSizeEntries
deriving DecidableEq, Repr

namespace NodeLayout

def flags : NodeLayout → UInt16
  | variableSizeEntries => 3

def ofFlags? (flags : UInt16) : Option NodeLayout :=
  if flags = variableSizeEntries.flags then some variableSizeEntries else none

end NodeLayout

structure NodeHeader where
  flags : UInt16
  /-- Where the entry table starts, counted from the end of this header. -/
  entriesOffset : UInt16
  entriesSize : UInt16
  /-- Where the unused bytes start, counted from the end of the entry table. -/
  unusedOffset : UInt16
  unusedSize : UInt16
  keyFreeListOffset : UInt16
  keyFreeListSize : UInt16
  valueFreeListOffset : UInt16
  valueFreeListSize : UInt16
deriving DecidableEq, Repr

instance : Record NodeHeader where
  name := "B-tree header"
  size := 18
  ofBlock b i h := {
    flags := b.u16 i (by omega)
    entriesOffset := b.u16 (i + 2) (by omega)
    entriesSize := b.u16 (i + 4) (by omega)
    unusedOffset := b.u16 (i + 6) (by omega)
    unusedSize := b.u16 (i + 8) (by omega)
    keyFreeListOffset := b.u16 (i + 10) (by omega)
    keyFreeListSize := b.u16 (i + 12) (by omega)
    valueFreeListOffset := b.u16 (i + 14) (by omega)
    valueFreeListSize := b.u16 (i + 16) (by omega) }
  toBytes r :=
    LittleEndian.bytes 2 r.flags.toNat ++ LittleEndian.bytes 2 r.entriesOffset.toNat ++
    LittleEndian.bytes 2 r.entriesSize.toNat ++ LittleEndian.bytes 2 r.unusedOffset.toNat ++
    LittleEndian.bytes 2 r.unusedSize.toNat ++ LittleEndian.bytes 2 r.keyFreeListOffset.toNat ++
    LittleEndian.bytes 2 r.keyFreeListSize.toNat ++
    LittleEndian.bytes 2 r.valueFreeListOffset.toNat ++
    LittleEndian.bytes 2 r.valueFreeListSize.toNat

end Apfs
