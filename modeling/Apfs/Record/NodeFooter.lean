import Apfs.Record.Basic

/-!
# The node footer

The last bytes of a node describe the tree that it is the root of.
-/

namespace Apfs

structure NodeFooter where
  flags : UInt32
  nodeSize : UInt32
  /-- The size of every key, or zero if keys have sizes of their own. -/
  keySize : UInt32
  /-- The size of every value, or zero if values have sizes of their own. -/
  valueSize : UInt32
  maximumKeySize : UInt32
  maximumValueSize : UInt32
  numberOfEntries : UInt64
  numberOfNodes : UInt64
deriving DecidableEq, Repr

/-- The size that a footer declares when every key or value has a size of its own. -/
def NodeFooter.variableSize : UInt32 := 0

instance : Record NodeFooter where
  name := "B-tree footer"
  size := 40
  ofBlock b i h := {
    flags := b.u32 i (by omega)
    nodeSize := b.u32 (i + 4) (by omega)
    keySize := b.u32 (i + 8) (by omega)
    valueSize := b.u32 (i + 12) (by omega)
    maximumKeySize := b.u32 (i + 16) (by omega)
    maximumValueSize := b.u32 (i + 20) (by omega)
    numberOfEntries := b.u64 (i + 24) (by omega)
    numberOfNodes := b.u64 (i + 32) (by omega) }
  toBytes r :=
    LittleEndian.bytes 4 r.flags.toNat ++ LittleEndian.bytes 4 r.nodeSize.toNat ++
    LittleEndian.bytes 4 r.keySize.toNat ++ LittleEndian.bytes 4 r.valueSize.toNat ++
    LittleEndian.bytes 4 r.maximumKeySize.toNat ++
    LittleEndian.bytes 4 r.maximumValueSize.toNat ++
    LittleEndian.bytes 8 r.numberOfEntries.toNat ++ LittleEndian.bytes 8 r.numberOfNodes.toNat

end Apfs
