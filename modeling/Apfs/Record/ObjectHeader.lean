import Apfs.Record.Basic

/-!
# The object header

Every object on disk starts with its checksum, its identity and its type.
-/

namespace Apfs

structure ObjectHeader where
  /-- The Fletcher-64 checksum of the rest of the block. -/
  checksum : UInt64
  identifier : UInt64
  /-- The transaction that last modified the object. -/
  version : UInt64
  type : UInt32
  subtype : UInt32
deriving DecidableEq, Repr

namespace ObjectHeader

/-- The type of an object that is a node of a B-tree. -/
def btree : UInt32 := 0x2

/-- The subtype of a B-tree that holds the inodes, directory records and extents of a volume. -/
def fileSystemTree : UInt32 := 0xe

end ObjectHeader

instance : Record ObjectHeader where
  name := "object header"
  size := 32
  ofBlock b i h := {
    checksum := b.u64 i (by omega)
    identifier := b.u64 (i + 8) (by omega)
    version := b.u64 (i + 16) (by omega)
    type := b.u32 (i + 24) (by omega)
    subtype := b.u32 (i + 28) (by omega) }
  toBytes r :=
    LittleEndian.bytes 8 r.checksum.toNat ++ LittleEndian.bytes 8 r.identifier.toNat ++
    LittleEndian.bytes 8 r.version.toNat ++ LittleEndian.bytes 4 r.type.toNat ++
    LittleEndian.bytes 4 r.subtype.toNat

end Apfs
