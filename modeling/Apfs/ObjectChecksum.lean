import Apfs.Fletcher64
import Apfs.Record.ObjectHeader

/-!
# Object checksums

An object stores the checksum of all bytes behind its first eight in those eight. `verify` tells
whether it does, and `sealed` makes it so.
-/

namespace Apfs

/-- The number of bytes that the stored checksum takes up. -/
def checksumSize : Nat := 8

namespace Block

/-- The checksum of all bytes behind the stored one. -/
def coveredChecksum (b : Block) : UInt64 := fletcher64 (b.toList.drop checksumSize)

/-- Compares the stored checksum of an object with that of its bytes. -/
def verifyChecksum (b : Block) : Except Defect Unit := do
  Defect.require (b.size ≠ 0) .emptyBlock
  let header ← Record.read ObjectHeader b
  let computed := b.coveredChecksum
  Defect.require (header.checksum = computed) (.checksumMismatch header.checksum computed)

/-- Stores the checksum that `verifyChecksum` asks for. -/
def sealed (b : Block) : Block where
  bytes := (LittleEndian.bytes checksumSize b.coveredChecksum.toNat).toByteArray ++
    b.bytes.extract checksumSize b.bytes.size
  size_lt := by
    have := b.size_lt
    have : checksumSize < UInt64.size := by decide
    simp only [ByteArray.size_append, List.size_toByteArray, LittleEndian.length_bytes,
      ByteArray.size_extract]
    omega

end Block

end Apfs
