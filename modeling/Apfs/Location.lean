import Apfs.Arithmetic

/-!
# Locations

A node lives in one block of a backing source, given by the block's byte offset and size. A block
may also be addressed by its number in a volume that starts somewhere inside the source. The
offset of such a block is a product and a sum of machine words, and each step is refused when its
exact result is no machine word.
-/

namespace Apfs

structure Location where
  /-- The byte offset of the block within the source. -/
  offset : UInt64
  blockSize : UInt32
deriving DecidableEq, Repr

/-- The location of a numbered block in a volume that starts at `volumeOffset`. -/
def Location.ofBlock? (volumeOffset number : UInt64) (blockSize : UInt32) : Option Location := do
  let start ← checkedMul? number blockSize.toUInt64
  let offset ← checkedAdd? start volumeOffset
  return ⟨offset, blockSize⟩

end Apfs
