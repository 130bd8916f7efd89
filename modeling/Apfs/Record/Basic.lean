import Apfs.Block
import Apfs.Defect

/-!
# Records

A record is a row of little-endian fields of fixed widths without gaps. It can be read wherever
the block holds enough bytes, whatever these are: whether its values make sense is for the
decoder of the node to say.
-/

namespace Apfs

class Record (α : Type) where
  /-- What errors call the record. -/
  name : String
  /-- The number of bytes that the record takes up. -/
  size : Nat
  ofBlock (b : Block) (i : Nat) (h : i + size ≤ b.bytes.size) : α
  toBytes : α → List UInt8

namespace Record

/-- The record at offset `i`, if the block does not end before the record does. -/
def readAt (α : Type) [Record α] (b : Block) (i : Nat) : Except Defect α :=
  if h : i + size α ≤ b.bytes.size then .ok (ofBlock b i h)
  else .error (.truncated (name α) (.ofNat (size α)) (.ofNat (b.bytes.size - i)))

/-- The record at the front of the block. -/
def read (α : Type) [Record α] (b : Block) : Except Defect α := readAt α b 0

theorem readAt_eq_ok {α : Type} [Record α] {b : Block} {i : Nat}
    (h : i + size α ≤ b.bytes.size) : readAt α b i = .ok (ofBlock b i h) :=
  dif_pos h

theorem readAt_eq_error {α : Type} [Record α] {b : Block} {i : Nat}
    (h : b.bytes.size < i + size α) :
    readAt α b i =
      .error (.truncated (name α) (.ofNat (size α)) (.ofNat (b.bytes.size - i))) :=
  dif_neg (by omega)

end Record

end Apfs
