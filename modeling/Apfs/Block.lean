import Apfs.LittleEndian
import Apfs.Span

/-!
# Blocks

A block is a byte string whose size is a machine word, as that of every byte string in memory is.
Its numbers are little-endian, and each is read at an offset that is known to leave room for it,
so that no read needs a default.
-/

namespace Apfs

-- Larger libraries bring a second instance, which is to leave the derived ones as they are.
instance (priority := high) decidableEqBytes : DecidableEq ByteArray := ByteArray.instDecidableEq

structure Block where
  bytes : ByteArray
  size_lt : bytes.size < UInt64.size
deriving DecidableEq

namespace Block

def ofBytes? (bytes : ByteArray) : Option Block :=
  if h : bytes.size < UInt64.size then some ⟨bytes, h⟩ else none

def size (b : Block) : UInt64 := .ofNat b.bytes.size

@[simp] theorem toNat_size (b : Block) : b.size.toNat = b.bytes.size :=
  UInt64.toNat_ofNat_of_lt b.size_lt

def toList (b : Block) : List UInt8 := b.bytes.data.toList

@[simp] theorem length_toList (b : Block) : b.toList.length = b.bytes.size := by
  simp [toList]

def u16 (b : Block) (i : Nat) (h : i + 2 ≤ b.bytes.size) : UInt16 :=
  .ofNat (LittleEndian.value [b.bytes[i], b.bytes[i + 1]])

def u32 (b : Block) (i : Nat) (h : i + 4 ≤ b.bytes.size) : UInt32 :=
  .ofNat (LittleEndian.value [b.bytes[i], b.bytes[i + 1], b.bytes[i + 2], b.bytes[i + 3]])

def u64 (b : Block) (i : Nat) (h : i + 8 ≤ b.bytes.size) : UInt64 :=
  .ofNat (LittleEndian.value [b.bytes[i], b.bytes[i + 1], b.bytes[i + 2], b.bytes[i + 3],
    b.bytes[i + 4], b.bytes[i + 5], b.bytes[i + 6], b.bytes[i + 7]])

/-- The bytes that a span covers, given that the block reaches its end. -/
def cut (b : Block) (s : Span) (_inside : s.stop ≤ b.size) : ByteArray :=
  b.bytes.extract s.start.toNat s.stop.toNat

theorem extract?_eq_cut {b : Block} {s : Span} (inside : s.stop ≤ b.size) :
    s.extract? b.bytes = some (b.cut s inside) := by
  have := UInt64.le_iff_toNat_le.mp inside
  rw [toNat_size] at this
  rw [Span.extract?, if_pos this, cut]

/-- The bytes from one offset up to another. Nothing is cut off: there is no answer unless the
offsets are in order and the block reaches the second. -/
def between? (b : Block) (start stop : UInt64) : Option ByteArray :=
  if start ≤ stop ∧ stop ≤ b.size then some (b.bytes.extract start.toNat stop.toNat) else none

/-- The bytes of a span that is taken at its word, from its start up to the sum of its start and its
length. -/
def take? (b : Block) (s : Span) : Option ByteArray := do
  b.between? s.start (← checkedAdd? s.start s.length)

end Block

end Apfs
