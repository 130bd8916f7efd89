import Apfs.Node.Decode
import Apfs.Proofs.Record
import Apfs.Proofs.Span

/-!
# The checks of a node

What a decoder of nodes decides by is a list of checks on numbers of the block, each at a fixed
place or at one that earlier numbers tell. `checks` is that list. Its numbers have no bounds, so
nothing in it can wrap around, and they are there for every block, so that a check can be stated
without regard to those before it. The decoder follows this list.
-/

namespace Apfs

namespace Block

def entriesOffset (b : Block) : Nat := b.number 34 2

def entriesSize (b : Block) : Nat := b.number 36 2

def unusedOffset (b : Block) : Nat := b.number 38 2

def unusedSize (b : Block) : Nat := b.number 40 2

def entryCount (b : Block) : Nat := b.number (b.bytes.size - 16) 8

/-- Where a slot of the entry table starts. -/
def slotStart (b : Block) (i : Nat) : Nat := 50 + b.entriesOffset + 8 * i

/-- How far behind the entry table a key starts. -/
def keyOffset (b : Block) (i : Nat) : Nat := b.number (b.slotStart i) 2

def keyStart (b : Block) (i : Nat) : Nat := 50 + b.entriesOffset + b.entriesSize + b.keyOffset i

def keyLength (b : Block) (i : Nat) : Nat := b.number (b.slotStart i + 2) 2

/-- How far before the footer a value starts. -/
def valueOffset (b : Block) (i : Nat) : Nat := b.number (b.slotStart i + 4) 2

def valueStart (b : Block) (i : Nat) : Nat := b.bytes.size - 40 - b.valueOffset i

def valueLength (b : Block) (i : Nat) : Nat := b.number (b.slotStart i + 6) 2

/-- Where the key and the value of an entry are, each as start and length. -/
def entryNumbers (b : Block) (i : Nat) : (Nat × Nat) × (Nat × Nat) :=
  ((b.keyStart i, b.keyLength i), (b.valueStart i, b.valueLength i))

end Block

namespace Node

/-- A field that admits one value only. -/
def fieldCheck (field : String) (value expected : Nat) : Check where
  holds := value = expected
  defect := .unsupported field (.ofNat value) (.ofNat expected)

/-- A region that has to be within the bytes that the regions before it leave. -/
def regionCheck (field : String) (value available : Nat) : Check where
  holds := value ≤ available
  defect := .regionTooLarge field (.ofNat value) (.ofNat available)

/-- A key or value that has to end inside the block. -/
def spanCheck (b : Block) (i : Nat) (field : String) (start length : Nat) : Check where
  holds := start + length ≤ b.bytes.size
  defect := .entryOutside (.ofNat i) field (.ofNat start) (.ofNat length) (.ofNat b.bytes.size)

def entryChecks (b : Block) (i : Nat) : List Check := [
  spanCheck b i "key" (b.keyStart i) (b.keyLength i),
  ⟨b.valueOffset i ≤ b.bytes.size - 40,
    .valueBeforeBlock (.ofNat i) (.ofNat (b.valueOffset i)) (.ofNat (b.bytes.size - 40))⟩,
  spanCheck b i "value" (b.valueStart i) (b.valueLength i)]

def regionChecks (b : Block) : List Check :=
  let available := b.bytes.size - 90
  [regionCheck "entries offset" b.entriesOffset available,
    regionCheck "entries size" b.entriesSize (available - b.entriesOffset),
    regionCheck "unused offset" b.unusedOffset (available - b.entriesOffset - b.entriesSize),
    regionCheck "unused size" b.unusedSize
      (available - b.entriesOffset - b.entriesSize - b.unusedOffset)]

def headerChecks (b : Block) : List Check := [
  ⟨b.bytes.size ≠ 0, .emptyBlock⟩,
  ⟨50 ≤ b.bytes.size, .truncated "B-tree header" 50 (.ofNat b.bytes.size)⟩,
  fieldCheck "object type" (b.number 24 4) 2,
  fieldCheck "object subtype" (b.number 28 4) 14,
  fieldCheck "B-tree header flags" (b.number 32 2) 3,
  ⟨90 ≤ b.bytes.size, .truncated "B-tree footer" 90 (.ofNat b.bytes.size)⟩]

def footerChecks (b : Block) : List Check := [
  fieldCheck "footer key size" (b.number (b.bytes.size - 32) 4) 0,
  fieldCheck "footer value size" (b.number (b.bytes.size - 28) 4) 0,
  ⟨b.entryCount ≤ b.entriesSize / 8,
    .tooManyEntries (.ofNat b.entryCount) (.ofNat (b.entriesSize / 8))⟩]

/-- The checks of a node in the order in which they are made. -/
def checks (b : Block) : List Check :=
  headerChecks b ++ regionChecks b ++ footerChecks b ++
    (List.range b.entryCount).flatMap (entryChecks b)

end Node

/-! ## The parts of the decoder -/

namespace NodeHeader

variable (h : NodeHeader)

/-- Where the entry table starts, which is counted from the end of the node header. -/
def tableStart : UInt64 := Node.headersSize + h.entriesOffset.toUInt64

/-- Where the entry table ends, and the keys may start. -/
def keysStart : UInt64 := h.tableStart + h.entriesSize.toUInt64

/-- Where a slot starts, as the decoder computes it. -/
def slotStart (i : Nat) : UInt64 := h.tableStart + .ofNat i * .ofNat (Record.size EntrySlot)

theorem toNat_tableStart : h.tableStart.toNat = 50 + h.entriesOffset.toNat := by
  have offset := h.entriesOffset.toNat_lt
  rw [tableStart, UInt64.toNat_add, UInt16.toNat_toUInt64]
  exact Nat.mod_eq_of_lt (show 50 + _ < 2 ^ 64 by omega)

theorem toNat_keysStart :
    h.keysStart.toNat = 50 + h.entriesOffset.toNat + h.entriesSize.toNat := by
  have offset := h.entriesOffset.toNat_lt
  have size := h.entriesSize.toNat_lt
  rw [keysStart, UInt64.toNat_add, UInt16.toNat_toUInt64, toNat_tableStart]
  exact Nat.mod_eq_of_lt (by omega)

theorem toNat_capacity : h.capacity.toNat = h.entriesSize.toNat / 8 := by
  rw [capacity, UInt64.toNat_div, UInt16.toNat_toUInt64]
  rfl

theorem toNat_keyStart (offset : UInt16) : (h.keysStart + offset.toUInt64).toNat
    = 50 + h.entriesOffset.toNat + h.entriesSize.toNat + offset.toNat := by
  have table := h.entriesOffset.toNat_lt
  have size := h.entriesSize.toNat_lt
  have small := offset.toNat_lt
  rw [UInt64.toNat_add, UInt16.toNat_toUInt64, toNat_keysStart]
  exact Nat.mod_eq_of_lt (by omega)

/-- An index that no entry table reaches leaves plenty of room for the numbers made of it. -/
theorem toNat_slotStart {i : Nat} (hi : i < 65536) :
    (h.slotStart i).toNat = 50 + h.entriesOffset.toNat + 8 * i := by
  have offset := h.entriesOffset.toNat_lt
  rw [slotStart, UInt64.toNat_add, UInt64.toNat_mul, toNat_tableStart, size_entrySlot,
    UInt64.toNat_ofNat', UInt64.toNat_ofNat']
  omega

end NodeHeader

namespace Node

variable {b : Block}

/-- Where the footer of a node starts, from which values are counted backward. -/
def footerStart (b : Block) : UInt64 := b.size - footerSize

@[simp] theorem toNat_headersSize : headersSize.toNat = 50 := rfl

@[simp] theorem toNat_footerSize : footerSize.toNat = 40 := rfl

@[simp] theorem toNat_minimumSize : minimumSize.toNat = 90 := rfl

theorem toNat_footerStart (h : 40 ≤ b.bytes.size) : (footerStart b).toNat = b.bytes.size - 40 := by
  have le : footerSize ≤ b.size := by
    rw [UInt64.le_iff_toNat_le, Block.toNat_size]
    exact h
  rw [footerStart, UInt64.toNat_sub_of_le _ _ le, Block.toNat_size]
  rfl

theorem expect_follows {field : String} {word supported : UInt64} {value expected : Nat}
    (hv : word.toNat = value) (he : supported.toNat = expected) :
    Follows (expect field word supported) [fieldCheck field value expected]
      fun _ => value = expected := by
  subst hv he
  refine (Follows.require ?_ ?_).mono fun _ h => congrArg UInt64.toNat h
  · simp [fieldCheck, UInt64.toNat_inj]
  · simp [fieldCheck]

theorem takeRegion_follows {field : String} {available : UInt64} {size : UInt16} {left taken : Nat}
    (ha : available.toNat = left) (hs : size.toNat = taken) :
    Follows (takeRegion available field size) [regionCheck field taken left]
      fun rest => taken ≤ left ∧ rest.toNat = left - taken := by
  subst ha hs
  have fits : size.toNat ≤ available.toNat ↔ size.toUInt64 ≤ available := by
    rw [UInt64.le_iff_toNat_le, UInt16.toNat_toUInt64]
  refine Follows.require_bind ?_ ?_ fun h => Follows.ok ⟨fits.mpr h, ?_⟩
  · simp [regionCheck, fits]
  · simp [regionCheck]
  · show (available - size.toUInt64).toNat = _
    rw [UInt64.toNat_sub_of_le _ _ h, UInt16.toNat_toUInt64]

theorem locate_follows {i : Nat} {field : String} {start length : UInt64} {s l : Nat}
    (hs : start.toNat = s) (hl : length.toNat = l) :
    Follows (locate b (.ofNat i) field start length) [spanCheck b i field s l]
      fun r => r.val.numbers = (s, l) := by
  subst hs hl
  rw [locate, Span.fitM_eq_ok]
  show Follows (Defect.demand (Span.inside? start length b.size) _) _ _
  have fits := Span.fits_iff start length b.size
  rw [Block.toNat_size] at fits
  rw [Span.inside?_eq]
  split
  case isTrue h => exact .passed (by simp [firstDefect?_cons, spanCheck, fits.mp h]) rfl
  case isFalse h =>
    refine .failed ?_
    simp [firstDefect?_cons, spanCheck, mt fits.mpr h, Block.size]

theorem valueStart_follows {i offset : Nat} {slot : EntrySlot} (footer : 40 ≤ b.bytes.size)
    (h : slot.valueOffset.toNat = offset) :
    Follows (valueStart (footerStart b) (.ofNat i) slot)
      [⟨offset ≤ b.bytes.size - 40,
        .valueBeforeBlock (.ofNat i) (.ofNat offset) (.ofNat (b.bytes.size - 40))⟩]
      fun start => start.toNat = b.bytes.size - 40 - offset := by
  subst h
  have inside : slot.valueOffset.toNat ≤ b.bytes.size - 40 ↔
      slot.valueOffset.toUInt64 ≤ footerStart b := by
    rw [UInt64.le_iff_toNat_le, UInt16.toNat_toUInt64, toNat_footerStart footer]
  have start : UInt64.ofNat (b.bytes.size - 40) = footerStart b := by
    rw [← toNat_footerStart footer, UInt64.ofNat_toNat]
  refine Follows.require_bind ?_ ?_ fun h => Follows.ok ?_
  · simp [inside]
  · simp [start]
  · show (footerStart b - slot.valueOffset.toUInt64).toNat = _
    rw [UInt64.toNat_sub_of_le _ _ h, UInt16.toNat_toUInt64, toNat_footerStart footer]

end Node

end Apfs
