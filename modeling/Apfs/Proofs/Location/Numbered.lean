import Mathlib.Order.CompletePartialOrder
import Mathlib.Order.Interval.Set.Disjoint
import Apfs.Proofs.Location
import Apfs.Proofs.Source.Session

/-!
# Numbered blocks

The blocks of a volume lie one behind the other. If one of them has a location, then so have all
blocks of lower numbers, and these end before it starts. So no two numbers stand for blocks that
overlap, and a write inside one of them does not show in what is read from another.
-/

namespace Apfs

/-- The positions in a source that the block at a location takes up. -/
def Location.extent (l : Location) : Set Nat :=
  Set.Ico l.offset.toNat (l.offset.toNat + l.blockSize.toNat)

namespace Location

variable {volumeOffset m n : UInt64} {blockSize : UInt32} {k l : Location}

/-! ## Order -/

/-- A later number leaves room for the whole block before its own. -/
theorem offset_add_le (before : m < n) (size : Nat) :
    m.toNat * size + size ≤ n.toNat * size := by
  rw [← Nat.succ_mul]
  exact Nat.mul_le_mul_right size (UInt64.lt_iff_toNat_lt.mp before)

/-- The blocks before one that has a location have locations too, and they end before it. -/
theorem exists_ofBlock?_of_lt (before : m < n)
    (later : ofBlock? volumeOffset n blockSize = some l) :
    ∃ k, ofBlock? volumeOffset m blockSize = some k ∧
      k.offset.toNat + blockSize.toNat ≤ l.offset.toNat := by
  obtain ⟨offset, -⟩ := ofBlock?_eq_some_iff.mp later
  have room := offset_add_le before blockSize.toNat
  -- The later offset is a machine word, and bounds the earlier one.
  have bound := l.offset.toNat_lt
  have fits : (ofBlock? volumeOffset m blockSize).isSome :=
    (isSome_ofBlock?_iff ..).mpr (by omega)
  obtain ⟨k, earlier⟩ := Option.isSome_iff_exists.mp fits
  obtain ⟨start, -⟩ := ofBlock?_eq_some_iff.mp earlier
  exact ⟨k, earlier, by omega⟩

/-! ## Extents -/

theorem disjoint_extent_of_lt (before : m < n) (first : ofBlock? volumeOffset m blockSize = some k)
    (second : ofBlock? volumeOffset n blockSize = some l) : Disjoint k.extent l.extent := by
  obtain ⟨k', first', ends⟩ := exists_ofBlock?_of_lt before second
  obtain rfl := Option.some.inj (first'.symm.trans first)
  obtain ⟨-, rfl⟩ := ofBlock?_eq_some_iff.mp first
  rw [extent, extent, Set.Ico_disjoint_Ico]
  omega

theorem disjoint_extent (other : m ≠ n) (first : ofBlock? volumeOffset m blockSize = some k)
    (second : ofBlock? volumeOffset n blockSize = some l) : Disjoint k.extent l.extent := by
  obtain before | before := UInt64.lt_or_lt_of_ne other
  · exact disjoint_extent_of_lt before first second
  · exact (disjoint_extent_of_lt before second first).symm

/-- A numbered block has a location exactly if its offset, computed without bounds, is a machine
word, and the location has that offset. Of two numbered blocks the first ends before the second
starts, and different ones have nothing in common. -/
theorem exact_and_apart (volumeOffset : UInt64) (blockSize : UInt32) :
    (∀ number, (ofBlock? volumeOffset number blockSize).isSome ↔
      volumeOffset.toNat + number.toNat * blockSize.toNat < 2 ^ 64) ∧
    (∀ number l, ofBlock? volumeOffset number blockSize = some l ↔
      l.offset.toNat = volumeOffset.toNat + number.toNat * blockSize.toNat ∧
        l.blockSize = blockSize) ∧
    (∀ m n l, m < n → ofBlock? volumeOffset n blockSize = some l →
      ∃ k, ofBlock? volumeOffset m blockSize = some k ∧
        k.offset.toNat + blockSize.toNat ≤ l.offset.toNat) ∧
    ∀ m n k l, m ≠ n → ofBlock? volumeOffset m blockSize = some k →
      ofBlock? volumeOffset n blockSize = some l → Disjoint k.extent l.extent :=
  ⟨fun number => isSome_ofBlock?_iff volumeOffset number blockSize,
    fun _ _ => ofBlock?_eq_some_iff,
    fun _ _ _ before later => exists_ofBlock?_of_lt before later,
    fun _ _ _ _ other first second => disjoint_extent other first second⟩

/-- The offset of the second block is the last machine word. -/
theorem exact_and_apart_lastOffset : ∃ k l,
    ofBlock? 4095 4503599627370494 4096 = some k ∧ ofBlock? 4095 4503599627370495 4096 = some l ∧
      l.offset.toNat = 2 ^ 64 - 1 ∧ k.offset.toNat + 4096 ≤ l.offset.toNat ∧
      Disjoint k.extent l.extent ∧ ofBlock? 4095 4503599627370496 4096 = none := by
  obtain ⟨-, offsets, earlier, apart⟩ := exact_and_apart 4095 4096
  have last : ofBlock? 4095 4503599627370495 4096 = some ⟨18446744073709551615, 4096⟩ := by decide
  obtain ⟨k, before, ends⟩ := earlier 4503599627370494 _ _ (by decide) last
  exact ⟨k, _, before, last, ((offsets _ _).mp last).1, ends,
    apart _ _ _ _ (by decide) before last, by decide⟩

/-- Blocks without bytes are all at the start of the volume, whatever their numbers. -/
example : ofBlock? 7 18446744073709551615 0 = some ⟨7, 0⟩ := by decide

end Location

/-! ## Reading -/

variable {volumeOffset m n : UInt64} {blockSize : UInt32} {l : Location} {bytes new : ByteArray}
  {offset : Nat}

/-- A block is read from its extent, so that bytes written elsewhere leave it as it is. -/
theorem blockAt_overwrite (apart : Disjoint (Set.Ico offset (offset + new.size)) l.extent) :
    blockAt (overwrite bytes offset new) l.offset l.blockSize
      = blockAt bytes l.offset l.blockSize := by
  rw [Location.extent, Set.Ico_disjoint_Ico] at apart
  have same : (overwrite bytes offset new).extract l.offset.toNat
        (l.offset.toNat + l.blockSize.toNat)
      = bytes.extract l.offset.toNat (l.offset.toNat + l.blockSize.toNat) := by
    apply ByteArray.ext_getElem
    · rw [ByteArray.size_extract, ByteArray.size_extract, size_overwrite]
    · intro i hi inside
      rw [ByteArray.size_extract] at inside
      rw [ByteArray.getElem_extract, ByteArray.getElem_extract,
        getElem_overwrite _ (by omega), dif_neg (by omega)]
  simp only [blockAt, size_overwrite, same]

/-- What is written inside one numbered block does not show in what is read from another. -/
theorem Step.answer_overwrite_of_ne (other : m ≠ n) {k : Location}
    (located : Location.ofBlock? volumeOffset m blockSize = some k)
    (inside : Set.Ico offset (offset + new.size) ⊆ k.extent) (verify : Bool) :
    (readNumbered volumeOffset n blockSize verify).answer (overwrite bytes offset new)
      = (readNumbered volumeOffset n blockSize verify).answer bytes := by
  unfold answer
  dsimp only
  split
  case isFalse => rfl
  case isTrue fits =>
    have read : Location.ofBlock? volumeOffset n blockSize
        = some ⟨.ofNat (volumeOffset.toNat + n.toNat * blockSize.toNat), blockSize⟩ := by
      rw [Location.ofBlock?_eq, if_pos fits]
    have apart := (Location.disjoint_extent other located read).mono_left inside
    rw [nodeIn, nodeIn, blockIn, blockIn, blockAt_overwrite apart]

end Apfs
