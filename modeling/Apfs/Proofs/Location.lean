import Mathlib.Algebra.Ring.Nat
import Apfs.Location

/-!
# Locations as numbers

A numbered block has a location exactly if its offset in the source, computed without bounds, is
a machine word, and the location then has that offset.
-/

namespace Apfs

theorem mul_fits_iff (a b : UInt64) :
    b = 0 ∨ a ≤ .ofNat (UInt64.size - 1) / b ↔ a.toNat * b.toNat < 2 ^ 64 := by
  have zero : b = 0 ↔ b.toNat = 0 := UInt64.toNat_inj.symm
  rw [zero, UInt64.le_iff_toNat_le, UInt64.toNat_div, UInt64.toNat_ofNat']
  by_cases h : b.toNat = 0
  · simp [h]
  · have positive : 0 < b.toNat := by omega
    have size : UInt64.size = 2 ^ 64 := rfl
    rw [Nat.le_div_iff_mul_le positive]
    omega

theorem checkedMul?_eq (a b : UInt64) :
    checkedMul? a b
      = if a.toNat * b.toNat < 2 ^ 64 then some (.ofNat (a.toNat * b.toNat)) else none := by
  simp only [checkedMul?, mul_fits_iff]
  split
  case isTrue => simp
  case isFalse => rfl

theorem checkedAdd?_eq (a b : UInt64) :
    checkedAdd? a b
      = if a.toNat + b.toNat < 2 ^ 64 then some (.ofNat (a.toNat + b.toNat)) else none := by
  have fits : a ≤ a + b ↔ a.toNat + b.toNat < 2 ^ 64 := by
    have := a.toNat_lt
    have := b.toNat_lt
    rw [UInt64.le_iff_toNat_le, UInt64.toNat_add]
    omega
  simp only [checkedAdd?, fits]
  split
  case isTrue => simp
  case isFalse => rfl

theorem Location.ofBlock?_eq (volumeOffset number : UInt64) (blockSize : UInt32) :
    ofBlock? volumeOffset number blockSize
      = if volumeOffset.toNat + number.toNat * blockSize.toNat < 2 ^ 64 then
          some ⟨.ofNat (volumeOffset.toNat + number.toNat * blockSize.toNat), blockSize⟩
        else none := by
  rw [ofBlock?, checkedMul?_eq, UInt32.toNat_toUInt64]
  by_cases product : number.toNat * blockSize.toNat < 2 ^ 64
  · rw [if_pos product, Option.bind_eq_bind, Option.bind_some, checkedAdd?_eq,
      UInt64.toNat_ofNat_of_lt' product, Nat.add_comm]
    split
    case isTrue => rfl
    case isFalse => rfl
  · have sum : ¬ volumeOffset.toNat + number.toNat * blockSize.toNat < 2 ^ 64 := by omega
    rw [if_neg product, if_neg sum]
    rfl

theorem Location.isSome_ofBlock?_iff (volumeOffset number : UInt64) (blockSize : UInt32) :
    (ofBlock? volumeOffset number blockSize).isSome ↔
      volumeOffset.toNat + number.toNat * blockSize.toNat < 2 ^ 64 := by
  rw [ofBlock?_eq]
  exact Option.isSome_ite

theorem Location.ofBlock?_eq_some_iff {volumeOffset number : UInt64} {blockSize : UInt32}
    {l : Location} : ofBlock? volumeOffset number blockSize = some l ↔
      l.offset.toNat = volumeOffset.toNat + number.toNat * blockSize.toNat ∧
        l.blockSize = blockSize := by
  rw [ofBlock?_eq, Option.ite_none_right_eq_some, Option.some.injEq]
  constructor
  · rintro ⟨fits, rfl⟩
    exact ⟨UInt64.toNat_ofNat_of_lt' fits, rfl⟩
  · rintro ⟨offset, rfl⟩
    refine ⟨offset ▸ l.offset.toNat_lt, ?_⟩
    rw [← offset, UInt64.ofNat_toNat]

end Apfs
