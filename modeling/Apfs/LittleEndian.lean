/-!
# Little-endian numbers

A byte string denotes the number whose least significant byte comes first. `value` reads that
number and `bytes` writes it at a given width, and each undoes the other within the width.
-/

namespace Apfs.LittleEndian

/-- The number that a byte string denotes. -/
def value : List UInt8 → Nat
  | [] => 0
  | b :: bs => b.toNat + 256 * value bs

/-- The `width` low bytes of a number. -/
def bytes : Nat → Nat → List UInt8
  | 0, _ => []
  | width + 1, n => .ofNat n :: bytes width (n / 256)

@[simp] theorem length_bytes (width n : Nat) : (bytes width n).length = width := by
  induction width generalizing n with
  | zero => rfl
  | succ width ih => simp [bytes, ih]

theorem bytes_value (bs : List UInt8) : bytes bs.length (value bs) = bs := by
  induction bs with
  | nil => rfl
  | cons b bs ih =>
    have hb := b.toNat_lt
    have low : UInt8.ofNat (b.toNat + 256 * value bs) = b := by
      apply UInt8.toNat_inj.mp
      simp only [UInt8.toNat_ofNat']
      omega
    have high : (b.toNat + 256 * value bs) / 256 = value bs := by omega
    simp only [List.length_cons, value, bytes, low, high, ih]

theorem value_injective {as bs : List UInt8} (length : as.length = bs.length)
    (h : value as = value bs) : as = bs := by
  rw [← bytes_value as, ← bytes_value bs, length, h]

end Apfs.LittleEndian
