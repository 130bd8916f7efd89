import Mathlib.Algebra.Ring.Nat
import Apfs.LittleEndian

/-!
# Little-endian numbers within a width

A byte string of a given width denotes a number below a power of 256, and writing a number at a
width keeps all of it if it is below that power. So numbers within a width are told apart by
their bytes.
-/

namespace Apfs.LittleEndian

theorem value_lt (bs : List UInt8) : value bs < 256 ^ bs.length := by
  induction bs with
  | nil => simp [value]
  | cons b bs ih =>
    have := b.toNat_lt
    simp only [value, List.length_cons, Nat.pow_succ]
    omega

theorem value_bytes (width n : Nat) : value (bytes width n) = n % 256 ^ width := by
  induction width generalizing n with
  | zero => simp [bytes, value, Nat.mod_one]
  | succ width ih =>
    rw [bytes, value, ih, Nat.pow_succ, Nat.mul_comm (256 ^ width), Nat.mod_mul]
    simp

theorem bytes_append_inj {width m n : Nat} {s t : List UInt8} :
    bytes width m ++ s = bytes width n ++ t ↔ bytes width m = bytes width n ∧ s = t := by
  constructor
  · intro h
    exact List.append_inj h (by simp)
  · rintro ⟨h, rfl⟩
    rw [h]

theorem bytes_inj {width m n : Nat} (hm : m < 256 ^ width) (hn : n < 256 ^ width) :
    bytes width m = bytes width n ↔ m = n := by
  constructor
  · intro h
    rw [← Nat.mod_eq_of_lt hm, ← Nat.mod_eq_of_lt hn, ← value_bytes, ← value_bytes, h]
  · rintro rfl
    rfl

theorem bytes_toNat_inj16 {m n : UInt16} : bytes 2 m.toNat = bytes 2 n.toNat ↔ m = n := by
  rw [bytes_inj m.toNat_lt n.toNat_lt, UInt16.toNat_inj]

theorem bytes_toNat_inj32 {m n : UInt32} : bytes 4 m.toNat = bytes 4 n.toNat ↔ m = n := by
  rw [bytes_inj m.toNat_lt n.toNat_lt, UInt32.toNat_inj]

theorem bytes_toNat_inj64 {m n : UInt64} : bytes 8 m.toNat = bytes 8 n.toNat ↔ m = n := by
  rw [bytes_inj m.toNat_lt n.toNat_lt, UInt64.toNat_inj]

end Apfs.LittleEndian
