import Mathlib.Logic.ExistsUnique
import Apfs.Proofs.Agreement
import Apfs.Proofs.Fletcher64
import Apfs.Proofs.ObjectChecksum

/-!
# Two ways to check an object

The stored checksum can be compared with that of the other bytes, or it can be put behind them, as
the two check words that make both sums zero. Both ways accept the same objects, except that the
second cannot tell a zero word from the largest one. Of all values that can be stored in an object
just one makes it verify, and this is what sealing stores.
-/

namespace Apfs

namespace LittleEndian

theorem value_append (as bs : List UInt8) :
    value (as ++ bs) = value as + 256 ^ as.length * value bs := by
  induction as with
  | nil => simp [value]
  | cons a as ih =>
    rw [List.cons_append, value, value, ih, List.length_cons, Nat.pow_succ]
    grind

end LittleEndian

namespace Fletcher64

theorem words_append {as : List UInt8} (whole : 4 ∣ as.length) (bs : List UInt8) :
    words (as ++ bs) = words as ++ words bs := by
  fun_induction words as with
  | case1 a b c d as ih =>
    have rest : 4 ∣ as.length := by grind
    simp [words, ih rest]
  | case2 as short =>
    have empty : as = [] := by
      rcases as with _ | ⟨a, _ | ⟨b, _ | ⟨c, _ | ⟨d, as⟩⟩⟩⟩
      · rfl
      · simp at whole
      · simp at whole
      · simp at whole
      · exact absurd rfl (short a b c d as)
    simp [empty]

/-- The sums of a checksum without zero bits are zero. -/
theorem fletcher64_eq_max_iff (bs : List UInt8) :
    fletcher64 bs = 0xffffffffffffffff ↔ (words bs).foldl Sums.add .zero = .zero := by
  have max : fletcher64 [] = 0xffffffffffffffff := by decide
  rw [← max, fletcher64_eq_iff]
  rfl

theorem Sums.eq_zero_iff (s : Sums) : s = .zero ↔ s.first.toNat = 0 ∧ s.second.toNat = 0 := by
  constructor
  · rintro rfl
    exact ⟨rfl, rfl⟩
  · rintro ⟨first, second⟩
    exact Sums.eq_of_toNat_eq first second

/-- The check words are the only ones other than zero that make both sums zero. -/
theorem Sums.Reduced.add_add_eq_zero_iff {s : Sums} (h : s.Reduced) (low high : UInt32) :
    (s.add low).add high = .zero ∧ low.toNat ≠ 0 ∧ high.toNat ≠ 0 ↔
      low.toNat = s.lowCheck ∧ high.toNat = s.highCheck := by
  have := h.first
  have := h.second
  have := low.toNat_lt
  have := high.toNat_lt
  rw [eq_zero_iff, (h.add low).second_add, (h.add low).first_add, h.second_add, h.first_add,
    highCheck, lowCheck]
  constructor
  · rintro ⟨⟨first, second⟩, lowPos, highPos⟩
    constructor <;> omega
  · rintro ⟨hl, hh⟩
    refine ⟨⟨?_, ?_⟩, ?_, ?_⟩ <;> omega

end Fletcher64

namespace Block

variable {b : Block}

theorem size_stored_lt (b : Block) (sum : UInt64) :
    ((LittleEndian.bytes checksumSize sum.toNat).toByteArray ++
      b.bytes.extract checksumSize b.bytes.size).size < UInt64.size := by
  have := b.size_lt
  have : checksumSize < UInt64.size := by decide
  simp only [ByteArray.size_append, List.size_toByteArray, LittleEndian.length_bytes,
    ByteArray.size_extract]
  omega

/-- The block with another checksum stored in it. -/
def withChecksum (b : Block) (sum : UInt64) : Block where
  bytes := (LittleEndian.bytes checksumSize sum.toNat).toByteArray ++
    b.bytes.extract checksumSize b.bytes.size
  size_lt := size_stored_lt b sum

theorem toList_withChecksum (b : Block) (sum : UInt64) :
    (b.withChecksum sum).toList = LittleEndian.bytes 8 sum.toNat ++ b.toList.drop 8 := by
  simp [withChecksum, toList, checksumSize, List.take_of_length_le]

theorem size_withChecksum (room : 8 ≤ b.bytes.size) (sum : UInt64) :
    (b.withChecksum sum).bytes.size = b.bytes.size := by
  rw [← length_toList, toList_withChecksum, List.length_append, LittleEndian.length_bytes,
    List.length_drop, length_toList]
  omega

/-- One value that can be stored makes the block verify. -/
theorem verifyChecksum_withChecksum_iff (room : 32 ≤ b.bytes.size) (sum : UInt64) :
    (b.withChecksum sum).verifyChecksum = .ok () ↔ sum = b.coveredChecksum := by
  obtain ⟨stored, covered⟩ := number_zero_and_coveredChecksum (toList_withChecksum b sum)
  rw [verifyChecksum_eq_ok_iff, size_withChecksum (by omega), stored, covered, UInt64.toNat_inj]
  exact and_iff_right room

theorem drop_sealed (b : Block) : b.sealed.toList.drop 8 = b.toList.drop 8 := by
  rw [toList_sealed]
  exact List.drop_left' (LittleEndian.length_bytes 8 _)

theorem sealed_sealed (b : Block) : b.sealed.sealed = b.sealed := by
  apply eq_of_toList_eq
  have covered : b.sealed.coveredChecksum = b.coveredChecksum := by
    rw [coveredChecksum, coveredChecksum, checksumSize, drop_sealed]
  rw [toList_sealed, covered, drop_sealed, ← toList_sealed]

theorem sealed_eq_self (verified : b.verifyChecksum = .ok ()) : b.sealed = b := by
  obtain ⟨room, stored⟩ := verifyChecksum_eq_ok_iff.mp verified
  apply eq_of_toList_eq
  have first : LittleEndian.bytes 8 (b.number 0 8) = b.toList.take 8 := bytes_number (by omega)
  rw [toList_sealed, ← stored, first, List.take_append_drop]

/-! ## The check words behind the data -/

theorem number_zero_eight (room : 8 ≤ b.bytes.size) :
    b.number 0 8 = b.number 0 4 + 2 ^ 32 * b.number 4 4 := by
  have split : b.slice 0 8 = b.slice 0 4 ++ b.slice 4 4 := slice_add b 0 4 4
  rw [number, split, LittleEndian.value_append, length_slice_of_le (by omega)]
  rfl

theorem words_take (room : 8 ≤ b.bytes.size) :
    Fletcher64.words (b.toList.take 8) = [.ofNat (b.number 0 4), .ofNat (b.number 4 4)] := by
  have length : (b.toList.take 8).length = 8 := by grind [length_toList]
  have low : (b.toList.take 8).take 4 = b.slice 0 4 := by
    simp [slice, List.take_take]
  have high : ((b.toList.take 8).drop 4).take 4 = b.slice 4 4 := by
    simp [slice, List.drop_take, List.take_take]
  rw [Fletcher64.words_eq_map_range, length]
  simp [List.range_succ, low, high, number]

/-- An object of whole words verifies if and only if its check words cancel the sums of the bytes
that they are put behind and neither is zero. -/
theorem verifyChecksum_iff_cancels (room : 32 ≤ b.bytes.size) (aligned : 4 ∣ b.bytes.size) :
    b.verifyChecksum = .ok () ↔
      fletcher64 (b.toList.drop 8 ++ b.toList.take 8) = 0xffffffffffffffff ∧
        b.number 0 4 ≠ 0 ∧ b.number 4 4 ≠ 0 := by
  have whole : 4 ∣ (b.toList.drop 8).length := by
    rw [List.length_drop, length_toList]
    omega
  have lowBound : b.number 0 4 < 2 ^ 32 := b.number_lt 0 4
  have highBound : b.number 4 4 < 2 ^ 32 := b.number_lt 4 4
  have reduced := Fletcher64.foldl_words_reduced (Fletcher64.words (b.toList.drop 8))
    Fletcher64.Sums.zero_reduced
  have cancels := reduced.add_add_eq_zero_iff (.ofNat (b.number 0 4)) (.ofNat (b.number 4 4))
  rw [UInt32.toNat_ofNat_of_lt' lowBound, UInt32.toNat_ofNat_of_lt' highBound] at cancels
  rw [Fletcher64.fletcher64_eq_max_iff, Fletcher64.words_append whole, words_take (by omega),
    List.foldl_append, List.foldl_cons, List.foldl_cons, List.foldl_nil, cancels,
    verifyChecksum_eq_ok_iff, number_zero_eight (by omega), coveredChecksum, checksumSize,
    Fletcher64.fletcher64_eq, reduced.toNat_check]
  generalize (Fletcher64.words (b.toList.drop 8)).foldl Fletcher64.Sums.add .zero = s
  have low : s.lowCheck ≤ 4294967295 := Nat.sub_le ..
  constructor
  · rintro ⟨-, stored⟩
    omega
  · rintro ⟨hl, hh⟩
    omega

/-- Both ways to check an object of whole words agree, one value stored in an object of any size
makes it verify, and sealing stores that value and changes nothing else. -/
theorem verifyChecksum_either_way (room : 32 ≤ b.bytes.size) :
    (4 ∣ b.bytes.size → (b.verifyChecksum = .ok () ↔
      fletcher64 (b.toList.drop 8 ++ b.toList.take 8) = 0xffffffffffffffff ∧
        b.number 0 4 ≠ 0 ∧ b.number 4 4 ≠ 0)) ∧
    (∃! sum, (b.withChecksum sum).verifyChecksum = .ok ()) ∧
    b.sealed = b.withChecksum (fletcher64 (b.toList.drop 8)) ∧
    b.sealed.verifyChecksum = .ok () ∧
    b.sealed.toList.drop 8 = b.toList.drop 8 ∧ b.sealed.bytes.size = b.bytes.size ∧
    b.sealed.sealed = b.sealed ∧
    (b.verifyChecksum = .ok () → b.sealed = b) := by
  have unique := verifyChecksum_withChecksum_iff room
  refine ⟨verifyChecksum_iff_cancels room, ?_, rfl, verifyChecksum_sealed room, drop_sealed b,
    size_sealed (by omega), sealed_sealed b, sealed_eq_self⟩
  refine ⟨b.coveredChecksum, (unique _).mpr rfl, ?_⟩
  intro sum verified
  exact (unique sum).mp verified

/-- The bytes from zero on, of which the first eight are not the checksum of the others. -/
def ramp : Block where
  bytes := ((List.range 36).map UInt8.ofNat).toByteArray
  size_lt := by simp; decide

theorem verifyChecksum_ramp :
    32 ≤ ramp.bytes.size ∧ ramp.verifyChecksum ≠ .ok () ∧
      (∃! sum, (ramp.withChecksum sum).verifyChecksum = .ok ()) ∧
      ramp.sealed.verifyChecksum = .ok () ∧
      fletcher64 (ramp.sealed.toList.drop 8 ++ ramp.sealed.toList.take 8) = 0xffffffffffffffff := by
  obtain ⟨-, unique, -, verified, -⟩ := verifyChecksum_either_way (b := ramp) (by decide)
  obtain ⟨cancels, -⟩ := verifyChecksum_either_way (b := ramp.sealed) (by decide)
  exact ⟨by decide, by decide, unique, verified, ((cancels ⟨9, rfl⟩).mp verified).1⟩

end Block

end Apfs
