import Apfs.LocatedNode
import Apfs.Proofs.Agreement
import Apfs.Proofs.Fletcher64
import Apfs.Proofs.ObjectChecksum

/-!
# Tampering with a sealed object

A block that verifies no longer does so after a change of its stored checksum, nor after a change
of one or two neighbouring words of the bytes that the checksum covers. The one change that the
checksum cannot see is between the word zero and the largest word, which are the same for sums
modulo the largest. A single byte cannot make that change.
-/

namespace Apfs

open Fletcher64 (residue words)

namespace Block

variable {a b : Block} {i : Nat}

/-- A word of the bytes that the checksum covers. -/
def coveredWord (b : Block) (k : Nat) : Nat := b.number (checksumSize + 4 * k) 4

/-- One of the words is zero and the other the largest word. -/
def Twins (m n : Nat) : Prop := m = 0 ∧ n = 0xffffffff ∨ m = 0xffffffff ∧ n = 0

/-- The covered words that the blocks do not share go between zero and the largest word. -/
def DifferInTwins (a b : Block) : Prop :=
  ∀ k, a.coveredWord k ≠ b.coveredWord k → Twins (a.coveredWord k) (b.coveredWord k)

def storedChecksum (b : Block) : UInt64 := .ofNat (b.number 0 8)

/-- The stored checksum is not the one of the other bytes, and verification reports so, whatever
else is wrong with the block. -/
structure Refused (b : Block) : Prop where
  mismatch : b.storedChecksum ≠ b.coveredChecksum
  verify : b.verifyChecksum = .error (.checksumMismatch b.storedChecksum b.coveredChecksum)
  decode (location : Location) : LocatedNode.decode location b true
    = .error (.decode location (.checksumMismatch b.storedChecksum b.coveredChecksum))

theorem coveredWord_lt (b : Block) (k : Nat) : b.coveredWord k < 2 ^ 32 := b.number_lt _ 4

theorem words_covered (b : Block) :
    words (b.toList.drop checksumSize)
      = (List.range ((b.bytes.size - 8) / 4)).map fun k => .ofNat (b.coveredWord k) := by
  rw [Fletcher64.words_eq_map_range, List.length_drop, length_toList]
  apply List.map_congr_left
  intro k _
  rw [List.drop_drop]
  rfl

theorem residue_eq_iff {m n : Nat} (hm : m < 2 ^ 32) (hn : n < 2 ^ 32) :
    residue (.ofNat m) = residue (.ofNat n) ↔ (m ≠ n → Twins m n) := by
  rw [residue, residue, UInt32.toNat_ofNat_of_lt' hm, UInt32.toNat_ofNat_of_lt' hn, Twins]
  omega

/-- What lies behind the last whole word of a block of whole words is nothing. -/
theorem coveredWord_eq_zero (aligned : 4 ∣ b.bytes.size) {k : Nat}
    (behind : (b.bytes.size - 8) / 4 ≤ k) : b.coveredWord k = 0 := by
  have empty : b.bytes.size ≤ checksumSize + 4 * k := by
    rw [checksumSize]
    omega
  rw [coveredWord, number, slice_eq_nil empty, LittleEndian.value]

/-- Changes of no more than two neighbouring words keep the checksum only as changes between twins
do. -/
theorem coveredChecksum_eq_iff (aligned : 4 ∣ a.bytes.size)
    (h : a.AgreeOutside b (checksumSize + 4 * i) (checksumSize + 4 * i + 8)) :
    a.coveredChecksum = b.coveredChecksum ↔ a.DifferInTwins b := by
  have others : ∀ k, k < i ∨ i + 2 ≤ k → a.coveredWord k = b.coveredWord k := by
    intro k hk
    exact h.number_eq (by omega)
  have wordsA := words_covered a
  have wordsB := words_covered b
  rw [h.size] at wordsB
  rw [coveredChecksum, coveredChecksum, Fletcher64.fletcher64_eq_iff,
    Fletcher64.Sums.zero_reduced.foldl_add_eq_iff i, wordsA, wordsB, List.map_map, List.map_map,
    List.map_inj_left]
  · constructor
    · intro residues k changed
      by_cases hk : k < (a.bytes.size - 8) / 4
      · have same := residues k (List.mem_range.mpr hk)
        exact (residue_eq_iff (coveredWord_lt a k) (coveredWord_lt b k)).mp same changed
      · have zero := coveredWord_eq_zero aligned (Nat.le_of_not_lt hk)
        have zero' := coveredWord_eq_zero (h.size ▸ aligned) (k := k) (by rw [h.size]; omega)
        exact absurd (zero.trans zero'.symm) changed
    · intro twins k _
      exact (residue_eq_iff (coveredWord_lt a k) (coveredWord_lt b k)).mpr (twins k)
  · rw [wordsA, wordsB, List.length_map, List.length_map]
  · intro k hk
    rw [wordsA, wordsB, List.getElem?_map, List.getElem?_map]
    by_cases inside : k < (a.bytes.size - 8) / 4
    · rw [List.getElem?_range inside, Option.map_some, Option.map_some, others k hk]
    · rw [List.getElem?_eq_none (by simpa using inside), Option.map_none, Option.map_none]

/-- What is refused is a block with room for a header whose stored checksum is not the one of its
other bytes. -/
theorem refused_of_ne (room : 32 ≤ b.bytes.size) (h : b.number 0 8 ≠ b.coveredChecksum.toNat) :
    b.Refused := by
  have stored : b.number 0 8 < 2 ^ 64 := b.number_lt 0 8
  have error : b.verifyChecksum
      = .error (.checksumMismatch b.storedChecksum b.coveredChecksum) := by
    rw [(verifyChecksum_follows b).eq_error_iff]
    have nonempty : b.bytes.size ≠ 0 := by omega
    simp [checksumChecks, firstDefect?_cons, nonempty, room, h, storedChecksum]
  constructor
  case mismatch =>
    intro same
    apply h
    rw [← same, storedChecksum, UInt64.toNat_ofNat_of_lt' stored]
  case verify => exact error
  case decode =>
    intro location
    rw [LocatedNode.decode, error]
    rfl

section Tampered

variable (verified : a.verifyChecksum = .ok ())

include verified

theorem refused_of_stored_changed (h : a.AgreeOutside b 0 checksumSize) (changed : b ≠ a) :
    b.Refused := by
  obtain ⟨room, stored⟩ := verifyChecksum_eq_ok_iff.mp verified
  have covered : b.coveredChecksum = a.coveredChecksum := by
    have same : b.toList.drop checksumSize = a.toList.drop checksumSize := by
      apply List.ext_getElem?
      intro k
      rw [List.getElem?_drop, List.getElem?_drop, h.getElem?_eq (by omega)]
    rw [coveredChecksum, coveredChecksum, same]
  refine refused_of_ne (h.size ▸ room) fun same => changed ?_
  rw [covered, ← stored] at same
  exact (h.eq (slice_eq_of_number_eq h.size same.symm)).symm

/-- Nothing but a change between twins goes unseen in two neighbouring words. -/
theorem verify_of_words_changed (aligned : 4 ∣ a.bytes.size)
    (h : a.AgreeOutside b (checksumSize + 4 * i) (checksumSize + 4 * i + 8)) :
    (a.DifferInTwins b → b.verifyChecksum = .ok ()) ∧ (¬ a.DifferInTwins b → b.Refused) := by
  obtain ⟨room, stored⟩ := verifyChecksum_eq_ok_iff.mp verified
  have kept : a.number 0 8 = b.number 0 8 := h.number_eq (by rw [checksumSize]; omega)
  rw [kept] at stored
  rw [← h.size] at room
  rw [← coveredChecksum_eq_iff aligned h]
  constructor
  · intro same
    rw [same] at stored
    exact verifyChecksum_eq_ok_iff.mpr ⟨room, stored⟩
  · intro differ
    refine refused_of_ne room fun same => differ ?_
    exact UInt64.toNat_inj.mp (stored.symm.trans same)

end Tampered

/-- Twins have no byte in common. -/
theorem not_twins_of_byte_eq (size : b.bytes.size = a.bytes.size)
    (room : checksumSize + 4 * i + 4 ≤ a.bytes.size) {j : Nat} (hj : j < 4)
    (same : a.toList[checksumSize + 4 * i + j]? = b.toList[checksumSize + 4 * i + j]?) :
    ¬ Twins (a.coveredWord i) (b.coveredWord i) := by
  have bytesA := bytes_number room
  have bytesB := bytes_number (size ▸ room)
  have byte : (a.slice (checksumSize + 4 * i) 4)[j]? = (b.slice (checksumSize + 4 * i) 4)[j]? := by
    rw [getElem?_slice, getElem?_slice, if_pos hj, if_pos hj, same]
  rw [← bytesA, ← bytesB, ← coveredWord, ← coveredWord] at byte
  rintro (⟨first, second⟩ | ⟨first, second⟩)
  all_goals
    rw [first, second] at byte
    revert byte
    match j, hj with
    | 0, _ | 1, _ | 2, _ | 3, _ => decide

/-- A change of one byte of a covered word is no change between twins. -/
theorem not_differInTwins_of_byte_changed (aligned : 4 ∣ a.bytes.size)
    {k : Nat} (hk : checksumSize ≤ k) (inside : k < a.bytes.size)
    (h : a.AgreeOutside b k (k + 1)) (changed : b ≠ a) : ¬ a.DifferInTwins b := by
  intro twins
  obtain ⟨i, j, hj, rfl⟩ : ∃ i j, j < 4 ∧ k = checksumSize + 4 * i + j :=
    ⟨(k - checksumSize) / 4, (k - checksumSize) % 4, by omega, by omega⟩
  have room : checksumSize + 4 * i + 4 ≤ a.bytes.size := by
    rw [checksumSize] at inside ⊢
    omega
  have differ : a.coveredWord i ≠ b.coveredWord i := by
    intro same
    have word := slice_eq_of_number_eq h.size same
    have byte := slice_eq_of_inside word (j := checksumSize + 4 * i + j) (v := 1) (by omega)
      (by omega)
    exact changed (h.eq (by simpa using byte)).symm
  -- Of the other bytes of the word, one is enough.
  obtain ⟨j', hj', other⟩ : ∃ j', j' < 4 ∧ j' ≠ j := by
    by_cases zero : j = 0
    · exact ⟨1, by omega, by omega⟩
    · exact ⟨0, by omega, by omega⟩
  exact not_twins_of_byte_eq h.size room hj' (h.getElem?_eq (by omega)) (twins i differ)

/-- Of a block that verifies, every change of the stored checksum and every change of one or two
neighbouring covered words is refused, apart from changes between zero and the largest word, after
which the block still verifies. In particular every change of a single byte is refused. -/
theorem verifyChecksum_tampered (aligned : 4 ∣ a.bytes.size) (verified : a.verifyChecksum = .ok ())
    (changed : b ≠ a) :
    (a.AgreeOutside b 0 8 → b.Refused) ∧
    (∀ i, a.AgreeOutside b (8 + 4 * i) (8 + 4 * i + 8) →
      (a.DifferInTwins b → b.verifyChecksum = .ok ()) ∧ (¬ a.DifferInTwins b → b.Refused)) ∧
    ∀ k, a.AgreeOutside b k (k + 1) → b.Refused := by
  refine ⟨fun h => refused_of_stored_changed verified h changed,
    fun i h => verify_of_words_changed verified aligned h, fun k h => ?_⟩
  by_cases stored : k < 8
  · exact refused_of_stored_changed verified (h.mono (Nat.zero_le k) stored) changed
  by_cases inside : k < a.bytes.size
  · have word : a.AgreeOutside b (checksumSize + 4 * ((k - 8) / 4))
        (checksumSize + 4 * ((k - 8) / 4) + 8) :=
      h.mono (by rw [checksumSize]; omega) (by rw [checksumSize]; omega)
    have distinct := not_differInTwins_of_byte_changed aligned (Nat.le_of_not_lt stored) inside h
      changed
    exact (verify_of_words_changed verified aligned word).2 distinct
  · have behind : a.bytes.size ≤ k := Nat.le_of_not_lt inside
    have empty := slice_eq_nil (h.size ▸ behind) (k + 1 - k)
    exact absurd (h.eq ((slice_eq_nil behind _).trans empty.symm)).symm changed

/-- A block of zeros around four bytes, with the checksum that it has if these are zeros as well. -/
def zerosAround (w x y z : UInt8) : Block where
  bytes := ⟨#[255, 255, 255, 255, 255, 255, 255, 255, 0, 0, 0, 0, w, x, y, z, 0, 0, 0, 0,
    0, 0, 0, 0, 0, 0, 0, 0, 0, 0, 0, 0, 0, 0, 0, 0]⟩
  size_lt := show 36 < _ by decide

theorem verifyChecksum_zerosAround :
    (zerosAround 0 0 0 0).verifyChecksum = .ok () ∧ (zerosAround 0 0 1 0).Refused ∧
      (zerosAround 255 255 255 255).verifyChecksum = .ok () := by
  have verified : (zerosAround 0 0 0 0).verifyChecksum = .ok () := rfl
  have aligned : 4 ∣ (zerosAround 0 0 0 0).bytes.size := ⟨9, rfl⟩
  refine ⟨verified, ?_, ?_⟩
  · have changed : zerosAround 0 0 1 0 ≠ zerosAround 0 0 0 0 := by decide
    have byte : (zerosAround 0 0 0 0).AgreeOutside (zerosAround 0 0 1 0) 14 15 :=
      ⟨rfl, by decide⟩
    exact (verifyChecksum_tampered aligned verified changed).2.2 14 byte
  · have changed : zerosAround 255 255 255 255 ≠ zerosAround 0 0 0 0 := by decide
    have words : (zerosAround 0 0 0 0).AgreeOutside (zerosAround 255 255 255 255) 12 20 :=
      ⟨rfl, by decide⟩
    have twins : (zerosAround 0 0 0 0).DifferInTwins (zerosAround 255 255 255 255) := by
      intro k differ
      by_cases here : k = 1
      · subst here
        exact .inl ⟨rfl, rfl⟩
      · have word : (zerosAround 0 0 0 0).AgreeOutside (zerosAround 255 255 255 255) 12 16 :=
          ⟨rfl, by decide⟩
        exact absurd (word.number_eq (by rw [checksumSize]; omega)) differ
    exact ((verifyChecksum_tampered aligned verified changed).2.1 1 words).1 twins

end Block

end Apfs
