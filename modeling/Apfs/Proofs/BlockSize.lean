import Apfs.BlockSize
import Apfs.Proofs.Numeral.Reading
import Apfs.Proofs.Result
import Mathlib.Algebra.Ring.Nat

/-!
# Which texts denote block sizes

A block size is one of five powers of two. A text denotes one if it is a numeral of it, with or
without a plus sign and with any number of leading zeros. Every other text is refused with one of
four messages, and each of them is given for texts of its own kind only.
-/

namespace Apfs

namespace BlockSize

/-- A size that a container may declare. -/
structure Valid (n : UInt32) : Prop where
  single_bit : isPowerOfTwo n
  minimum_le : minimum ≤ n
  le_maximum : n ≤ maximum

theorem Valid.ne_zero {n : UInt32} (h : Valid n) : n ≠ 0 := by
  rintro rfl
  exact absurd h.minimum_le (by decide)

theorem standard_valid : Valid standard := ⟨by decide, by decide, by decide⟩

theorem Valid.exists_eq_pow {n : UInt32} (h : Valid n) :
    ∃ k, 12 ≤ k ∧ k ≤ 16 ∧ n.toNat = 2 ^ k := by
  have positive : 1 ≤ n.toNat := Nat.le_trans (by decide) h.minimum_le
  have single : n &&& (n - 1) = 0 := by
    have bit := h.single_bit
    simp only [isPowerOfTwo, Bool.and_eq_true, bne_iff_ne, beq_iff_eq] at bit
    exact bit.2
  have exact_single : n.toNat &&& (n.toNat - 1) = 0 := by
    have below : (n - 1).toNat = n.toNat - 1 := UInt32.toNat_sub_of_le n 1 positive
    rw [← below, ← UInt32.toNat_and, single]
    rfl
  obtain ⟨k, power⟩ := (Nat.and_sub_one_eq_zero_iff_isPowerOfTwo (by omega)).mp exact_single
  have low : 2 ^ 12 ≤ 2 ^ k := power ▸ h.minimum_le
  have high : 2 ^ k ≤ 2 ^ 16 := power ▸ h.le_maximum
  exact ⟨k, (Nat.pow_le_pow_iff_right (by decide)).mp low,
    (Nat.pow_le_pow_iff_right (by decide)).mp high, power⟩

theorem valid_of_toNat_eq_pow {n : UInt32} {k : Nat} (low : 12 ≤ k) (high : k ≤ 16)
    (power : n.toNat = 2 ^ k) : Valid n := by
  obtain rfl : n = .ofNat (2 ^ k) := by rw [← power, UInt32.ofNat_toNat]
  obtain rfl | rfl | rfl | rfl | rfl : k = 12 ∨ k = 13 ∨ k = 14 ∨ k = 15 ∨ k = 16 := by omega
  all_goals exact ⟨by decide, by decide, by decide⟩

theorem valid_iff {n : UInt32} : Valid n ↔ ∃ k ≤ 4, n.toNat = 4096 * 2 ^ k := by
  constructor
  · intro valid
    obtain ⟨k, low, high, power⟩ := valid.exists_eq_pow
    refine ⟨k - 12, by omega, ?_⟩
    rw [power, show 4096 = 2 ^ 12 from rfl, ← Nat.pow_add, Nat.add_sub_cancel' low]
  · rintro ⟨k, high, power⟩
    refine valid_of_toNat_eq_pow (k := 12 + k) (by omega) (by omega) ?_
    rw [power, Nat.pow_add]

/-! ## Reading -/

variable {text : String} {n : UInt32}

/-- The largest number for which a numeral is read. -/
abbrev largest : Nat := 2 ^ 32 - 1

theorem read_of_error {e : Numeral.Error} (numeral : Numeral.read largest text = .error e) :
    read text = .error (.numeral e) := by
  unfold read
  rw [show UInt32.size - 1 = largest from rfl, numeral]
  rfl

theorem read_of_ok (numeral : Numeral.read largest text = .ok n.toNat) :
    read text = if isPowerOfTwo n ∧ minimum ≤ n ∧ n ≤ maximum then .ok n
      else .error .unsupported := by
  unfold read
  rw [show UInt32.size - 1 = largest from rfl, numeral]
  simp only [Except.mapError, bind, Except.bind, UInt32.ofNat_toNat]
  rfl

/-- A text is no numeral, or it is the numeral of a machine word, which may be a block size. -/
theorem read_cases (text : String) :
    (∃ e, Numeral.read largest text = .error e ∧ read text = .error (.numeral e)) ∨
    (∃ n : UInt32, Numeral.read largest text = .ok n.toNat ∧ Valid n ∧ read text = .ok n) ∨
    ∃ n : UInt32, Numeral.read largest text = .ok n.toNat ∧ ¬ Valid n ∧
      read text = .error .unsupported := by
  cases numeral : Numeral.read largest text with
  | error e => exact .inl ⟨e, rfl, read_of_error numeral⟩
  | ok m =>
    have bound : m < 2 ^ 32 := Nat.lt_of_le_pred (by decide) (Numeral.read_eq_ok_iff.mp numeral).2
    obtain ⟨n, rfl⟩ : ∃ n : UInt32, n.toNat = m := ⟨.ofNat m, UInt32.toNat_ofNat_of_lt' bound⟩
    have result := read_of_ok numeral
    split at result
    case isTrue valid => exact .inr (.inl ⟨n, rfl, ⟨valid.1, valid.2.1, valid.2.2⟩, result⟩)
    case isFalse invalid =>
      have not_valid : ¬Valid n := fun h => invalid ⟨h.single_bit, h.minimum_le, h.le_maximum⟩
      exact .inr (.inr ⟨n, rfl, not_valid, result⟩)

theorem denotes_iff : Numeral.Denotes text n.toNat ↔ Numeral.read largest text = .ok n.toNat := by
  rw [Numeral.read_eq_ok_iff]
  exact (and_iff_left (Nat.le_sub_one_of_lt n.toNat_lt)).symm

theorem read_eq_ok_iff :
    read text = .ok n ↔ Numeral.Denotes text n.toNat ∧ ∃ k ≤ 4, n.toNat = 4096 * 2 ^ k := by
  rw [denotes_iff, ← valid_iff]
  obtain ⟨e, numeral, result⟩ | ⟨m, numeral, valid, result⟩ | ⟨m, numeral, invalid, result⟩ :=
    read_cases text
  all_goals
    rw [numeral, result]
    simp only [Except.ok.injEq, UInt32.toNat_inj, reduceCtorEq, false_and]
  · constructor
    · rintro rfl
      exact ⟨rfl, valid⟩
    · exact fun h => h.1
  · rw [false_iff]
    rintro ⟨rfl, valid⟩
    exact invalid valid

theorem read_valid (accepted : read text = .ok n) : Valid n :=
  valid_iff.mpr (read_eq_ok_iff.mp accepted).2

theorem read_decimal (valid : Valid n) : read (Numeral.decimal n.toNat) = .ok n :=
  read_eq_ok_iff.mpr ⟨Numeral.denotes_decimal n.toNat, valid_iff.mp valid⟩

theorem read_eq_numeral_iff {e : Numeral.Error} :
    read text = .error (.numeral e) ↔ Numeral.read largest text = .error e := by
  obtain ⟨e', numeral, result⟩ | ⟨m, numeral, _, result⟩ | ⟨m, numeral, _, result⟩ :=
    read_cases text
  all_goals rw [numeral, result]; simp

theorem read_eq_unsupported_iff : read text = .error .unsupported ↔
    ∃ n : UInt32, Numeral.Denotes text n.toNat ∧ ∀ k ≤ 4, n.toNat ≠ 4096 * 2 ^ k := by
  have invalid_iff (n : UInt32) : (∀ k ≤ 4, n.toNat ≠ 4096 * 2 ^ k) ↔ ¬ Valid n := by
    rw [valid_iff]
    simp
  simp only [denotes_iff, invalid_iff]
  obtain ⟨e, numeral, result⟩ | ⟨m, numeral, valid, result⟩ | ⟨m, numeral, invalid, result⟩ :=
    read_cases text
  all_goals rw [numeral, result]; simp [UInt32.toNat_inj, *]

/-! ## Messages -/

theorem message_unsupported :
    Error.message .unsupported = "block size must be a power of two from 4096 to 65536" := by
  decide

theorem Error.message_mem (e : Error) : e.message ∈ ["cannot parse integer from empty string",
    "invalid digit found in string", "number too large to fit in target type",
    "block size must be a power of two from 4096 to 65536"] := by
  obtain (_ | _ | _) | _ := e
  all_goals decide

theorem Error.message_inj {e e' : Error} (same : e.message = e'.message) : e = e' := by
  match e, e' with
  | .unsupported, .unsupported => rfl
  | .numeral e, .unsupported => cases e <;> exact absurd same (by decide)
  | .unsupported, .numeral e => cases e <;> exact absurd same (by decide)
  | .numeral e, .numeral e' => cases e <;> cases e' <;> first | rfl | exact absurd same (by decide)

/-- A text denotes no block size, for a reason that is given in words. -/
def Refused (text message : String) : Prop :=
  (read text).mapError Error.message = .error message

theorem exists_of_refused {message : String} (refused : Refused text message) :
    ∃ e, read text = .error e ∧ e.message = message := by
  unfold Refused at refused
  cases result : read text with
  | ok n => simp [result, Except.mapError] at refused
  | error e =>
    rw [result] at refused
    exact ⟨e, rfl, Except.error.inj refused⟩

theorem refused_iff {e : Error} : Refused text e.message ↔ read text = .error e := by
  constructor
  · intro refused
    obtain ⟨e', result, same⟩ := exists_of_refused refused
    rwa [Error.message_inj same] at result
  · intro result
    rw [Refused, result]
    rfl

/-- Exactly the numerals of the five block sizes are read. Of all other texts, the empty one is
refused as such, one that has something other than a digit before its number becomes too large is
refused for that, one whose number becomes too large first is refused for that, and the rest are
numerals of other machine words. -/
theorem read_exact (text : String) :
    (∀ n, read text = .ok n ↔
      Numeral.Denotes text n.toNat ∧ ∃ k ≤ 4, n.toNat = 4096 * 2 ^ k) ∧
    (Refused text "cannot parse integer from empty string" ↔ text = "") ∧
    (Refused text "invalid digit found in string" ↔
      text = "+" ∨ (∃ cs, text.toList = '-' :: cs) ∨
        Numeral.Breaks (2 ^ 32 - 1) 0 (Numeral.unsigned text)) ∧
    (Refused text "number too large to fit in target type" ↔
      Numeral.Exceeds (2 ^ 32 - 1) 0 (Numeral.unsigned text)) ∧
    (Refused text "block size must be a power of two from 4096 to 65536" ↔
      ∃ n : UInt32, Numeral.Denotes text n.toNat ∧ ∀ k ≤ 4, n.toNat ≠ 4096 * 2 ^ k) ∧
    ∀ message, Refused text message → message ∈ ["cannot parse integer from empty string",
      "invalid digit found in string", "number too large to fit in target type",
      "block size must be a power of two from 4096 to 65536"] := by
  have numeral (e : Numeral.Error) :
      Refused text e.message ↔ Numeral.read largest text = .error e :=
    (refused_iff (e := .numeral e)).trans read_eq_numeral_iff
  refine ⟨fun n => read_eq_ok_iff, (numeral .empty).trans Numeral.read_eq_empty_iff,
    ?invalidDigit, (numeral .tooLarge).trans Numeral.read_eq_tooLarge_iff, ?unsupported, ?covered⟩
  case invalidDigit =>
    rw [show "invalid digit found in string" = Numeral.Error.invalidDigit.message from rfl,
      numeral .invalidDigit, Numeral.read_eq_invalidDigit_iff]
    constructor
    · exact Or.imp_right .inr
    · rintro (plus | ⟨cs, minus⟩ | breaks)
      · exact .inl plus
      · exact .inr (Numeral.breaks_of_minus minus)
      · exact .inr breaks
  case unsupported =>
    rw [← message_unsupported, refused_iff, read_eq_unsupported_iff]
  case covered =>
    intro message refused
    obtain ⟨e, -, rfl⟩ := exists_of_refused refused
    exact e.message_mem

end BlockSize

end Apfs
