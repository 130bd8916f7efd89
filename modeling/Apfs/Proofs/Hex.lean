import Apfs.Hex
import Apfs.Numeral

/-!
# Hexadecimal texts are read back

Each of the sixteen digits is read as its own value. So a byte string is read back from the pairs of
digits in which it is written, and a number from its digits, however many zeros lead them.
-/

namespace Apfs.Hex

/-- The digits in the order of their values. -/
def alphabet : List Char := "0123456789abcdef".toList

theorem digitValue?_digitChar : ∀ d < 16, digitValue? (Nat.digitChar d) = some d := by decide

theorem digitChar_mem_alphabet : ∀ d < 16, Nat.digitChar d ∈ alphabet := by decide

/-! ## Byte strings -/

theorem halves_lt (b : UInt8) : b.toNat / 16 < 16 ∧ b.toNat % 16 < 16 := by
  have bound := b.toNat_lt
  omega

theorem mem_alphabet_of_mem_digits {b : UInt8} {c : Char} (h : c ∈ digits b) : c ∈ alphabet := by
  obtain ⟨high, low⟩ := halves_lt b
  simp only [digits, List.mem_cons, List.not_mem_nil, or_false] at h
  obtain rfl | rfl := h
  · exact digitChar_mem_alphabet _ high
  · exact digitChar_mem_alphabet _ low

theorem decodeChars?_digits_append (b : UInt8) (cs : List Char) :
    decodeChars? (digits b ++ cs) = (decodeChars? cs).map (b :: ·) := by
  obtain ⟨high, low⟩ := halves_lt b
  have byte : UInt8.ofNat (16 * (b.toNat / 16) + b.toNat % 16) = b := by
    rw [Nat.div_add_mod, UInt8.ofNat_toNat]
  simp only [digits, List.cons_append, List.nil_append, decodeChars?, digitValue?_digitChar _ high,
    digitValue?_digitChar _ low, Option.bind_eq_bind, Option.bind_some, byte]
  cases decodeChars? cs <;> rfl

theorem decode?_encode (bytes : List UInt8) : decode? (encode bytes) = some bytes := by
  rw [decode?, encode, String.toList_ofList]
  induction bytes with
  | nil => rfl
  | cons b bytes ih => rw [List.flatMap_cons, decodeChars?_digits_append, ih, Option.map_some]

theorem length_encode (bytes : List UInt8) : (encode bytes).length = 2 * bytes.length := by
  have two (b : UInt8) : (digits b).length = 2 := rfl
  simp [encode, List.length_flatMap, two, List.map_const', Nat.mul_comm]

theorem mem_alphabet_of_mem_encode {bytes : List UInt8} {c : Char}
    (h : c ∈ (encode bytes).toList) : c ∈ alphabet := by
  rw [encode, String.toList_ofList] at h
  obtain ⟨b, -, digit⟩ := List.mem_flatMap.mp h
  exact mem_alphabet_of_mem_digits digit

/-! ## Numbers -/

/-- Reads digits that go on a number. -/
def valueFrom? (n : Nat) (cs : List Char) : Option Nat :=
  cs.foldlM (fun n c => (digitValue? c).map (16 * n + ·)) n

/-- The number that digits denote. -/
def value? (cs : List Char) : Option Nat := valueFrom? 0 cs

theorem valueFrom?_toDigits (n : Nat) : valueFrom? 0 (Nat.toDigits 16 n) = some n := by
  induction n using Nat.strongRecOn with
  | _ n ih =>
    by_cases small : n < 16
    case pos => simp [valueFrom?, Nat.toDigits_of_lt_base small, digitValue?_digitChar n small]
    case neg =>
      have shorter := ih (n / 16) (by omega)
      have last := digitValue?_digitChar (n % 16) (Nat.mod_lt _ (by decide))
      rw [valueFrom?] at shorter
      rw [valueFrom?, Nat.toDigits_of_base_le (by decide) (by omega), List.foldlM_append, shorter]
      simp [last, Nat.div_add_mod]

theorem valueFrom?_replicate_zero (k : Nat) : valueFrom? 0 (List.replicate k '0') = some 0 := by
  induction k with
  | zero => rfl
  | succ k ih => simpa [valueFrom?, List.replicate_succ, digitValue?] using ih

theorem value?_hexDigits (width n : Nat) : value? (Numeral.hexDigits width n) = some n := by
  have zeros := valueFrom?_replicate_zero (width - (Nat.toDigits 16 n).length)
  have digits := valueFrom?_toDigits n
  rw [valueFrom?] at zeros digits
  simp only [value?, valueFrom?, Numeral.hexDigits, List.foldlM_append, zeros, Option.bind_eq_bind,
    Option.bind_some, digits]

theorem mem_alphabet_of_mem_toDigits {n : Nat} {c : Char} (h : c ∈ Nat.toDigits 16 n) :
    c ∈ alphabet := by
  induction n using Nat.strongRecOn with
  | _ n ih =>
    by_cases small : n < 16
    case pos =>
      rw [Nat.toDigits_of_lt_base small, List.mem_singleton] at h
      exact h ▸ digitChar_mem_alphabet n small
    case neg =>
      rw [Nat.toDigits_of_base_le (by decide) (by omega), List.mem_append, List.mem_singleton] at h
      obtain before | rfl := h
      · exact ih (n / 16) (by omega) before
      · exact digitChar_mem_alphabet _ (Nat.mod_lt _ (by decide))

theorem mem_alphabet_of_mem_hexDigits {width n : Nat} {c : Char}
    (h : c ∈ Numeral.hexDigits width n) : c ∈ alphabet := by
  simp only [Numeral.hexDigits, List.mem_append, List.mem_replicate] at h
  obtain ⟨-, rfl⟩ | digit := h
  · decide
  · exact mem_alphabet_of_mem_toDigits digit

theorem le_length_hexDigits (width n : Nat) : width ≤ (Numeral.hexDigits width n).length := by
  simp only [Numeral.hexDigits, List.length_append, List.length_replicate]
  omega

end Apfs.Hex
