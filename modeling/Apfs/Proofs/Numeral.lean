import Apfs.Numeral

/-!
# Decimal numerals

A decimal numeral is made of digits, of which there is at least one. Reading stops with an error as
soon as the digits so far exceed the largest number allowed. The value of more digits is never less,
so digits of which the number is in range never come to that.
-/

namespace Apfs.Numeral

theorem toList_decimal (n : Nat) : (decimal n).toList = Nat.toDigits 10 n := Nat.toList_repr

theorem isDigit_of_mem_decimal {n : Nat} {c : Char} (h : c ∈ (decimal n).toList) : c.isDigit := by
  rw [toList_decimal] at h
  exact Nat.isDigit_of_mem_toDigits (by decide) (by decide) h

/-- A numeral starts with a digit. -/
theorem exists_toList_decimal_eq_cons (n : Nat) :
    ∃ c cs, (decimal n).toList = c :: cs ∧ c.isDigit := by
  obtain ⟨c, cs, digits⟩ := List.exists_cons_of_ne_nil (Nat.toDigits_ne_nil (n := n) (b := 10))
  refine ⟨c, cs, toList_decimal n ▸ digits, ?_⟩
  exact isDigit_of_mem_decimal (n := n) (by simp [toList_decimal, digits])

theorem le_ofDigitChars (n : Nat) (cs : List Char) : n ≤ Nat.ofDigitChars 10 cs n := by
  induction cs generalizing n with
  | nil => exact Nat.le_refl n
  | cons c cs ih =>
    rw [Nat.ofDigitChars_cons]
    have more := ih (10 * n + (c.toNat - '0'.toNat))
    omega

/-- Digits in range are read one after the other, whatever follows them. -/
theorem readDigits_append {largest n : Nat} {before : List Char} (after : List Char)
    (digits : ∀ c ∈ before, c.isDigit) (bound : Nat.ofDigitChars 10 before n ≤ largest) :
    readDigits largest n (before ++ after)
      = readDigits largest (Nat.ofDigitChars 10 before n) after := by
  induction before generalizing n with
  | nil => rfl
  | cons c cs ih =>
    rw [Nat.ofDigitChars_cons] at bound ⊢
    have inRange : 10 * n + digitValue c ≤ largest := Nat.le_trans (le_ofDigitChars _ cs) bound
    rw [List.cons_append, readDigits, if_pos (digits c List.mem_cons_self)]
    dsimp only
    rw [if_pos inRange]
    exact ih (fun c member => digits c (List.mem_cons_of_mem _ member)) bound

theorem readDigits_eq_ok {largest n : Nat} {cs : List Char} (digits : ∀ c ∈ cs, c.isDigit)
    (bound : Nat.ofDigitChars 10 cs n ≤ largest) :
    readDigits largest n cs = .ok (Nat.ofDigitChars 10 cs n) := by
  have read := readDigits_append [] digits bound
  rwa [List.append_nil] at read

end Apfs.Numeral
