import Apfs.Proofs.Numeral

/-!
# How numerals are read

A text denotes a number if it is made of digits, of which there is at least one, behind a plus
sign or none. Of all other texts the reader says what it comes upon first, from the left: something
that is no digit, or a digit with which the number becomes too large. The digits behind that one
are never looked at, nor is what follows them.
-/

namespace Apfs.Numeral

def Denotes (text : String) (n : Nat) : Prop :=
  ∃ sign digits, text.toList = sign ++ digits ∧ (sign = [] ∨ sign = ['+']) ∧ digits ≠ [] ∧
    (∀ c ∈ digits, c.isDigit) ∧ Nat.ofDigitChars 10 digits 0 = n

/-- The characters of a text behind its plus sign, if it starts with one. -/
def unsigned (text : String) : List Char :=
  match text.toList with
  | '+' :: cs => cs
  | cs => cs

/-- Behind digits of which the value is in range stands something that is no digit. The digits go on
a number whose value is `n`. -/
def Breaks (largest n : Nat) (cs : List Char) : Prop :=
  ∃ before c after, cs = before ++ c :: after ∧ (∀ d ∈ before, d.isDigit) ∧
    Nat.ofDigitChars 10 before n ≤ largest ∧ ¬ c.isDigit

/-- Some digits in front have a value that is out of range. The digits go on a number whose value is
`n`. -/
def Exceeds (largest n : Nat) (cs : List Char) : Prop :=
  ∃ before after, cs = before ++ after ∧ (∀ d ∈ before, d.isDigit) ∧
    largest < Nat.ofDigitChars 10 before n

variable {largest n m : Nat} {cs : List Char}

theorem Breaks.cons {c : Char} (digit : c.isDigit)
    (rest : Breaks largest (10 * n + digitValue c) cs) :
    Breaks largest n (c :: cs) := by
  obtain ⟨before, d, after, rfl, digits, bound, stop⟩ := rest
  exact ⟨c :: before, d, after, rfl, List.forall_mem_cons.mpr ⟨digit, digits⟩, bound, stop⟩

theorem Exceeds.cons {c : Char} (digit : c.isDigit)
    (rest : Exceeds largest (10 * n + digitValue c) cs) : Exceeds largest n (c :: cs) := by
  obtain ⟨before, after, rfl, digits, exceeds⟩ := rest
  exact ⟨c :: before, after, rfl, List.forall_mem_cons.mpr ⟨digit, digits⟩, exceeds⟩

theorem readDigits_of_breaks (h : Breaks largest n cs) :
    readDigits largest n cs = .error .invalidDigit := by
  obtain ⟨before, c, after, rfl, digits, bound, stop⟩ := h
  rw [readDigits_append _ digits bound, readDigits, if_neg stop]

theorem readDigits_of_exceeds (start : n ≤ largest) (h : Exceeds largest n cs) :
    readDigits largest n cs = .error .tooLarge := by
  obtain ⟨before, after, rfl, digits, exceeds⟩ := h
  induction before generalizing n with
  | nil => exact absurd start (Nat.not_le.mpr exceeds)
  | cons c before ih =>
    rw [List.cons_append, readDigits, if_pos (digits c List.mem_cons_self)]
    dsimp only
    split
    case isTrue inRange =>
      exact ih inRange (fun d member => digits d (List.mem_cons_of_mem _ member)) exceeds
    case isFalse => rfl

/-- What a result of reading digits says of them. The digits go on a number whose value is `n`. -/
def Tells (largest n : Nat) (cs : List Char) : Except Error Nat → Prop
  | .ok m => (∀ c ∈ cs, c.isDigit) ∧ Nat.ofDigitChars 10 cs n = m ∧ m ≤ largest
  | .error .invalidDigit => Breaks largest n cs
  | .error .tooLarge => Exceeds largest n cs
  | .error .empty => False

theorem Tells.cons {c : Char} {result : Except Error Nat} (digit : c.isDigit)
    (rest : Tells largest (10 * n + digitValue c) cs result) :
    Tells largest n (c :: cs) result := by
  match result, rest with
  | .ok m, ⟨digits, value, bound⟩ =>
    exact ⟨List.forall_mem_cons.mpr ⟨digit, digits⟩, value, bound⟩
  | .error .invalidDigit, breaks => exact Breaks.cons digit breaks
  | .error .tooLarge, exceeds => exact Exceeds.cons digit exceeds

theorem tells_readDigits (start : n ≤ largest) (cs : List Char) :
    Tells largest n cs (readDigits largest n cs) := by
  fun_induction readDigits largest n cs with
  | case1 n => exact ⟨List.forall_mem_nil _, rfl, start⟩
  | case2 n c cs digit _ inRange ih => exact (ih inRange).cons digit
  | case3 n c cs digit _ outOfRange =>
    exact ⟨[c], cs, rfl, by simpa using digit, Nat.not_le.mp outOfRange⟩
  | case4 n c cs stop => exact ⟨[], c, cs, rfl, List.forall_mem_nil _, start, stop⟩

/-- A result is what reading gives exactly if it tells the truth. -/
theorem readDigits_eq_iff (start : n ≤ largest) {result : Except Error Nat} :
    readDigits largest n cs = result ↔ Tells largest n cs result := by
  constructor
  · rintro rfl
    exact tells_readDigits start cs
  · intro tells
    match result, tells with
    | .ok m, ⟨digits, value, bound⟩ =>
      subst value
      exact readDigits_eq_ok digits bound
    | .error .invalidDigit, breaks => exact readDigits_of_breaks breaks
    | .error .tooLarge, exceeds => exact readDigits_of_exceeds start exceeds

/-! ## The sign -/

variable {text : String}

theorem exists_sign (text : String) :
    ∃ sign, (sign = [] ∨ sign = ['+']) ∧ text.toList = sign ++ unsigned text := by
  unfold unsigned
  split
  case h_1 cs signed => exact ⟨['+'], .inr rfl, signed⟩
  case h_2 => exact ⟨[], .inl rfl, rfl⟩

/-- What a sign is followed by is not taken for another one. -/
theorem unsigned_eq {sign digits : List Char} (h : text.toList = sign ++ digits)
    (isSign : sign = [] ∨ sign = ['+']) (all : ∀ c ∈ digits, c.isDigit) :
    unsigned text = digits := by
  unfold unsigned
  obtain rfl | rfl := isSign
  · split
    case h_1 cs signed =>
      obtain rfl : digits = '+' :: cs := h.symm.trans signed
      exact absurd (all '+' List.mem_cons_self) (by decide)
    case h_2 => exact h
  · rw [h]
    rfl

theorem denotes_iff : Denotes text n ↔ unsigned text ≠ [] ∧
    (∀ c ∈ unsigned text, c.isDigit) ∧ Nat.ofDigitChars 10 (unsigned text) 0 = n := by
  constructor
  · rintro ⟨sign, digits, split, isSign, nonempty, all, value⟩
    rw [unsigned_eq split isSign all]
    exact ⟨nonempty, all, value⟩
  · rintro ⟨nonempty, all, value⟩
    obtain ⟨sign, isSign, split⟩ := exists_sign text
    exact ⟨sign, unsigned text, split, isSign, nonempty, all, value⟩

/-- A minus sign is no sign of these numerals. -/
theorem breaks_of_minus (h : text.toList = '-' :: cs) : Breaks largest 0 (unsigned text) := by
  have same : unsigned text = '-' :: cs := by
    rw [unsigned, h]
    rfl
  exact ⟨[], '-', cs, same, List.forall_mem_nil _, Nat.zero_le _, by decide⟩

theorem eq_of_unsigned_eq_nil (h : unsigned text = []) : text = "" ∨ text = "+" := by
  obtain ⟨sign, rfl | rfl, split⟩ := exists_sign text
  · exact .inl (String.toList_inj.mp (by simp [split, h]))
  · exact .inr (String.toList_inj.mp (by simp [split, h]))

/-- Behind its sign a numeral is read digit by digit, unless there is nothing to read. -/
theorem read_eq_readDigits (h : unsigned text ≠ []) :
    read largest text = readDigits largest 0 (unsigned text) := by
  unfold unsigned at h ⊢
  unfold read
  split <;> simp_all

theorem read_eq_ok_iff : read largest text = .ok n ↔ Denotes text n ∧ n ≤ largest := by
  rw [denotes_iff]
  by_cases h : unsigned text = []
  case pos =>
    obtain rfl | rfl := eq_of_unsigned_eq_nil h
    · exact ⟨nofun, fun ⟨⟨nonempty, _⟩, _⟩ => absurd h nonempty⟩
    · exact ⟨nofun, fun ⟨⟨nonempty, _⟩, _⟩ => absurd h nonempty⟩
  case neg =>
    rw [read_eq_readDigits h, readDigits_eq_iff (Nat.zero_le _), Tells]
    exact ⟨fun ⟨digits, value, bound⟩ => ⟨⟨h, digits, value⟩, bound⟩,
      fun ⟨⟨_, digits, value⟩, bound⟩ => ⟨digits, value, bound⟩⟩

theorem denotes_decimal (n : Nat) : Denotes (decimal n) n := by
  obtain ⟨c, cs, first, -⟩ := exists_toList_decimal_eq_cons n
  refine ⟨[], (decimal n).toList, rfl, .inl rfl, ?_, fun c => isDigit_of_mem_decimal, ?_⟩
  · simp [first]
  · rw [toList_decimal, Nat.ofDigitChars_ten_toDigits]

/-- Every number in range is read back from its numeral. -/
theorem read_decimal (bound : n ≤ largest) : read largest (decimal n) = .ok n :=
  read_eq_ok_iff.mpr ⟨denotes_decimal n, bound⟩

theorem read_eq_empty_iff : read largest text = .error .empty ↔ text = "" := by
  constructor
  · intro refused
    by_cases h : unsigned text = []
    case pos =>
      obtain rfl | rfl := eq_of_unsigned_eq_nil h
      · rfl
      · cases refused
    case neg =>
      rw [read_eq_readDigits h, readDigits_eq_iff (Nat.zero_le _)] at refused
      exact refused.elim
  · rintro rfl
    rfl

theorem read_eq_invalidDigit_iff : read largest text = .error .invalidDigit ↔
    text = "+" ∨ Breaks largest 0 (unsigned text) := by
  by_cases h : unsigned text = []
  case pos =>
    have none : ¬ Breaks largest 0 (unsigned text) := by
      rintro ⟨before, c, after, split, -⟩
      simp [h] at split
    obtain rfl | rfl := eq_of_unsigned_eq_nil h
    · exact ⟨nofun, fun refused => by simp [none] at refused⟩
    · exact ⟨fun _ => .inl rfl, fun _ => rfl⟩
  case neg =>
    have notSign : text ≠ "+" := by
      rintro rfl
      exact h rfl
    rw [read_eq_readDigits h, readDigits_eq_iff (Nat.zero_le _), Tells]
    exact ⟨.inr, fun refused => refused.resolve_left notSign⟩

theorem read_eq_tooLarge_iff :
    read largest text = .error .tooLarge ↔ Exceeds largest 0 (unsigned text) := by
  by_cases h : unsigned text = []
  case pos =>
    have none : ¬ Exceeds largest 0 (unsigned text) := by
      rintro ⟨before, after, split, -, exceeds⟩
      obtain ⟨rfl, rfl⟩ := List.append_eq_nil_iff.mp (split.symm.trans h)
      exact Nat.not_lt_zero _ exceeds
    obtain rfl | rfl := eq_of_unsigned_eq_nil h
    · exact ⟨nofun, fun exceeds => absurd exceeds none⟩
    · exact ⟨nofun, fun exceeds => absurd exceeds none⟩
  case neg => rw [read_eq_readDigits h, readDigits_eq_iff (Nat.zero_le _), Tells]

end Apfs.Numeral
