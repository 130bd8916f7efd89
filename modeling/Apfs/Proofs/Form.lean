import Apfs.Proofs.Hex
import Apfs.Proofs.Numeral

/-!
# Forms

What is reported in words is a form: labels with numerals between them. A label has no digits, a
numeral starts with one and goes on with digits and letters, and the label behind it starts with
neither. So the text of a form shows where each numeral starts and where it ends, and forms with one
text are one form.
-/

namespace Apfs

/-- Lists that start with a stretch of elements of one kind, and go on with one of another kind or
not at all, are equal only if both parts are. -/
theorem stretch_append_inj {α : Type} {p : α → Bool} {as bs cs ds : List α}
    (has : ∀ a ∈ as, p a) (hbs : ∀ b ∈ bs, p b) (hcs : ∀ c ∈ cs.head?, p c = false)
    (hds : ∀ d ∈ ds.head?, p d = false) (same : as ++ cs = bs ++ ds) : as = bs ∧ cs = ds := by
  have stretch {xs ys : List α} (hxs : ∀ x ∈ xs, p x) (hys : ∀ y ∈ ys.head?, p y = false) :
      (xs ++ ys).takeWhile p = xs := by
    rw [List.takeWhile_append_of_pos hxs]
    cases ys with
    | nil => simp
    | cons y ys => simp [hys y rfl]
  have first : as = bs := by rw [← stretch has hcs, ← stretch hbs hds, same]
  subst first
  exact ⟨rfl, List.append_cancel_left same⟩

namespace Text

variable {p : Char → Bool} {s t u v : String}

/-- All characters of a text are of a kind. -/
def Only (p : Char → Bool) (s : String) : Prop := ∀ c ∈ s.toList, p c

/-- A text is empty or starts with a character that is not of a kind. -/
def StopsAt (p : Char → Bool) (s : String) : Prop := ∀ c ∈ s.toList.head?, p c = false

-- Both instances are named: a quantifier over characters may be decided by trying every character.
instance : Decidable (Only p s) := List.decidableBAll _ s.toList

instance : Decidable (StopsAt p s) := Option.decidableForallMem s.toList.head?

@[simp] theorem only_append : Only p (s ++ t) ↔ Only p s ∧ Only p t := by
  simp [Only, or_imp, forall_and]

@[simp] theorem stopsAt_append : StopsAt p (s ++ t) ↔ StopsAt p s ∧ (s = "" → StopsAt p t) := by
  rw [← String.toList_eq_nil_iff, StopsAt, StopsAt, StopsAt, String.toList_append]
  cases s.toList with
  | nil => simp
  | cons c cs => simp

theorem append_inj (hs : Only p s) (ht : Only p t) (hu : StopsAt p u) (hv : StopsAt p v)
    (same : s ++ u = t ++ v) : s = t ∧ u = v := by
  have chars : s.toList ++ u.toList = t.toList ++ v.toList := by
    rw [← String.toList_append, ← String.toList_append, same]
  obtain ⟨first, second⟩ := stretch_append_inj hs ht hu hv chars
  exact ⟨String.toList_inj.mp first, String.toList_inj.mp second⟩

end Text

open Text

/-- A text that starts with a digit and goes on with digits and letters only. -/
structure IsNumeral (s : String) : Prop where
  starts : ∃ c cs, s.toList = c :: cs ∧ c.isDigit
  alphanumeric : Only Char.isAlphanum s

theorem IsNumeral.append_ne_empty {s t : String} (h : IsNumeral s) : s ++ t ≠ "" := by
  obtain ⟨c, cs, first, -⟩ := h.starts
  intro empty
  simpa [first] using congrArg String.toList empty

/-- A text without digits. -/
def IsLabel (s : String) : Prop := Only (!·.isDigit) s

instance (s : String) : Decidable (IsLabel s) := inferInstanceAs (Decidable (Only _ s))

@[simp] theorem isLabel_append {s t : String} : IsLabel (s ++ t) ↔ IsLabel s ∧ IsLabel t :=
  Text.only_append

/-- A label, and then numerals, each with the label behind it. -/
structure Form where
  label : String
  blanks : List (String × String)
deriving DecidableEq

namespace Form

/-- The text of the numerals of a form and of the labels behind them. -/
def blanksText : List (String × String) → String
  | [] => ""
  | (numeral, label) :: blanks => numeral ++ (label ++ blanksText blanks)

def text (f : Form) : String := f.label ++ blanksText f.blanks

def LegibleBlanks : List (String × String) → Prop
  | [] => True
  | (numeral, label) :: blanks => IsNumeral numeral ∧ IsLabel label ∧
    StopsAt Char.isAlphanum (label ++ blanksText blanks) ∧ LegibleBlanks blanks

structure Legible (f : Form) : Prop where
  label : IsLabel f.label
  blanks : LegibleBlanks f.blanks

theorem stopsAt_blanksText {blanks : List (String × String)} (h : LegibleBlanks blanks) :
    StopsAt (!·.isDigit) (blanksText blanks) := by
  intro c start
  match blanks, h with
  | [], _ => simp [blanksText] at start
  | (numeral, label) :: blanks, ⟨isNumeral, _⟩ =>
    obtain ⟨d, ds, first, digit⟩ := isNumeral.starts
    simp only [blanksText, String.toList_append, first, List.cons_append, List.head?_cons,
      Option.mem_some_iff] at start
    simp [← start, digit]

/-- Labels and numerals take turns, and each of them ends where it has to. -/
theorem blanks_eq_of_text_eq {label label' : String} {blanks blanks' : List (String × String)}
    (hl : IsLabel label) (hl' : IsLabel label') (hb : LegibleBlanks blanks)
    (hb' : LegibleBlanks blanks')
    (same : label ++ blanksText blanks = label' ++ blanksText blanks') :
    label = label' ∧ blanks = blanks' := by
  induction blanks generalizing label label' blanks' with
  | nil =>
    obtain ⟨rfl, rest⟩ := append_inj hl hl' (stopsAt_blanksText hb) (stopsAt_blanksText hb') same
    match blanks', hb' with
    | [], _ => exact ⟨rfl, rfl⟩
    | (numeral, next) :: blanks', ⟨isNumeral, _⟩ => exact absurd rest.symm isNumeral.append_ne_empty
  | cons blank blanks ih =>
    obtain ⟨rfl, rest⟩ := append_inj hl hl' (stopsAt_blanksText hb) (stopsAt_blanksText hb') same
    obtain ⟨numeral, next⟩ := blank
    obtain ⟨isNumeral, isLabel, stops, legible⟩ := hb
    match blanks', hb' with
    | [], _ => exact absurd rest isNumeral.append_ne_empty
    | (numeral', next') :: blanks', ⟨isNumeral', isLabel', stops', legible'⟩ =>
      obtain ⟨rfl, behind⟩ :=
        append_inj isNumeral.alphanumeric isNumeral'.alphanumeric stops stops' rest
      obtain ⟨rfl, rfl⟩ := ih isLabel isLabel' legible legible' behind
      exact ⟨rfl, rfl⟩

/-- Nothing of a form is lost in its text. -/
theorem eq_of_text_eq {f g : Form} (hf : f.Legible) (hg : g.Legible) (same : f.text = g.text) :
    f = g := by
  obtain ⟨label, blanks⟩ := blanks_eq_of_text_eq hf.label hg.label hf.blanks hg.blanks same
  cases f
  cases g
  simp_all

end Form

namespace Numeral

theorem isNumeral_decimal (n : Nat) : IsNumeral (decimal n) where
  starts := exists_toList_decimal_eq_cons n
  alphanumeric c member := by
    simp [Char.isAlphanum, isDigit_of_mem_decimal member]

theorem isNumeral_hexadecimalPadded (width n : Nat) : IsNumeral (hexadecimalPadded width n) where
  starts := ⟨'0', 'x' :: hexDigits width n, by simp [hexadecimalPadded], by decide⟩
  alphanumeric c member := by
    have mark : "0x".toList.all Char.isAlphanum := by decide
    have letters : Hex.alphabet.all Char.isAlphanum := by decide
    rw [hexadecimalPadded, String.toList_append, List.mem_append] at member
    obtain start | digit := member
    · exact List.all_eq_true.mp mark c start
    · rw [String.toList_ofList] at digit
      exact List.all_eq_true.mp letters c (Hex.mem_alphabet_of_mem_hexDigits digit)

theorem isNumeral_hexadecimal (n : Nat) : IsNumeral (hexadecimal n) :=
  isNumeral_hexadecimalPadded 0 n

theorem decimal_inj {m n : Nat} : decimal m = decimal n ↔ m = n := by
  constructor
  · intro same
    have digits : Nat.toDigits 10 m = Nat.toDigits 10 n := by
      rw [← toList_decimal, ← toList_decimal, same]
    rw [← Nat.ofDigitChars_ten_toDigits (n := m), digits, Nat.ofDigitChars_ten_toDigits]
  · rintro rfl
    rfl

theorem hexDigits_inj {width m n : Nat} : hexDigits width m = hexDigits width n ↔ m = n := by
  constructor
  · intro same
    have value := Hex.value?_hexDigits width m
    rw [same, Hex.value?_hexDigits] at value
    exact (Option.some.inj value).symm
  · rintro rfl
    rfl

theorem hexadecimalPadded_inj {width m n : Nat} :
    hexadecimalPadded width m = hexadecimalPadded width n ↔ m = n := by
  rw [hexadecimalPadded, hexadecimalPadded, String.append_right_inj, String.ofList_inj,
    hexDigits_inj]

theorem hexadecimal_inj {m n : Nat} : hexadecimal m = hexadecimal n ↔ m = n :=
  @hexadecimalPadded_inj 0 m n

end Numeral

end Apfs
