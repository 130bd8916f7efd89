/-!
# Numerals

Numbers are written in decimal, or in lowercase hexadecimal behind `0x`, either bare or filled up
with leading zeros. Unsigned decimal numerals are read from left to right, so that of two faults
in one numeral the leftmost is reported.
-/

namespace Apfs.Numeral

/-- The decimal digits of a number, without leading zeros. -/
def decimal (n : Nat) : String := n.repr

/-- The lowercase hexadecimal digits of a number, with leading zeros up to `width` digits. -/
def hexDigits (width n : Nat) : List Char :=
  let digits := Nat.toDigits 16 n
  List.replicate (width - digits.length) '0' ++ digits

/-- A hexadecimal numeral without leading zeros, such as `0x1000`. -/
def hexadecimal (n : Nat) : String := "0x" ++ .ofList (hexDigits 0 n)

/-- A hexadecimal numeral of at least `width` digits. -/
def hexadecimalPadded (width n : Nat) : String := "0x" ++ .ofList (hexDigits width n)

/-- Why a text denotes no number in range. -/
inductive Error
  | empty
  | invalidDigit
  | tooLarge
deriving DecidableEq, Repr

def Error.message : Error → String
  | empty => "cannot parse integer from empty string"
  | invalidDigit => "invalid digit found in string"
  | tooLarge => "number too large to fit in target type"

def digitValue (c : Char) : Nat := c.toNat - '0'.toNat

/-- Reads the digits that follow a numeral's first digits, whose value is `n`. -/
def readDigits (largest : Nat) (n : Nat) : List Char → Except Error Nat
  | [] => .ok n
  | c :: cs =>
    if c.isDigit then
      let n := 10 * n + digitValue c
      if n ≤ largest then readDigits largest n cs else .error .tooLarge
    else .error .invalidDigit

/-- Reads an unsigned decimal numeral of at most `largest`, which may have a leading plus sign. -/
def read (largest : Nat) (text : String) : Except Error Nat :=
  match text.toList with
  | [] => .error .empty
  | ['+'] => .error .invalidDigit
  | '+' :: cs => readDigits largest 0 cs
  | cs => readDigits largest 0 cs

end Apfs.Numeral
