/-!
# Byte strings as hexadecimal text

Each byte is written as two lowercase digits, the high half first, without separators.
-/

namespace Apfs.Hex

/-- The two digits of a byte. -/
def digits (b : UInt8) : List Char :=
  [Nat.digitChar (b.toNat / 16), Nat.digitChar (b.toNat % 16)]

def encode (bytes : List UInt8) : String :=
  .ofList (bytes.flatMap digits)

def digitValue? (c : Char) : Option Nat :=
  if '0' ≤ c ∧ c ≤ '9' then some (c.toNat - '0'.toNat)
  else if 'a' ≤ c ∧ c ≤ 'f' then some (c.toNat - 'a'.toNat + 10)
  else none

/-- Reads pairs of lowercase digits, and refuses a digit that stands alone. -/
def decodeChars? : List Char → Option (List UInt8)
  | [] => some []
  | [_] => none
  | high :: low :: cs => do
    let high ← digitValue? high
    let low ← digitValue? low
    return .ofNat (16 * high + low) :: (← decodeChars? cs)

def decode? (text : String) : Option (List UInt8) := decodeChars? text.toList

end Apfs.Hex
