import Apfs.Hex
import Apfs.Numeral

/-!
# Hexadecimal dumps

A dump shows a byte string in rows of sixteen bytes, each behind the offset of its first byte. The
last row takes what is left, and a byte string without bytes has no row.
-/

namespace Apfs.Hexdump

structure Row where
  offset : Nat
  bytes : List UInt8
deriving DecidableEq, Repr

/-- The rows of a byte string of which the first byte is at `offset`. -/
def rows (offset : Nat) : List UInt8 → List Row
  | [] => []
  | b :: bs => ⟨offset, b :: bs.take 15⟩ :: rows (offset + 16) (bs.drop 15)
termination_by bytes => bytes.length
decreasing_by
  simp only [List.length_drop, List.length_cons]
  omega

def Row.text (r : Row) : String :=
  .ofList ('\t' :: Numeral.hexDigits 8 r.offset ++ [' ', ' ']
    ++ [' '].intercalate (r.bytes.map Hex.digits))

/-- The lines of the dump of a byte string. -/
def lines (bytes : List UInt8) : List String := (rows 0 bytes).map Row.text

end Apfs.Hexdump
