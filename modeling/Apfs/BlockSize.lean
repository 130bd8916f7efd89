import Apfs.Numeral

/-!
# Block sizes

A container declares one size for all its blocks, a power of two between two bounds.
-/

namespace Apfs.BlockSize

def minimum : UInt32 := 4096

def maximum : UInt32 := 65536

/-- The size of a block unless something else is said. -/
def standard : UInt32 := minimum

/-- Tells powers of two by their having a single bit. -/
def isPowerOfTwo (n : UInt32) : Bool := n != 0 && n &&& (n - 1) == 0

/-- Why a text denotes no block size. -/
inductive Error
  | numeral (error : Numeral.Error)
  | unsupported
deriving DecidableEq, Repr

def Error.message : Error → String
  | numeral error => error.message
  | unsupported =>
    "block size must be a power of two from " ++ Numeral.decimal minimum.toNat ++ " to "
      ++ Numeral.decimal maximum.toNat

def read (text : String) : Except Error UInt32 := do
  let n : UInt32 := .ofNat (← (Numeral.read (UInt32.size - 1) text).mapError .numeral)
  if isPowerOfTwo n ∧ minimum ≤ n ∧ n ≤ maximum then return n else throw .unsupported

end Apfs.BlockSize
