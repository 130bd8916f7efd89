import Apfs.Arithmetic
import Apfs.LittleEndian

/-!
# Fletcher-64

The checksum runs over the little-endian 32-bit words of a byte string with two sums modulo
`2 ^ 32 - 1`: the first adds up the words, the second adds up the first sum after each word. Two
check words are chosen such that both sums become zero when the check words follow the data. Each
is taken between one and the modulus, so that zero is never stored.
-/

namespace Apfs

namespace Fletcher64

def modulus : UInt64 := 0xffffffff

structure Sums where
  first : UInt64
  second : UInt64
deriving DecidableEq, Repr

namespace Sums

def zero : Sums := ⟨0, 0⟩

section Steps

variable {m : Type → Type} [Monad m] [Arithmetic m]

def addM (s : Sums) (word : UInt32) : m Sums := do
  let sum ← Arithmetic.add s.first word.toUInt64
  let first := sum.val % modulus
  let sum ← Arithmetic.add s.second first
  return ⟨first, sum.val % modulus⟩

/-- Adds each whole word of a byte string. -/
@[specialize] def addBytesM (s : Sums) : List UInt8 → m Sums
  | a :: b :: c :: d :: bs => do
    let s ← s.addM (.ofNat (LittleEndian.value [a, b, c, d]))
    s.addBytesM bs
  | _ => return s

/-- The two check words, the second one in the upper half. -/
def checkM (s : Sums) : m UInt64 := do
  let sum ← Arithmetic.add s.first s.second
  let low ← Arithmetic.sub modulus (sum.val % modulus)
  let sum ← Arithmetic.add s.first low
  let high ← Arithmetic.sub modulus (sum.val % modulus)
  let upper ← Arithmetic.shiftLeft high 32
  return upper.val ||| low.val

end Steps

def add (s : Sums) (word : UInt32) : Sums := Id.run (s.addM word)

def check (s : Sums) : UInt64 := Id.run s.checkM

theorem add_eq (s : Sums) (word : UInt32) :
    s.add word =
      let first := (s.first + word.toUInt64) % modulus
      ⟨first, (s.second + first) % modulus⟩ := rfl

theorem check_eq (s : Sums) :
    s.check =
      let low := modulus - (s.first + s.second) % modulus
      let high := modulus - (s.first + low) % modulus
      high <<< 32 ||| low := rfl

end Sums

/-- The whole words of a byte string. -/
def words : List UInt8 → List UInt32
  | a :: b :: c :: d :: bs => .ofNat (LittleEndian.value [a, b, c, d]) :: words bs
  | _ => []

end Fletcher64

/-- The checksum of a byte string, of which an incomplete last word is left out. -/
def fletcher64M {m : Type → Type} [Monad m] [Arithmetic m] (bytes : List UInt8) : m UInt64 := do
  let sums ← Fletcher64.Sums.zero.addBytesM bytes
  sums.checkM

def fletcher64 (bytes : List UInt8) : UInt64 := Id.run (fletcher64M bytes)

namespace Fletcher64

theorem addBytesM_eq_foldlM {m : Type → Type} [Monad m] [LawfulMonad m] [Arithmetic m] (s : Sums)
    (bs : List UInt8) : (s.addBytesM bs : m Sums) = (words bs).foldlM Sums.addM s := by
  fun_induction words bs generalizing s with
  | case1 a b c d bs ih => simp only [Sums.addBytesM, List.foldlM_cons, ih]
  | case2 bs short =>
    unfold Sums.addBytesM
    split
    case h_1 a b c d bs => exact absurd rfl (short a b c d bs)
    case h_2 => rfl

theorem fletcher64_eq (bs : List UInt8) :
    fletcher64 bs = ((words bs).foldl Sums.add .zero).check := by
  rw [fletcher64, fletcher64M, addBytesM_eq_foldlM]
  exact congrArg Sums.check (List.foldlM_pure)

end Fletcher64

end Apfs
