/-!
# Arithmetic on machine words

Sums, differences and products of machine words wrap around. Some are checked: a result that is no
machine word is refused, and it is up to the caller what then becomes of it. The others are meant
never to wrap around, because of what has been checked before. These are steps of a computation
that tell the exact result besides the word, so that one text can be run in more than one way: as
it is, or with a stop at the first word that is not exact.
-/

namespace Apfs

/-- The product of two machine words, if it does not overflow. -/
def checkedMul? (a b : UInt64) : Option UInt64 :=
  if b = 0 ∨ a ≤ .ofNat (UInt64.size - 1) / b then some (a * b) else none

/-- The sum of two machine words, if it does not overflow. -/
def checkedAdd? (a b : UInt64) : Option UInt64 :=
  if a ≤ a + b then some (a + b) else none

/-- What an operation comes to, if the computation goes on behind it. -/
abbrev Result (w : UInt64) := { u : UInt64 // u = w }

/-- A kind of computation with machine words. -/
class Arithmetic (m : Type → Type) where
  /-- Goes on with a word, or does not because of the integer that the word should be. -/
  settle (w : UInt64) (exact : Int) : m (Result w)

namespace Arithmetic

section Operations

variable {m : Type → Type} [Arithmetic m]

@[inline] def ofNat (n : Nat) : m (Result (.ofNat n)) := settle (.ofNat n) n

@[inline] def add (v w : UInt64) : m (Result (v + w)) := settle (v + w) (v.toNat + w.toNat)

@[inline] def sub (v w : UInt64) : m (Result (v - w)) := settle (v - w) (v.toNat - w.toNat)

@[inline] def mul (v w : UInt64) : m (Result (v * w)) := settle (v * w) (v.toNat * w.toNat)

@[inline] def shiftLeft (w bits : UInt64) : m (Result (w <<< bits)) :=
  settle (w <<< bits) (w.toNat <<< bits.toNat)

end Operations

/-- Goes on with every word, also with one that has wrapped around. -/
@[reducible] def wrapping {m : Type → Type} [Pure m] : Arithmetic m where
  settle w _ := pure ⟨w, rfl⟩

instance : Arithmetic Id := wrapping

instance {ε : Type} : Arithmetic (Except ε) := wrapping

end Arithmetic

end Apfs
