import Apfs.Arithmetic

/-!
# Spans

A span of bytes is a start and a length, both machine words, whose sum is a machine word too.
`fit?` builds one from untrusted numbers without ever adding them: a sum that wraps could pass
for a small one, while a difference can be known not to wrap. `extract?` cuts a span out of a
byte string that need not be the one it was built for.
-/

namespace Apfs

structure Span where
  start : UInt64
  length : UInt64
  fits : start.toNat + length.toNat < UInt64.size
deriving DecidableEq

namespace Span

section Bounds

variable {m : Type → Type} [Monad m] [Arithmetic m]

/-- One past the last of `length` bytes at `start`. -/
def stopM (start length : UInt64) : m UInt64 := do
  let stop ← Arithmetic.add start length
  return stop.val

/-- One past the last byte. -/
def stop (s : Span) : UInt64 := Id.run (stopM s.start s.length)

def isEmpty (s : Span) : Bool := s.length == 0

theorem stop_eq (s : Span) : s.stop = s.start + s.length := rfl

@[simp] theorem toNat_stop (s : Span) : s.stop.toNat = s.start.toNat + s.length.toNat := by
  rw [stop_eq, UInt64.toNat_add]
  exact Nat.mod_eq_of_lt s.fits

/-- A span that lies inside a byte string of the given size. -/
abbrev Inside (size : UInt64) := { s : Span // s.stop ≤ size }

theorem toNat_add_le {start length size : UInt64} (low : start ≤ size)
    (high : length ≤ size - start) : start.toNat + length.toNat ≤ size.toNat := by
  have := UInt64.le_iff_toNat_le.mp low
  have := UInt64.le_iff_toNat_le.mp high
  have := UInt64.toNat_sub_of_le size start low
  omega

/-- The span of `length` bytes at `start`, for which there is room. -/
def ofRoom {start length size : UInt64} (low : start ≤ size) (high : length ≤ size - start) :
    Inside size where
  val := ⟨start, length, Nat.lt_of_le_of_lt (toNat_add_le low high) size.toNat_lt_size⟩
  property := by
    rw [UInt64.le_iff_toNat_le, toNat_stop]
    exact toNat_add_le low high

/-- The span of `length` bytes at `start`, if it lies inside a byte string of the given size. -/
def fitM (start length size : UInt64) : m (Option (Inside size)) :=
  if low : start ≤ size then do
    let room ← Arithmetic.sub size start
    return if high : length ≤ room.val then some (ofRoom low (room.property ▸ high)) else none
  else return none

end Bounds

def inside? (start length size : UInt64) : Option (Inside size) :=
  Id.run (fitM start length size)

def fit? (start length size : UInt64) : Option Span := (inside? start length size).map (·.val)

theorem inside?_eq (start length size : UInt64) : inside? start length size =
    if h : start ≤ size ∧ length ≤ size - start then some (ofRoom h.1 h.2) else none := by
  unfold inside? fitM
  by_cases low : start ≤ size
  · rw [dif_pos low]
    show (if high : length ≤ size - start then some (ofRoom low high) else none) = _
    by_cases high : length ≤ size - start <;> simp [low, high]
  · rw [dif_neg low, dif_neg fun inside => low inside.1]
    rfl

theorem fitM_eq_ok {ε : Type} (start length size : UInt64) :
    (fitM start length size : Except ε (Option (Inside size)))
      = .ok (inside? start length size) := by
  unfold inside? fitM
  split <;> rfl

/-- The bytes that the span covers, if the byte string reaches its end. -/
def extract? (s : Span) (bytes : ByteArray) : Option ByteArray :=
  if s.stop.toNat ≤ bytes.size then some (bytes.extract s.start.toNat s.stop.toNat) else none

end Span

end Apfs
