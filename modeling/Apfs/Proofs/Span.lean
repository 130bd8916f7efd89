import Apfs.Node.Basic
import Apfs.Proofs.Exact

/-!
# Spans as numbers

`fit?` never adds its untrusted numbers, but it answers as if it did so exactly: it builds a span
if and only if the sum of start and length is within the size.
-/

namespace Apfs

namespace Span

/-- The start and the length of a span. -/
def numbers (s : Span) : Nat × Nat := (s.start.toNat, s.length.toNat)

theorem fits_iff (start length size : UInt64) :
    start ≤ size ∧ length ≤ size - start ↔ start.toNat + length.toNat ≤ size.toNat := by
  rw [UInt64.le_iff_toNat_le, UInt64.le_iff_toNat_le]
  constructor
  · rintro ⟨low, high⟩
    rw [UInt64.toNat_sub_of_le size start (UInt64.le_iff_toNat_le.mpr low)] at high
    omega
  · intro h
    have low : start.toNat ≤ size.toNat := by omega
    rw [UInt64.toNat_sub_of_le size start (UInt64.le_iff_toNat_le.mpr low)]
    omega

theorem fit?_eq_some_iff {start length size : UInt64} {s : Span} :
    fit? start length size = some s ↔
      start.toNat + length.toNat ≤ size.toNat ∧ s.start = start ∧ s.length = length := by
  rw [fit?, inside?_eq, ← fits_iff]
  split
  case isTrue h =>
    constructor
    · rintro ⟨rfl⟩
      exact ⟨h, rfl, rfl⟩
    · rintro ⟨-, rfl, rfl⟩
      rfl
  case isFalse h => simp [h]

theorem fit?_eq_none_iff {start length size : UInt64} :
    fit? start length size = none ↔ size.toNat < start.toNat + length.toNat := by
  rw [fit?, inside?_eq, ← Nat.not_le, ← fits_iff]
  split
  case isTrue h => simp [h]
  case isFalse h => simp [h]

theorem stop_le_of_fit? {start length size : UInt64} {s : Span}
    (built : fit? start length size = some s) : s.stop ≤ size := by
  obtain ⟨inside, -, rfl⟩ := Option.map_eq_some_iff.mp built
  exact inside.property

/-- The difference that is compared with the length is known not to wrap around. -/
theorem fitM_gives (start length size : UInt64) :
    Exact.Gives (fitM start length size) (fitM start length size) := by
  unfold fitM
  split
  case isTrue low => exact Exact.Gives.settle_bind (Exact.toNat_sub low) (Exact.Gives.pure _)
  case isFalse => exact Exact.Gives.pure _

end Span

/-- Where the key and the value of an entry are, each as start and length. -/
def Entry.numbers (e : Entry) : (Nat × Nat) × (Nat × Nat) := (e.key.numbers, e.value.numbers)

theorem Span.eq_of_numbers_eq {s t : Span} (h : s.numbers = t.numbers) : s = t := by
  cases s
  cases t
  simpa [numbers, UInt64.toNat_inj] using h

theorem Entry.eq_of_numbers_eq {d e : Entry} (h : d.numbers = e.numbers) : d = e := by
  obtain ⟨key, value⟩ := Prod.mk.inj h
  cases d
  cases e
  rw [Entry.mk.injEq]
  exact ⟨Span.eq_of_numbers_eq key, Span.eq_of_numbers_eq value⟩

end Apfs
