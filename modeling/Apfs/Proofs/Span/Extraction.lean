import Apfs.Proofs.Exact
import Apfs.Proofs.Span

/-!
# Spans cut out their bytes

A span is built exactly if the sum of its start and its length, computed without bounds, is within
the size. This holds at the top of the range of machine words as it does at the bottom, because
nothing wraps around on the way. Once built, a span is of use for every byte string and not just
for those of that size: where it ends inside of one it cuts out its bytes, and bytes that are added
behind make no difference to them.
-/

namespace Apfs

/-- The bytes are those of the whole that the span covers: as many as its length says, behind as
many as its start says. -/
def Span.Cuts (s : Span) (whole bytes : ByteArray) : Prop :=
  ∃ before after, whole = before ++ bytes ++ after ∧
    before.size = s.start.toNat ∧ bytes.size = s.length.toNat

/-! ## Exact arithmetic -/

namespace Exact

/-- A span inside a byte string of the given size, in exact arithmetic. -/
def fit? (start length size : UInt64) : Exact (Option Span) := do
  let inside? ← Span.fitM start length size
  return inside?.map (·.val)

/-- One past the last of `length` bytes at `start`, in exact arithmetic. -/
def stop (start length : UInt64) : Exact UInt64 := Span.stopM start length

theorem fit?_gives (start length size : UInt64) :
    Gives (fit? start length size) (.ok (Span.fit? start length size)) := by
  have answer := Span.fitM_gives start length size
  rw [Span.fitM_eq_ok] at answer
  exact Gives.bind (g := fun inside? => .ok (inside?.map (·.val))) answer fun _ _ => Gives.pure _

theorem stop_gives (s : Span) : Gives (stop s.start s.length) (.ok s.stop) :=
  Gives.settle_bind (g := fun stop => .ok stop.val) (toNat_add s.fits) (Gives.pure _)

end Exact

/-! ## Cutting -/

namespace Span

variable {s : Span} {whole bytes : ByteArray}

theorem Cuts.stop_le (h : s.Cuts whole bytes) : s.stop.toNat ≤ whole.size := by
  obtain ⟨before, after, rfl, start, length⟩ := h
  rw [toNat_stop, ByteArray.size_append, ByteArray.size_append, start, length]
  exact Nat.le_add_right ..

theorem Cuts.eq_extract (h : s.Cuts whole bytes) :
    bytes = whole.extract s.start.toNat s.stop.toNat := by
  obtain ⟨before, after, rfl, start, length⟩ := h
  -- Both ends lie behind `before`, which leaves the first `bytes.size` bytes of the rest.
  rw [toNat_stop, ← start, ← length, ByteArray.append_assoc, ← Nat.add_zero before.size,
    Nat.add_assoc, ByteArray.extract_append_size_add, Nat.zero_add,
    ByteArray.extract_append_eq_left rfl]

/-- What stands behind the whole is left over as well. -/
theorem Cuts.append (h : s.Cuts whole bytes) (more : ByteArray) : s.Cuts (whole ++ more) bytes := by
  obtain ⟨before, after, rfl, start, length⟩ := h
  exact ⟨before, after ++ more, ByteArray.append_assoc, start, length⟩

theorem cuts_extract (inside : s.stop.toNat ≤ whole.size) :
    s.Cuts whole (whole.extract s.start.toNat s.stop.toNat) := by
  have stop := s.toNat_stop
  refine ⟨whole.extract 0 s.start.toNat, whole.extract s.stop.toNat whole.size, ?_, ?_, ?_⟩
  · rw [← ByteArray.extract_eq_extract_append_extract s.start.toNat (by omega) (by omega),
      ← ByteArray.extract_eq_extract_append_extract s.stop.toNat (by omega) inside,
      ByteArray.extract_zero_size]
  · rw [ByteArray.size_extract]
    omega
  · rw [ByteArray.size_extract]
    omega

theorem isSome_extract?_iff : (s.extract? whole).isSome ↔ s.stop.toNat ≤ whole.size :=
  Option.isSome_ite

theorem extract?_eq_some_iff : s.extract? whole = some bytes ↔ s.Cuts whole bytes := by
  constructor
  · intro found
    have inside : s.stop.toNat ≤ whole.size := isSome_extract?_iff.mp (by simp [found])
    rw [extract?, if_pos inside] at found
    exact Option.some.inj found ▸ cuts_extract inside
  · intro cuts
    rw [extract?, if_pos cuts.stop_le, ← cuts.eq_extract]

theorem extract?_append (reached : (s.extract? whole).isSome) (more : ByteArray) :
    s.extract? (whole ++ more) = s.extract? whole := by
  obtain ⟨bytes, found⟩ := Option.isSome_iff_exists.mp reached
  rw [found]
  exact extract?_eq_some_iff.mpr ((extract?_eq_some_iff.mp found).append more)

/-- A span for a byte string of some size, which has the given numbers and cuts its bytes out of
every byte string that reaches its end. -/
structure Serves (s : Span) (start length size : UInt64) : Prop where
  start_eq : s.start = start
  length_eq : s.length = length
  stop : Exact.Gives (Exact.stop start length) (.ok s.stop)
  reached_iff (whole : ByteArray) : (s.extract? whole).isSome ↔ s.stop.toNat ≤ whole.size
  reached (whole : ByteArray) : size.toNat ≤ whole.size → (s.extract? whole).isSome
  cuts_iff (whole bytes : ByteArray) : s.extract? whole = some bytes ↔ s.Cuts whole bytes
  append (whole more : ByteArray) :
    (s.extract? whole).isSome → s.extract? (whole ++ more) = s.extract? whole

theorem serves_of_fit? {start length size : UInt64} (built : fit? start length size = some s) :
    s.Serves start length size := by
  have stop_le : s.stop.toNat ≤ size.toNat := UInt64.le_iff_toNat_le.mp (stop_le_of_fit? built)
  obtain ⟨-, rfl, rfl⟩ := fit?_eq_some_iff.mp built
  constructor
  case start_eq => rfl
  case length_eq => rfl
  case stop => exact Exact.stop_gives s
  case reached_iff => exact fun whole => isSome_extract?_iff
  case reached => exact fun whole covers => isSome_extract?_iff.mpr (Nat.le_trans stop_le covers)
  case cuts_iff => exact fun whole bytes => extract?_eq_some_iff
  case append => exact fun whole more reached => extract?_append reached more

theorem isSome_fit?_iff (start length size : UInt64) :
    (fit? start length size).isSome ↔ start.toNat + length.toNat ≤ size.toNat := by
  rw [Option.isSome_iff_ne_none, ne_eq, fit?_eq_none_iff, Nat.not_lt]

/-- A span is built exactly for numbers that add up to no more than the size, and every span that
is built serves for all byte strings. On the way nothing wraps around. -/
theorem exact_fit_serves (start length size : UInt64) :
    Exact.Gives (Exact.fit? start length size) (.ok (fit? start length size)) ∧
    ((fit? start length size).isSome ↔ start.toNat + length.toNat ≤ size.toNat) ∧
    ∀ s, fit? start length size = some s → s.Serves start length size :=
  ⟨Exact.fit?_gives start length size, isSome_fit?_iff start length size,
    fun _ built => serves_of_fit? built⟩

/-- A span that was built for eight bytes also cuts its five out of seven, and out of these with
one more behind them. -/
theorem exact_fit_serves_sevenBytes : ∃ s, fit? 2 5 8 = some s ∧ s.Serves 2 5 8 ∧
    s.extract? ⟨#[10, 11, 12, 13, 14, 15, 16]⟩ = some ⟨#[12, 13, 14, 15, 16]⟩ ∧
    s.extract? (⟨#[10, 11, 12, 13, 14, 15, 16]⟩ ++ ⟨#[17]⟩) = some ⟨#[12, 13, 14, 15, 16]⟩ ∧
    s.extract? ⟨#[10, 11, 12, 13, 14, 15]⟩ = none := by
  have built : fit? 2 5 8 = some ⟨2, 5, by decide⟩ := by decide
  have serves := (exact_fit_serves 2 5 8).2.2 _ built
  have cut : (⟨2, 5, by decide⟩ : Span).extract? ⟨#[10, 11, 12, 13, 14, 15, 16]⟩
      = some ⟨#[12, 13, 14, 15, 16]⟩ := by decide
  refine ⟨_, built, serves, cut, ?_, by decide⟩
  rw [serves.append _ _ (by rw [cut]; rfl), cut]

/-- At the top of the range the sum would wrap around to one. -/
example : fit? 18446744073709551615 2 18446744073709551615 = none := by decide

end Span

end Apfs
