import Mathlib.Algebra.BigOperators.Group.Finset.Basic
import Mathlib.Data.Int.ModEq
import Apfs.Proofs.Exact
import Apfs.Proofs.Fletcher64
import Apfs.Proofs.LittleEndian

/-!
# The closed form of Fletcher-64

Reducing both sums after each word keeps them within a machine word and changes nothing modulo the
modulus. So the checksum depends on two unreduced sums only: that of the words, and that in which
each word counts once for every word from it on. The check words are the representatives of these
sums, up to sign, between one and the modulus. Hence two byte strings collide exactly if both
unreduced sums agree modulo the modulus.
-/

namespace Apfs

namespace Fletcher64

/-- The word at an index of a byte string. -/
def wordAt (bs : List UInt8) (i : Nat) : Nat := LittleEndian.value ((bs.drop (4 * i)).take 4)

/-- The sum of the whole words. -/
def plainSum (bs : List UInt8) : Nat := ∑ i ∈ Finset.range (bs.length / 4), wordAt bs i

/-- The sum of the whole words, each counted as often as there are words from it on. -/
def weightedSum (bs : List UInt8) : Nat :=
  ∑ i ∈ Finset.range (bs.length / 4), (bs.length / 4 - i) * wordAt bs i

/-- The number between one and the modulus that is congruent to an integer. -/
def representative (x : Int) : Nat := (4294967295 - (-x) % 4294967295).toNat

theorem representative_eq_iff {x : Int} {r : Nat} :
    representative x = r ↔ 1 ≤ r ∧ r ≤ 4294967295 ∧ (r : Int) ≡ x [ZMOD 4294967295] := by
  unfold representative Int.ModEq
  omega

theorem representative_range (x : Int) : 1 ≤ representative x ∧ representative x ≤ 4294967295 := by
  unfold representative
  omega

/-! ## The running sums -/

theorem sum_weights_succ (a : Nat → Nat) (n : Nat) :
    ∑ i ∈ Finset.range (n + 1), (n + 1 - i) * a i
      = ∑ i ∈ Finset.range n, (n - i) * a i + ∑ i ∈ Finset.range (n + 1), a i := by
  have earlier : ∀ i ∈ Finset.range n, (n + 1 - i) * a i = (n - i) * a i + a i := by
    intro i hi
    have weight : n + 1 - i = n - i + 1 := by grind
    rw [weight, Nat.succ_mul]
  rw [Finset.sum_range_succ, Finset.sum_range_succ a, Finset.sum_congr rfl earlier,
    Finset.sum_add_distrib, Nat.add_sub_cancel_left, Nat.one_mul, Nat.add_assoc]

/-- After `n` words the sums are the residues of the unreduced ones. -/
theorem toNat_foldl_range (word : Nat → UInt32) (n : Nat) :
    let s := ((List.range n).map word).foldl Sums.add .zero
    s.first.toNat = (∑ i ∈ Finset.range n, (word i).toNat) % 4294967295 ∧
      s.second.toNat = (∑ i ∈ Finset.range n, (n - i) * (word i).toNat) % 4294967295 := by
  induction n with
  | zero => exact ⟨rfl, rfl⟩
  | succ n ih =>
    obtain ⟨first, second⟩ := ih
    have reduced := foldl_words_reduced ((List.range n).map word) Sums.zero_reduced
    rw [List.range_succ, List.map_append, List.foldl_append, List.map_singleton, List.foldl_cons,
      List.foldl_nil, sum_weights_succ, Finset.sum_range_succ]
    dsimp only
    rw [reduced.second_add, reduced.first_add, first, second]
    constructor <;> omega

theorem wordAt_lt (bs : List UInt8) (i : Nat) : wordAt bs i < 2 ^ 32 := by
  have value := LittleEndian.value_lt ((bs.drop (4 * i)).take 4)
  have width : ((bs.drop (4 * i)).take 4).length ≤ 4 := List.length_take_le ..
  exact Nat.lt_of_lt_of_le value (Nat.pow_le_pow_right (by decide) width)

theorem toNat_sums (bs : List UInt8) :
    let s := (words bs).foldl Sums.add .zero
    s.first.toNat = plainSum bs % 4294967295 ∧ s.second.toNat = weightedSum bs % 4294967295 := by
  have sums := toNat_foldl_range (fun i => .ofNat (wordAt bs i)) (bs.length / 4)
  simp only [UInt32.toNat_ofNat_of_lt' (wordAt_lt bs _)] at sums
  rw [words_eq_map_range]
  exact sums

/-! ## The check words -/

theorem representative_of_lowCheck {s : Sums} {plain weighted : Nat}
    (first : s.first.toNat = plain % 4294967295) (second : s.second.toNat = weighted % 4294967295) :
    representative (-(plain + weighted)) = s.lowCheck := by
  rw [representative_eq_iff, Sums.lowCheck, first, second, Int.ModEq]
  omega

theorem representative_of_highCheck {s : Sums} {plain weighted : Nat}
    (first : s.first.toNat = plain % 4294967295) (second : s.second.toNat = weighted % 4294967295) :
    representative weighted = s.highCheck := by
  rw [representative_eq_iff, Sums.highCheck, Sums.lowCheck, first, second, Int.ModEq]
  omega

theorem toNat_fletcher64 (bs : List UInt8) :
    (fletcher64 bs).toNat = 2 ^ 32 * representative (weightedSum bs)
      + representative (-(plainSum bs + weightedSum bs)) := by
  obtain ⟨first, second⟩ := toNat_sums bs
  rw [fletcher64_eq, (foldl_words_reduced _ Sums.zero_reduced).toNat_check,
    representative_of_lowCheck first second, representative_of_highCheck first second]

/-- Byte strings collide exactly if their unreduced sums are congruent. -/
theorem fletcher64_eq_iff_modEq (as bs : List UInt8) :
    fletcher64 as = fletcher64 bs ↔ plainSum as ≡ plainSum bs [MOD 4294967295] ∧
      weightedSum as ≡ weightedSum bs [MOD 4294967295] := by
  obtain ⟨firstA, secondA⟩ := toNat_sums as
  obtain ⟨firstB, secondB⟩ := toNat_sums bs
  rw [fletcher64_eq_iff, Nat.ModEq, Nat.ModEq, ← firstA, ← firstB, ← secondA, ← secondB]
  constructor
  · intro same
    rw [same]
    exact ⟨rfl, rfl⟩
  · rintro ⟨first, second⟩
    exact Sums.eq_of_toNat_eq first second

end Fletcher64

/-! ## Exact arithmetic -/

namespace Exact

open Fletcher64

/-- The checksum in exact arithmetic. -/
def fletcher64 (bs : List UInt8) : Exact UInt64 := fletcher64M bs

theorem addM_gives {s : Sums} (reduced : s.Reduced) (w : UInt32) :
    Gives (s.addM w) (.ok (s.add w)) := by
  have := reduced.first
  have := reduced.second
  have := w.toNat_lt
  have first := (reduced.add w).first
  show Gives (s.addM w) (s.addM w)
  refine Gives.settle_bind (toNat_add ?_) (Gives.settle_bind (toNat_add ?_) (Gives.pure _))
  · rw [UInt32.toNat_toUInt64]
    omega
  · show s.second.toNat + (s.add w).first.toNat < _
    omega

theorem toNat_modulus_sub_mod (x : UInt64) :
    ((modulus - x % modulus).toNat : Int) = modulus.toNat - (x % modulus).toNat := by
  rw [Sums.toNat_modulus_sub, UInt64.toNat_mod, Sums.toNat_modulus]
  omega

theorem checkM_gives {s : Sums} (reduced : s.Reduced) : Gives s.checkM (.ok s.check) := by
  have := reduced.first
  have := reduced.second
  let low := modulus - (s.first + s.second) % modulus
  let high := modulus - (s.first + low) % modulus
  have lowBound : low.toNat ≤ 4294967295 := by
    rw [Sums.toNat_modulus_sub]
    omega
  have highBound : high.toNat ≤ 4294967295 := by
    rw [Sums.toNat_modulus_sub]
    omega
  show Gives s.checkM s.checkM
  refine Gives.settle_bind (toNat_add (by omega)) ?_
  refine Gives.settle_bind (toNat_modulus_sub_mod _) ?_
  refine Gives.settle_bind (toNat_add ?_) ?_
  · show s.first.toNat + low.toNat < _
    omega
  refine Gives.settle_bind (toNat_modulus_sub_mod _) ?_
  refine Gives.settle_bind (congrArg Int.ofNat ?_) (Gives.pure _)
  show (high <<< 32).toNat = high.toNat <<< 32
  rw [Sums.toNat_shiftLeft_half highBound, Nat.shiftLeft_eq]

theorem fletcher64_gives (bs : List UInt8) :
    Gives (fletcher64 bs) (.ok (Apfs.fletcher64 bs)) := by
  have sums : Gives ((words bs).foldlM Sums.addM .zero) (.ok ((words bs).foldl Sums.add .zero)) :=
    Gives.foldlM (fun _ w reduced => ⟨addM_gives reduced w, reduced.add w⟩) _ Sums.zero_reduced
  have checked := checkM_gives (foldl_words_reduced (words bs) Sums.zero_reduced)
  rw [fletcher64, fletcher64M, addBytesM_eq_foldlM, fletcher64_eq]
  exact Gives.bind (g := fun s => .ok s.check) sums fun s folded => Except.ok.inj folded ▸ checked

end Exact

namespace Fletcher64

/-- The halves of a checksum are the representatives of the unreduced sums, so neither is zero, and
nothing wraps around on the way to them. Checksums agree exactly if the unreduced sums do. -/
theorem fletcher64_closed_form (bs : List UInt8) :
    (fletcher64 bs).toNat = 2 ^ 32 * representative (weightedSum bs)
        + representative (-(plainSum bs + weightedSum bs)) ∧
      (∀ x r, representative x = r ↔
        1 ≤ r ∧ r ≤ 4294967295 ∧ (r : Int) ≡ x [ZMOD 4294967295]) ∧
      (fletcher64 bs).toNat / 2 ^ 32 ≠ 0 ∧ (fletcher64 bs).toNat % 2 ^ 32 ≠ 0 ∧
      Exact.Gives (Exact.fletcher64 bs) (.ok (fletcher64 bs)) ∧
      ∀ as, fletcher64 as = fletcher64 bs ↔ plainSum as ≡ plainSum bs [MOD 4294967295] ∧
        weightedSum as ≡ weightedSum bs [MOD 4294967295] := by
  have value := toNat_fletcher64 bs
  obtain ⟨highPos, highLe⟩ := representative_range (weightedSum bs)
  obtain ⟨lowPos, lowLe⟩ := representative_range (-(plainSum bs + weightedSum bs))
  refine ⟨value, fun x r => representative_eq_iff, ?_, ?_, Exact.fletcher64_gives bs,
    fun as => fletcher64_eq_iff_modEq as bs⟩
  · omega
  · omega

end Fletcher64

end Apfs
