import Mathlib.Algebra.Ring.Nat
import Apfs.Fletcher64

/-!
# What a Fletcher-64 checksum tells

Both sums stay below the modulus, so that no addition on the way wraps around. The two check words
tell both sums, and each step towards the sums can be undone. Hence the checksum of a row of words
tells the residues of any two neighbouring words in it, as long as the others are known: the first
sum alone would miss two changes that cancel, but then the second sum differs.
-/

namespace Apfs.Fletcher64

/-- What the sums tell of a word. Of zero and the largest word it is the same. -/
def residue (w : UInt32) : Nat := w.toNat % 4294967295

namespace Sums

variable {s t : Sums}

/-- Both sums are below the modulus. -/
structure Reduced (s : Sums) : Prop where
  first : s.first.toNat < 4294967295
  second : s.second.toNat < 4294967295

theorem zero_reduced : zero.Reduced := ⟨by decide, by decide⟩

theorem eq_of_toNat_eq (first : s.first.toNat = t.first.toNat)
    (second : s.second.toNat = t.second.toNat) : s = t := by
  cases s
  cases t
  simp_all [UInt64.toNat_inj]

@[simp] theorem toNat_modulus : modulus.toNat = 4294967295 := rfl

theorem Reduced.first_add (h : s.Reduced) (w : UInt32) :
    (s.add w).first.toNat = (s.first.toNat + w.toNat) % 4294967295 := by
  have := h.first
  have := w.toNat_lt
  simp only [add_eq, UInt64.toNat_mod, UInt64.toNat_add, UInt32.toNat_toUInt64, toNat_modulus]
  omega

theorem Reduced.second_add (h : s.Reduced) (w : UInt32) :
    (s.add w).second.toNat = (s.second.toNat + (s.add w).first.toNat) % 4294967295 := by
  have := h.second
  have := h.first_add w
  show ((s.second + (s.add w).first) % modulus).toNat = _
  simp only [UInt64.toNat_mod, UInt64.toNat_add, toNat_modulus]
  omega

theorem Reduced.add (h : s.Reduced) (w : UInt32) : (s.add w).Reduced := by
  have first := h.first_add w
  have second := h.second_add w
  constructor <;> omega

/-! ## The check words -/

/-- The lower check word, of which the sum with both sums is a multiple of the modulus. -/
def lowCheck (s : Sums) : Nat := 4294967295 - (s.first.toNat + s.second.toNat) % 4294967295

/-- The upper check word, of which the sum with the first sum and the lower check word is a
multiple of the modulus. -/
def highCheck (s : Sums) : Nat := 4294967295 - (s.first.toNat + s.lowCheck) % 4294967295

theorem toNat_modulus_sub (x : UInt64) :
    (modulus - x % modulus).toNat = 4294967295 - x.toNat % 4294967295 := by
  have le : x % modulus ≤ modulus := by
    rw [UInt64.le_iff_toNat_le, UInt64.toNat_mod, toNat_modulus]
    omega
  rw [UInt64.toNat_sub_of_le _ _ le, UInt64.toNat_mod, toNat_modulus]

theorem toNat_shiftLeft_half {x : UInt64} (le : x.toNat ≤ 4294967295) :
    (x <<< 32).toNat = x.toNat * 2 ^ 32 := by
  rw [UInt64.toNat_shiftLeft]
  show x.toNat <<< 32 % 2 ^ 64 = _
  rw [Nat.shiftLeft_eq]
  omega

theorem Reduced.toNat_check (h : s.Reduced) :
    s.check.toNat = 2 ^ 32 * s.highCheck + s.lowCheck := by
  have := h.first
  have := h.second
  have low : (modulus - (s.first + s.second) % modulus).toNat = s.lowCheck := by
    rw [toNat_modulus_sub, UInt64.toNat_add, lowCheck]
    omega
  have lowBound : s.lowCheck ≤ 4294967295 := Nat.sub_le _ _
  have highBound : s.highCheck ≤ 4294967295 := Nat.sub_le _ _
  have high : (modulus - (s.first + (modulus - (s.first + s.second) % modulus)) % modulus).toNat
      = s.highCheck := by
    rw [toNat_modulus_sub, UInt64.toNat_add, low, highCheck]
    omega
  rw [check_eq, UInt64.toNat_or, toNat_shiftLeft_half (high ▸ highBound), high, low,
    ← Nat.shiftLeft_eq, ← Nat.shiftLeft_add_eq_or_of_lt (by omega), Nat.shiftLeft_eq, Nat.mul_comm]

/-- The check words tell both sums. -/
theorem Reduced.check_inj (hs : s.Reduced) (ht : t.Reduced) : s.check = t.check ↔ s = t := by
  constructor
  · intro same
    obtain ⟨hs₁, hs₂⟩ := hs
    obtain ⟨ht₁, ht₂⟩ := ht
    have words := congrArg UInt64.toNat same
    rw [Reduced.toNat_check ⟨hs₁, hs₂⟩, Reduced.toNat_check ⟨ht₁, ht₂⟩] at words
    have lows : s.lowCheck ≤ 4294967295 := Nat.sub_le _ _
    have lowt : t.lowCheck ≤ 4294967295 := Nat.sub_le _ _
    have low : s.lowCheck = t.lowCheck := by omega
    have high : s.highCheck = t.highCheck := by omega
    have first : s.first.toNat = t.first.toNat := by
      rw [highCheck, highCheck, low] at high
      omega
    have second : s.second.toNat = t.second.toNat := by
      rw [lowCheck, lowCheck] at low
      omega
    exact eq_of_toNat_eq first second
  · rintro rfl
    rfl

/-! ## Steps and their undoing -/

theorem Reduced.add_inj (hs : s.Reduced) (ht : t.Reduced) {w : UInt32} :
    s.add w = t.add w ↔ s = t := by
  constructor
  · intro same
    have first := congrArg (·.first.toNat) same
    have second := congrArg (·.second.toNat) same
    have := hs.first
    have := hs.second
    have := ht.first
    have := ht.second
    simp only [hs.second_add, ht.second_add] at second
    simp only [hs.first_add, ht.first_add] at first second
    exact eq_of_toNat_eq (by omega) (by omega)
  · rintro rfl
    rfl

/-- Equal words behind them do not make different sums equal. -/
theorem Reduced.foldl_add_inj (hs : s.Reduced) (ht : t.Reduced) (ws : List UInt32) :
    ws.foldl Sums.add s = ws.foldl Sums.add t ↔ s = t := by
  induction ws generalizing s t with
  | nil => rfl
  | cons w ws ih => exact (ih (hs.add w) (ht.add w)).trans (hs.add_inj ht)

theorem Reduced.add_eq_add_iff (h : s.Reduced) {x y : UInt32} :
    s.add x = s.add y ↔ residue x = residue y := by
  have first := h.first_add
  have second := h.second_add
  constructor
  · intro same
    have sum := congrArg (·.first.toNat) same
    simp only [first] at sum
    rw [residue, residue]
    omega
  · intro same
    rw [residue, residue] at same
    have sum : (s.add x).first.toNat = (s.add y).first.toNat := by
      rw [first, first]
      omega
    exact eq_of_toNat_eq sum (by rw [second, second, sum])

/-- Two changes in neighbouring words do not cancel in both sums. -/
theorem Reduced.add_add_eq_iff (h : s.Reduced) {x₁ x₂ y₁ y₂ : UInt32} :
    (s.add x₁).add x₂ = (s.add y₁).add y₂ ↔ residue x₁ = residue y₁ ∧ residue x₂ = residue y₂ := by
  constructor
  · intro same
    have hx := h.add x₁
    have hy := h.add y₁
    have middle : (s.add x₁).first.toNat = (s.add y₁).first.toNat := by
      have first := congrArg (·.first.toNat) same
      have second := congrArg (·.second.toNat) same
      have sum := h.second_add
      have := hx.first
      have := hy.first
      simp only [hx.second_add, hy.second_add, first, sum] at second
      omega
    have second : (s.add x₁).second.toNat = (s.add y₁).second.toNat := by
      rw [h.second_add, h.second_add, middle]
    have start := eq_of_toNat_eq middle second
    rw [start, hy.add_eq_add_iff] at same
    exact ⟨h.add_eq_add_iff.mp start, same⟩
  · rintro ⟨first, second⟩
    rw [h.add_eq_add_iff.mpr first]
    exact (h.add y₁).add_eq_add_iff.mpr second

/-- Of rows of words that differ in no more than two neighbouring words, the sums tell the residues
of these. -/
theorem Reduced.foldl_add_eq_iff (h : s.Reduced) {xs ys : List UInt32} (i : Nat)
    (length : xs.length = ys.length) (same : ∀ k, k < i ∨ i + 2 ≤ k → xs[k]? = ys[k]?) :
    xs.foldl Sums.add s = ys.foldl Sums.add s ↔ xs.map residue = ys.map residue := by
  induction i generalizing s xs ys with
  | zero =>
    match xs, ys with
    | [], [] => simp
    | [x], [y] => simp [h.add_eq_add_iff]
    | x₁ :: x₂ :: xs, y₁ :: y₂ :: ys =>
      have rest : xs = ys := by
        apply List.ext_getElem?
        intro k
        simpa using same (k + 2) (by omega)
      subst rest
      have undo := ((h.add x₁).add x₂).foldl_add_inj ((h.add y₁).add y₂) xs
      simp [undo, h.add_add_eq_iff]
    | [], _ :: _ | [_], _ :: _ :: _ | _ :: _, [] | _ :: _ :: _, [_] => simp at length
  | succ i ih =>
    match xs, ys with
    | [], [] => simp
    | x :: xs, y :: ys =>
      obtain rfl : x = y := by simpa using same 0 (by omega)
      have tail := ih (h.add x) (by simpa using length) fun k hk => by
        simpa using same (k + 1) (by omega)
      simpa using tail
    | [], _ :: _ | _ :: _, [] => simp at length

end Sums

/-! ## Words of a byte string -/

theorem foldl_words_reduced (ws : List UInt32) {s : Sums} (h : s.Reduced) :
    (ws.foldl Sums.add s).Reduced := by
  induction ws generalizing s with
  | nil => exact h
  | cons w ws ih => exact ih (h.add w)

/-- Equal checksums are those of equal sums. -/
theorem fletcher64_eq_iff {as bs : List UInt8} :
    fletcher64 as = fletcher64 bs ↔
      (words as).foldl Sums.add .zero = (words bs).foldl Sums.add .zero := by
  rw [fletcher64_eq, fletcher64_eq]
  exact (foldl_words_reduced _ Sums.zero_reduced).check_inj
    (foldl_words_reduced _ Sums.zero_reduced)

theorem words_eq_map_range (bs : List UInt8) :
    words bs = (List.range (bs.length / 4)).map fun k =>
      .ofNat (LittleEndian.value ((bs.drop (4 * k)).take 4)) := by
  fun_induction words bs with
  | case1 a b c d bs ih =>
    have length : (a :: b :: c :: d :: bs).length / 4 = bs.length / 4 + 1 := by
      simp only [List.length_cons]
      omega
    rw [length, List.range_succ_eq_map, List.map_cons, List.map_map, ih]
    rfl
  | case2 bs short =>
    have few : bs.length < 4 := by
      rcases bs with _ | ⟨a, _ | ⟨b, _ | ⟨c, _ | ⟨d, bs⟩⟩⟩⟩
      case cons.cons.cons.cons => exact absurd rfl (short a b c d bs)
      all_goals simp
    rw [Nat.div_eq_of_lt few, List.range_zero, List.map_nil]

end Apfs.Fletcher64
