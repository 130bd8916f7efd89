import Mathlib.Algebra.Ring.Nat
import Apfs.Arithmetic
import Apfs.Defect

/-!
# Exact computations

The sums, differences and products of machine words wrap around silently. An exact computation goes
on only with words that have the value of the exact result, and stops without an answer at the first
that has not. If a computation with machine words, run in this way, gives the result that it gives
otherwise, then nothing in it wraps around or loses a bit.
-/

namespace Apfs

/-- A computation that ends with an answer or a defect, or with neither if a number gets out of
the range of machine words. -/
abbrev Exact := ExceptT Defect Option

instance : Arithmetic Exact where
  settle w exact := if (w.toNat : Int) = exact then return ⟨w, rfl⟩ else .mk none

namespace Exact

/-! ## Words with exact values -/

section Values

variable {v w : UInt64}

theorem toNat_ofNat {n : Nat} (fits : n < 2 ^ 64) : ((UInt64.ofNat n).toNat : Int) = n :=
  congrArg Int.ofNat (UInt64.toNat_ofNat_of_lt' fits)

theorem toNat_add (fits : v.toNat + w.toNat < 2 ^ 64) :
    ((v + w).toNat : Int) = v.toNat + w.toNat := by
  rw [UInt64.toNat_add, Nat.mod_eq_of_lt fits]
  exact Int.natCast_add ..

theorem toNat_sub (le : w ≤ v) : ((v - w).toNat : Int) = v.toNat - w.toNat := by
  rw [UInt64.toNat_sub_of_le v w le]
  exact Int.ofNat_sub (UInt64.le_iff_toNat_le.mp le)

theorem toNat_mul (fits : v.toNat * w.toNat < 2 ^ 64) :
    ((v * w).toNat : Int) = v.toNat * w.toNat := by
  rw [UInt64.toNat_mul, Nat.mod_eq_of_lt fits]
  exact Int.natCast_mul ..

end Values

/-! ## Answers -/

variable {α β : Type}

/-- The computation comes to the given result without leaving the range of machine words. -/
def Gives (c : Exact α) (result : Except Defect α) : Prop := c.run = some result

namespace Gives

theorem pure (a : α) : Gives (Pure.pure a) (.ok a) := rfl

theorem lift (result : Except Defect α) : Gives (liftM result) (liftM result) := rfl

theorem bind {c : Exact α} {result : Except Defect α} {f : α → Exact β} {g : α → Except Defect β}
    (first : Gives c result) (rest : ∀ a, result = .ok a → Gives (f a) (g a)) :
    Gives (c >>= f) (result >>= g) := by
  cases result with
  | error d =>
    show (c >>= f).run = _
    rw [ExceptT.run_bind, first]
    rfl
  | ok a =>
    show (c >>= f).run = _
    rw [ExceptT.run_bind, first]
    exact rest a rfl

/-- An operation goes on exactly if its word has the value of the exact result. -/
theorem settle_iff {w : UInt64} {n : Int} :
    Gives (Arithmetic.settle w n : Exact (Result w)) (.ok ⟨w, rfl⟩) ↔ (w.toNat : Int) = n := by
  show (if (w.toNat : Int) = n then (Pure.pure ⟨w, rfl⟩ : Exact (Result w)) else .mk none).run
    = some (.ok ⟨w, rfl⟩) ↔ _
  split
  case isTrue value => exact iff_of_true rfl value
  case isFalse other => exact iff_of_false nofun other

/-- An operation with an exact result goes on as if its result were not looked at. -/
theorem settle_bind {w : UInt64} {n : Int} {f : Result w → Exact α} {g : Result w → Except Defect α}
    (value : (w.toNat : Int) = n) (rest : Gives (f ⟨w, rfl⟩) (g ⟨w, rfl⟩)) :
    Gives (Arithmetic.settle w n >>= f) (Arithmetic.settle w n >>= g) := by
  show Gives _ (Except.ok ⟨w, rfl⟩ >>= g)
  refine bind (settle_iff.mpr value) fun a same => ?_
  obtain rfl := Except.ok.inj same
  exact rest

theorem require_bind {condition : Prop} {_ : Decidable condition} {d : Defect}
    {f : Unit → Exact β} {g : Unit → Except Defect β}
    (rest : condition → Gives (f ()) (g ())) :
    Gives (liftM (Defect.require condition d) >>= f)
      (liftM (Defect.require condition d) >>= g) := by
  refine bind (lift _) fun _ passed => ?_
  replace passed : Defect.require condition d = .ok () := passed
  unfold Defect.require at passed
  split at passed
  case isTrue met => exact rest met
  case isFalse => simp at passed

theorem mapM {ι : Type} {f : ι → Exact α} {g : ι → Except Defect α} (is : List ι)
    (each : ∀ i ∈ is, Gives (f i) (g i)) : Gives (is.mapM f) (is.mapM g) := by
  induction is with
  | nil => exact pure []
  | cons i is ih =>
    rw [List.mapM_cons, List.mapM_cons]
    refine bind (each i (List.mem_cons_self ..)) fun a _ => ?_
    refine bind (ih fun j hj => each j (List.mem_cons_of_mem i hj)) fun as _ => ?_
    exact pure (a :: as)

theorem foldlM {σ ι : Type} {P : σ → Prop} {f : σ → ι → Exact σ} {g : σ → ι → σ}
    (step : ∀ s i, P s → Gives (f s i) (.ok (g s i)) ∧ P (g s i)) (is : List ι) {s : σ} (h : P s) :
    Gives (is.foldlM f s) (.ok (is.foldl g s)) := by
  induction is generalizing s with
  | nil => exact pure s
  | cons i is ih =>
    obtain ⟨first, kept⟩ := step s i h
    rw [List.foldlM_cons, List.foldl_cons]
    exact bind (g := fun s => .ok (is.foldl g s)) first fun _ stepped =>
      Except.ok.inj stepped ▸ ih kept

end Gives

end Exact

end Apfs
