import Apfs.Arithmetic
import Apfs.Defect

/-!
# Lists of checks

A check is a condition together with the defect that is reported where the condition fails. A
computation follows a list of checks if it succeeds exactly when all of them hold, and otherwise
reports the defect of the first that does not. One rule for each way to put computations together
keeps the list in step with the computation, and hands what the checks so far have shown on to the
computations behind them.
-/

namespace Apfs

structure Check where
  holds : Bool
  defect : Defect

/-- The defect of the first check that fails. -/
def firstDefect? (checks : List Check) : Option Defect :=
  (checks.find? (!·.holds)).map (·.defect)

@[simp] theorem firstDefect?_nil : firstDefect? [] = none := rfl

theorem firstDefect?_cons (c : Check) (checks : List Check) :
    firstDefect? (c :: checks) = if c.holds then firstDefect? checks else some c.defect := by
  cases h : c.holds <;> simp [firstDefect?, h]

theorem firstDefect?_append (checks more : List Check) :
    firstDefect? (checks ++ more) = (firstDefect? checks).or (firstDefect? more) := by
  simp [firstDefect?, List.find?_append, Option.map_or]

theorem firstDefect?_eq_none_iff {checks : List Check} :
    firstDefect? checks = none ↔ ∀ c ∈ checks, c.holds := by
  simp [firstDefect?]

/-- A defect is the first one if its check fails and all checks before it hold. -/
theorem firstDefect?_eq_some_iff {checks : List Check} {d : Defect} :
    firstDefect? checks = some d ↔
      ∃ before c after, checks = before ++ c :: after ∧ (∀ a ∈ before, a.holds) ∧
        c.holds = false ∧ c.defect = d := by
  simp only [firstDefect?, Option.map_eq_some_iff, List.find?_eq_some_iff_append]
  constructor
  · rintro ⟨c, ⟨fails, before, after, rfl, holds⟩, rfl⟩
    exact ⟨before, c, after, rfl, by simpa using holds, by simpa using fails, rfl⟩
  · rintro ⟨before, c, after, rfl, holds, fails, rfl⟩
    exact ⟨c, ⟨by simpa using fails, before, after, rfl, by simpa using holds⟩, rfl⟩

theorem exists_mem_of_firstDefect? {checks : List Check} {d : Defect}
    (h : firstDefect? checks = some d) : ∃ c ∈ checks, c.defect = d := by
  obtain ⟨before, c, after, rfl, -, -, defect⟩ := firstDefect?_eq_some_iff.mp h
  exact ⟨c, List.mem_append_right _ (List.mem_cons_self ..), defect⟩

theorem firstDefect?_flatMap_range_eq_none_iff {f : Nat → List Check} {n : Nat} :
    firstDefect? ((List.range n).flatMap f) = none ↔ ∀ i < n, firstDefect? (f i) = none := by
  simp only [firstDefect?_eq_none_iff, List.forall_mem_flatMap, List.mem_range]

/-- Of lists of checks that are made in turn, the first with a defect tells it. -/
theorem firstDefect?_flatMap_range_eq_some_iff {f : Nat → List Check} {n : Nat} {d : Defect} :
    firstDefect? ((List.range n).flatMap f) = some d ↔
      ∃ i < n, firstDefect? (f i) = some d ∧ ∀ j < i, firstDefect? (f j) = none := by
  induction n with
  | zero => simp
  | succ n ih =>
    rw [List.range_succ, List.flatMap_append, firstDefect?_append, List.flatMap_singleton]
    cases before : firstDefect? ((List.range n).flatMap f) with
    | none =>
      have hold := firstDefect?_flatMap_range_eq_none_iff.mp before
      grind
    | some d' =>
      have fails : ¬ ∀ i < n, firstDefect? (f i) = none := by
        intro hold
        rw [firstDefect?_flatMap_range_eq_none_iff.mpr hold] at before
        cases before
      rw [Option.some_or, ← before, ih]
      grind

/-- What a computation returns that makes the checks in turn, where `P` is known of its value. -/
inductive Follows {α : Type} : Except Defect α → List Check → (α → Prop) → Prop
  | passed {a : α} {checks : List Check} {P : α → Prop} :
    firstDefect? checks = none → P a → Follows (.ok a) checks P
  | failed {d : Defect} {checks : List Check} {P : α → Prop} :
    firstDefect? checks = some d → Follows (.error d) checks P

namespace Follows

variable {α β : Type} {P : α → Prop} {Q : β → Prop} {checks more : List Check}

theorem ok {a : α} (h : P a) : Follows (.ok a) [] P := .passed rfl h

theorem mono {P' : α → Prop} {result : Except Defect α} (h : Follows result checks P)
    (weaken : ∀ a, P a → P' a) : Follows result checks P' := by
  cases h with
  | passed none ha => exact .passed none (weaken _ ha)
  | failed some => exact .failed some

theorem eq_ok_iff {result : Except Defect α} (h : Follows result checks P) :
    (∃ a, result = .ok a) ↔ ∀ c ∈ checks, c.holds := by
  rw [← firstDefect?_eq_none_iff]
  cases h with
  | passed none => simp [none]
  | failed some => simp [some]

theorem eq_error_iff {result : Except Defect α} (h : Follows result checks P) {d : Defect} :
    result = .error d ↔ firstDefect? checks = some d := by
  cases h with
  | passed none => simp [none]
  | failed some => simp [some]

theorem of_eq_ok {result : Except Defect α} (h : Follows result checks P) {a : α}
    (passed : result = .ok a) : P a := by
  subst passed
  obtain ⟨-, ha⟩ := h
  exact ha

theorem bind {result : Except Defect α} {next : α → Except Defect β}
    (first : Follows result checks P) (second : ∀ a, P a → Follows (next a) more Q) :
    Follows (result >>= next) (checks ++ more) Q := by
  cases first with
  | failed some =>
    refine .failed ?_
    rw [firstDefect?_append, some, Option.some_or]
  | @passed a _ _ none ha =>
    show Follows (next a) _ Q
    have prior : firstDefect? (checks ++ more) = firstDefect? more := by
      rw [firstDefect?_append, none, Option.none_or]
    generalize next a = result, second a ha = rest
    cases rest with
    | passed none hb => exact .passed (prior.trans none) hb
    | failed some => exact .failed (prior.trans some)

/-- An operation on machine words goes on with its result, whatever that should have been. -/
theorem settle_bind {w : UInt64} {exact : Int} {next : Result w → Except Defect β}
    (rest : Follows (next ⟨w, rfl⟩) more Q) :
    Follows (Arithmetic.settle w exact >>= next) more Q := rest

theorem ite {condition : Prop} {_ : Decidable condition} {c : Check} {a : α} {d : Defect}
    (holds : c.holds = true ↔ condition) (defect : c.defect = d) (h : condition → P a) :
    Follows (if condition then .ok a else .error d) [c] P := by
  split
  case isTrue met =>
    refine .passed ?_ (h met)
    rw [firstDefect?_cons, if_pos (holds.mpr met), firstDefect?_nil]
  case isFalse unmet =>
    refine .failed ?_
    rw [firstDefect?_cons, if_neg (fun passed => unmet (holds.mp passed)), defect]

theorem require {condition : Prop} {_ : Decidable condition} {c : Check} {d : Defect}
    (holds : c.holds = true ↔ condition) (defect : c.defect = d) :
    Follows (Defect.require condition d) [c] fun _ => condition :=
  ite holds defect id

theorem require_bind {condition : Prop} {_ : Decidable condition} {c : Check} {d : Defect}
    {next : Unit → Except Defect β} (holds : c.holds = true ↔ condition) (defect : c.defect = d)
    (rest : condition → Follows (next ()) more Q) :
    Follows (Defect.require condition d >>= next) (c :: more) Q :=
  bind (require holds defect) fun _ h => rest h

theorem mapM {ι γ : Type} {f : ι → Except Defect α} {checks : ι → List Check} {view : α → γ}
    {v : ι → γ} (is : List ι)
    (each : ∀ i ∈ is, Follows (f i) (checks i) fun a => view a = v i) :
    Follows (is.mapM f) (is.flatMap checks) fun as => as.map view = is.map v := by
  induction is with
  | nil => exact ok rfl
  | cons i is ih =>
    rw [List.mapM_cons, List.flatMap_cons]
    refine bind (each i (List.mem_cons_self ..)) fun a ha => ?_
    rw [← List.append_nil (is.flatMap checks)]
    refine bind (ih fun j hj => each j (List.mem_cons_of_mem i hj)) fun as has => ?_
    exact ok (by simp [ha, has])

end Follows

end Apfs
