import Apfs.Proofs.Number

/-!
# Blocks that agree

Two blocks agree on a stretch if they have the same slice there, and then they agree on all that
is inside of it. They agree outside a stretch if they hold the same bytes everywhere else.
-/

namespace Apfs.Block

variable {a b : Block} {i j p width : Nat}

theorem eq_of_toList_eq (h : a.toList = b.toList) : a = b := by
  obtain ⟨⟨as⟩, _⟩ := a
  obtain ⟨⟨bs⟩, _⟩ := b
  obtain rfl : as = bs := Array.toList_inj.mp h
  rfl

theorem getElem?_slice (b : Block) (i width k : Nat) :
    (b.slice i width)[k]? = if k < width then b.toList[i + k]? else none := by
  rw [slice, List.getElem?_take, List.getElem?_drop]

theorem slice_eq_nil (behind : b.bytes.size ≤ i) (width : Nat) : b.slice i width = [] := by
  apply List.eq_nil_of_length_eq_zero
  rw [length_slice]
  omega

theorem slice_eq_of_inside (h : a.slice i width = b.slice i width) (start : i ≤ j) {v : Nat}
    (stop : j + v ≤ i + width) : a.slice j v = b.slice j v := by
  apply List.ext_getElem?
  intro k
  have same := congrArg (·[j - i + k]?) h
  simp only [getElem?_slice] at same ⊢
  by_cases hk : k < v
  · have place : i + (j - i + k) = j + k := by omega
    rw [if_pos (by omega), if_pos (by omega), place] at same
    rw [if_pos hk, if_pos hk, same]
  · simp [hk]

theorem number_eq_of_inside (h : a.slice i width = b.slice i width) (start : i ≤ j) {v : Nat}
    (stop : j + v ≤ i + width) : a.number j v = b.number j v := by
  rw [number, number, slice_eq_of_inside h start stop]

/-- The number tells the bytes that it was read from. -/
theorem slice_eq_of_number_eq (size : b.bytes.size = a.bytes.size)
    (h : a.number i width = b.number i width) : a.slice i width = b.slice i width := by
  refine LittleEndian.value_injective ?_ h
  rw [length_slice, length_slice, size]

/-- The blocks have one size and the same bytes outside those from `i` up to `j`. -/
structure AgreeOutside (a b : Block) (i j : Nat) : Prop where
  size : b.bytes.size = a.bytes.size
  bytes : ∀ k < a.bytes.size, k < i ∨ j ≤ k → a.toList[k]? = b.toList[k]?

namespace AgreeOutside

theorem getElem?_eq (h : a.AgreeOutside b i j) {k : Nat} (outside : k < i ∨ j ≤ k) :
    a.toList[k]? = b.toList[k]? := by
  by_cases hk : k < a.bytes.size
  · exact h.bytes k hk outside
  · have size := h.size
    rw [List.getElem?_eq_none, List.getElem?_eq_none]
    · rw [length_toList]
      omega
    · rw [length_toList]
      omega

theorem slice_eq (h : a.AgreeOutside b i j) (outside : p + width ≤ i ∨ j ≤ p) :
    a.slice p width = b.slice p width := by
  apply List.ext_getElem?
  intro k
  simp only [getElem?_slice]
  by_cases hk : k < width
  · rw [if_pos hk, if_pos hk]
    exact h.getElem?_eq (by omega)
  · simp [hk]

theorem number_eq (h : a.AgreeOutside b i j) (outside : p + width ≤ i ∨ j ≤ p) :
    a.number p width = b.number p width := by
  rw [number, number, h.slice_eq outside]

theorem mono (h : a.AgreeOutside b i j) {i' j' : Nat} (start : i' ≤ i) (stop : j ≤ j') :
    a.AgreeOutside b i' j' where
  size := h.size
  bytes k hk outside := h.bytes k hk (by omega)

/-- Blocks that agree outside a stretch and on it as well are the same. -/
theorem eq (h : a.AgreeOutside b i j) (same : a.slice i (j - i) = b.slice i (j - i)) : a = b := by
  apply eq_of_toList_eq
  apply List.ext_getElem?
  intro k
  by_cases outside : k < i ∨ j ≤ k
  · exact h.getElem?_eq outside
  · have byte := congrArg (·[k - i]?) same
    have place : i + (k - i) = k := by omega
    simpa only [getElem?_slice, place, if_pos (show k - i < j - i by omega)] using byte

end AgreeOutside

end Apfs.Block
