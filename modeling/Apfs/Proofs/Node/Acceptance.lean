import Apfs.Proofs.Node.Decoding

/-!
# Which blocks are nodes

`IsNode` says of which blocks the decoder makes a node, without the order of its checks and
without the differences and quotients that they compare: sums of unbounded numbers stand in their
place. The node that it makes has the bytes of the block as its parts and an entry for each slot
in use.
-/

namespace Apfs

structure Block.IsNode (b : Block) : Prop where
  minimum : 90 ≤ b.bytes.size
  type : b.number 24 4 = 2
  subtype : b.number 28 4 = 14
  flags : b.number 32 2 = 3
  regions : b.entriesOffset + b.entriesSize + b.unusedOffset + b.unusedSize ≤ b.bytes.size - 90
  keySize : b.number (b.bytes.size - 32) 4 = 0
  valueSize : b.number (b.bytes.size - 28) 4 = 0
  count : 8 * b.entryCount ≤ b.entriesSize
  entries : ∀ i < b.entryCount, b.keyStart i + b.keyLength i ≤ b.bytes.size ∧
    b.valueOffset i ≤ b.bytes.size - 40 ∧ b.valueLength i ≤ b.valueOffset i + 40

namespace Node

variable {b : Block}

theorem headerChecks_hold_iff :
    (∀ c ∈ headerChecks b, c.holds) ↔
      90 ≤ b.bytes.size ∧ b.number 24 4 = 2 ∧ b.number 28 4 = 14 ∧ b.number 32 2 = 3 := by
  simp only [headerChecks, fieldCheck, List.forall_mem_cons, decide_eq_true_eq]
  constructor
  · rintro ⟨-, -, type, subtype, flags, minimum, -⟩
    exact ⟨minimum, type, subtype, flags⟩
  · rintro ⟨minimum, type, subtype, flags⟩
    exact ⟨by omega, by omega, type, subtype, flags, minimum, List.forall_mem_nil _⟩

theorem regionChecks_hold_iff :
    (∀ c ∈ regionChecks b, c.holds) ↔
      b.entriesOffset + b.entriesSize + b.unusedOffset + b.unusedSize ≤ b.bytes.size - 90 := by
  simp only [regionChecks, regionCheck, List.forall_mem_cons, decide_eq_true_eq]
  constructor
  · rintro ⟨h₁, h₂, h₃, h₄, -⟩
    omega
  · intro h
    exact ⟨by omega, by omega, by omega, by omega, List.forall_mem_nil _⟩

theorem footerChecks_hold_iff :
    (∀ c ∈ footerChecks b, c.holds) ↔
      b.number (b.bytes.size - 32) 4 = 0 ∧ b.number (b.bytes.size - 28) 4 = 0 ∧
        8 * b.entryCount ≤ b.entriesSize := by
  simp only [footerChecks, fieldCheck, List.forall_mem_cons, decide_eq_true_eq]
  constructor
  · rintro ⟨key, value, count, -⟩
    exact ⟨key, value, by omega⟩
  · rintro ⟨key, value, count⟩
    exact ⟨key, value, by omega, List.forall_mem_nil _⟩

theorem entryChecks_hold_iff (minimum : 90 ≤ b.bytes.size) {i : Nat} :
    (∀ c ∈ entryChecks b i, c.holds) ↔ b.keyStart i + b.keyLength i ≤ b.bytes.size ∧
      b.valueOffset i ≤ b.bytes.size - 40 ∧ b.valueLength i ≤ b.valueOffset i + 40 := by
  simp only [entryChecks, spanCheck, List.forall_mem_cons, decide_eq_true_eq]
  rw [Block.valueStart]
  constructor
  · rintro ⟨key, start, value, -⟩
    exact ⟨key, start, by omega⟩
  · rintro ⟨key, start, value⟩
    exact ⟨key, start, by omega, List.forall_mem_nil _⟩

/-- The checks of a node hold together exactly if its block is one. -/
theorem checks_hold_iff_isNode : (∀ c ∈ checks b, c.holds) ↔ b.IsNode := by
  simp only [checks, List.forall_mem_append, List.forall_mem_flatMap, List.mem_range,
    headerChecks_hold_iff, regionChecks_hold_iff, footerChecks_hold_iff]
  constructor
  · rintro ⟨⟨⟨⟨minimum, type, subtype, flags⟩, regions⟩, key, value, count⟩, entries⟩
    exact ⟨minimum, type, subtype, flags, regions, key, value, count,
      fun i hi => (entryChecks_hold_iff minimum).mp (entries i hi)⟩
  · intro h
    exact ⟨⟨⟨⟨h.minimum, h.type, h.subtype, h.flags⟩, h.regions⟩, h.keySize, h.valueSize, h.count⟩,
      fun i hi => (entryChecks_hold_iff h.minimum).mpr (h.entries i hi)⟩

theorem standsIn_of_decode {n : Node} (h : decode b = .ok n) : n.StandsIn b :=
  (decode_follows b).of_eq_ok h

theorem exists_decode_iff_isNode : (∃ n, decode b = .ok n) ↔ b.IsNode :=
  (decode_follows b).eq_ok_iff.trans checks_hold_iff_isNode

theorem decodeEntries_eq_map (b : Block) : decodeEntries b = (decode b).map (·.entries) := by
  rw [decodeEntries]
  cases decode b <;> rfl

/-- The decoder accepts exactly the blocks that are nodes, and what it returns of them is what
stands in them: the headers and the footer field by field, and one entry for each slot in use, in
the order of the slots. -/
theorem decode_ok_iff_isNode (b : Block) :
    ((∃ n, decode b = .ok n) ↔ b.IsNode) ∧
    (∀ n, decode b = .ok n → n.StandsIn b) ∧
    (∀ entries, decodeEntries b = .ok entries ↔ ∃ n, decode b = .ok n ∧ n.entries = entries) ∧
    ∀ d, decodeEntries b = .error d ↔ decode b = .error d := by
  refine ⟨exists_decode_iff_isNode, fun n h => standsIn_of_decode h, fun entries => ?_,
    fun d => ?_⟩
  · rw [decodeEntries_eq_map]
    cases decode b <;> simp [Except.map]
  · rw [decodeEntries_eq_map]
    cases decode b <;> simp [Except.map]

/-- A node of one entry, with a key and a value of one byte each. -/
def oneEntry (identifier key value : UInt8) : Block where
  bytes := ⟨#[0, 0, 0, 0, 0, 0, 0, 0, identifier, 0, 0, 0, 0, 0, 0, 0, 0, 0, 0, 0, 0, 0, 0, 0,
    2, 0, 0, 0, 14, 0, 0, 0, 3, 0, 0, 0, 8, 0, 1, 0, 0, 0, 255, 255, 0, 0, 255, 255, 0, 0,
    0, 0, 1, 0, 1, 0, 1, 0, key, value,
    0, 0, 0, 0, 0, 16, 0, 0, 0, 0, 0, 0, 0, 0, 0, 0, 1, 0, 0, 0, 1, 0, 0, 0,
    1, 0, 0, 0, 0, 0, 0, 0, 1, 0, 0, 0, 0, 0, 0, 0]⟩
  size_lt := show 100 < _ by decide

end Node

end Apfs
