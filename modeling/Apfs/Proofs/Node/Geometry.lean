import Apfs.Proofs.Node.Acceptance
import Apfs.Proofs.Node.ExactDecoding

/-!
# The geometry of nodes

In a node that the decoder accepts, the headers, the entry table, the unused bytes and the footer
follow on one another. The slots that are read lie side by side in the entry table, keys keep
behind it, and values do not start behind the footer. A slot takes up eight bytes of the block, so
the number of entries is bounded by the size of the block, whatever the footer says: also a block
that is refused for an entry is refused within that bound. All this rests on numbers that are what
they seem to be, because on the way to them nothing wraps around.
-/

namespace Apfs

/-- The index of the entry for which a block is refused. -/
def Defect.entryIndex? : Defect → Option UInt64
  | .entryOutside index .. | .valueBeforeBlock index .. => some index
  | .emptyBlock | .truncated .. | .unsupported .. | .regionTooLarge .. | .tooManyEntries ..
  | .checksumMismatch .. => none

namespace Node

/-- The number of slots for which a block of some size has room in an entry table. -/
def mostEntries (size : Nat) : Nat := min 8191 ((size - 90) / 8)

/-- The headers, the entry table, the unused bytes and the footer, each as start and stop. -/
def regions (n : Node) : List (Nat × Nat) :=
  let table := 50 + n.header.entriesOffset.toNat
  let keys := table + n.header.entriesSize.toNat
  let unused := keys + n.header.unusedOffset.toNat
  [(0, 50), (table, keys), (unused, unused + n.header.unusedSize.toNat),
    (n.block.bytes.size - 40, n.block.bytes.size)]

/-- A node of which every part is where it belongs. -/
structure WellPlaced (n : Node) : Prop where
  ordered : n.regions.Pairwise fun r s => r.2 ≤ s.1
  inside : ∀ r ∈ n.regions, r.1 ≤ r.2 ∧ r.2 ≤ n.block.bytes.size
  slots_inside : ∀ i < n.entries.length,
    50 + n.header.entriesOffset.toNat ≤ (n.header.slotStart i).toNat ∧
      (n.header.slotStart i).toNat + 8
        ≤ 50 + n.header.entriesOffset.toNat + n.header.entriesSize.toNat
  slots_apart : ∀ j < n.entries.length, ∀ i < j,
    (n.header.slotStart i).toNat + 8 ≤ (n.header.slotStart j).toNat
  keys : ∀ e ∈ n.entries,
    50 + n.header.entriesOffset.toNat + n.header.entriesSize.toNat ≤ e.key.start.toNat ∧
      e.key.start.toNat + e.key.length.toNat ≤ n.block.bytes.size
  values : ∀ e ∈ n.entries, e.value.start.toNat ≤ n.block.bytes.size - 40 ∧
    e.value.start.toNat + e.value.length.toNat ≤ n.block.bytes.size
  count : n.entries.length = n.footer.numberOfEntries.toNat
  few : n.entries.length ≤ mostEntries n.block.bytes.size

variable {b : Block} {n : Node}

namespace StandsIn

variable (h : n.StandsIn b)

include h

theorem header_numbers (room : 32 + Record.size NodeHeader ≤ b.bytes.size) :
    n.header.entriesOffset.toNat = b.entriesOffset ∧ n.header.entriesSize.toNat = b.entriesSize ∧
      n.header.unusedOffset.toNat = b.unusedOffset ∧ n.header.unusedSize.toNat = b.unusedSize := by
  have header : n.header = Record.ofBlock b 32 room :=
    LawfulRecord.eq_of_toBytes_eq (h.header.trans (LawfulRecord.toBytes_ofBlock room).symm)
  rw [header]
  exact ⟨toNat_entriesOffset room, toNat_entriesSize room, toNat_unusedOffset room,
    toNat_unusedSize room⟩

theorem footer_count (minimum : 90 ≤ b.bytes.size) :
    n.footer.numberOfEntries.toNat = b.entryCount := by
  have room : b.bytes.size - 40 + Record.size NodeFooter ≤ b.bytes.size := by
    rw [size_nodeFooter]
    omega
  have footer : n.footer = Record.ofBlock b (b.bytes.size - 40) room :=
    LawfulRecord.eq_of_toBytes_eq (h.footer.trans (LawfulRecord.toBytes_ofBlock room).symm)
  rw [footer, toNat_numberOfEntries minimum]

theorem length_entries : n.entries.length = b.entryCount := by
  have length := congrArg List.length h.entries
  simpa using length

/-- Each entry is at the numbers of one of the slots in use. -/
theorem exists_slot {e : Entry} (he : e ∈ n.entries) : ∃ i < b.entryCount,
    e.key.start.toNat = b.keyStart i ∧ e.key.length.toNat = b.keyLength i ∧
      e.value.start.toNat = b.valueStart i ∧ e.value.length.toNat = b.valueLength i := by
  have mem : e.numbers ∈ n.entries.map Entry.numbers := List.mem_map_of_mem he
  rw [h.entries] at mem
  obtain ⟨i, hi, numbers⟩ := List.mem_map.mp mem
  simp only [Block.entryNumbers, Entry.numbers, Span.numbers, Prod.mk.injEq] at numbers
  obtain ⟨⟨keyStart, keyLength⟩, valueStart, valueLength⟩ := numbers
  exact ⟨i, List.mem_range.mp hi, keyStart.symm, keyLength.symm, valueStart.symm, valueLength.symm⟩

end StandsIn

/-- The entry table bounds the number of entries, and the block bounds the entry table. -/
theorem entryCount_le
    (regions : b.entriesOffset + b.entriesSize + b.unusedOffset + b.unusedSize ≤ b.bytes.size - 90)
    (count : 8 * b.entryCount ≤ b.entriesSize) : b.entryCount ≤ mostEntries b.bytes.size := by
  have size : b.entriesSize < 65536 := b.number_lt 36 2
  rw [mostEntries]
  omega

theorem wellPlaced_of_decode (h : decode b = .ok n) : n.WellPlaced := by
  have standsIn := standsIn_of_decode h
  obtain ⟨minimum, -, -, -, regions, -, -, count, entries⟩ := exists_decode_iff_isNode.mp ⟨n, h⟩
  obtain ⟨offset, table, unusedOffset, unusedSize⟩ := standsIn.header_numbers
    (show 50 ≤ b.bytes.size by omega)
  have length := standsIn.length_entries
  have slot : ∀ i < n.entries.length,
      (n.header.slotStart i).toNat = 50 + b.entriesOffset + 8 * i := by
    intro i hi
    have small : b.entriesSize < 65536 := b.number_lt 36 2
    rw [n.header.toNat_slotStart (by omega), offset]
  obtain rfl := standsIn.block
  constructor
  case ordered =>
    simp [Node.regions, offset, table, unusedOffset, unusedSize]
    omega
  case inside =>
    simp [Node.regions, offset, table, unusedOffset, unusedSize]
    omega
  case slots_inside =>
    intro i hi
    have start := slot i hi
    omega
  case slots_apart =>
    intro j hj i hi
    have first := slot i (by omega)
    have second := slot j hj
    omega
  case keys =>
    intro e he
    obtain ⟨i, hi, start, size, -, -⟩ := standsIn.exists_slot he
    obtain ⟨inside, -, -⟩ := entries i hi
    rw [Block.keyStart] at start inside
    omega
  case values =>
    intro e he
    obtain ⟨i, hi, -, -, start, size⟩ := standsIn.exists_slot he
    obtain ⟨-, before, inside⟩ := entries i hi
    rw [Block.valueStart] at start
    omega
  case count => rw [length, standsIn.footer_count minimum]
  case few => exact length ▸ entryCount_le regions count

/-- The defects of the checks before the entries name no entry. -/
theorem entryIndex?_eq_none {c : Check}
    (hc : c ∈ headerChecks b ++ regionChecks b ++ footerChecks b) :
    c.defect.entryIndex? = none := by
  simp only [headerChecks, regionChecks, footerChecks, List.mem_append, List.mem_cons,
    List.not_mem_nil, or_false] at hc
  rcases hc with ((rfl | rfl | rfl | rfl | rfl | rfl) | (rfl | rfl | rfl | rfl)) |
    (rfl | rfl | rfl)
  all_goals rfl

theorem entryIndex?_of_entryChecks {i : Nat} {c : Check} (hc : c ∈ entryChecks b i) :
    c.defect.entryIndex? = some (.ofNat i) := by
  simp only [entryChecks, List.mem_cons, List.not_mem_nil, or_false] at hc
  rcases hc with rfl | rfl | rfl
  all_goals rfl

/-- An entry is looked at only if the checks before the entries hold, and these bound its index. -/
theorem entryIndex_lt {d : Defect} {index : UInt64} (h : decode b = .error d)
    (entry : d.entryIndex? = some index) : index.toNat < mostEntries b.bytes.size := by
  rw [(decode_follows b).eq_error_iff, checks, firstDefect?_append] at h
  cases first : firstDefect? (headerChecks b ++ regionChecks b ++ footerChecks b) with
  | some d' =>
    rw [first, Option.some_or] at h
    obtain ⟨c, hc, rfl⟩ := exists_mem_of_firstDefect? (first.trans h)
    rw [entryIndex?_eq_none hc] at entry
    exact absurd entry (by simp)
  | none =>
    rw [first, Option.none_or] at h
    simp only [firstDefect?_eq_none_iff, List.forall_mem_append, regionChecks_hold_iff,
      footerChecks_hold_iff] at first
    obtain ⟨⟨-, regions⟩, -, -, count⟩ := first
    obtain ⟨c, hc, rfl⟩ := exists_mem_of_firstDefect? h
    obtain ⟨i, hi, hc⟩ := List.mem_flatMap.mp hc
    rw [entryIndex?_of_entryChecks hc, Option.some.injEq] at entry
    have bound := entryCount_le regions count
    have value : index.toNat ≤ i := by
      rw [← entry, UInt64.toNat_ofNat']
      exact Nat.mod_le _ _
    rw [List.mem_range] at hi
    omega

/-- In an accepted node every part is where it belongs. No block makes the decoder look at more
entries than it has room for, and with none does a number on the way wrap around. -/
theorem decode_wellPlaced (b : Block) :
    (Exact.decode b).run = some (decode b) ∧
    (∀ n, decode b = .ok n → n.block = b ∧ n.WellPlaced) ∧
    ∀ d index, decode b = .error d → d.entryIndex? = some index →
      index.toNat < mostEntries b.bytes.size :=
  ⟨decode_gives b, fun _ h => ⟨(standsIn_of_decode h).block, wellPlaced_of_decode h⟩,
    fun _ _ h entry => entryIndex_lt h entry⟩

theorem decode_wellPlaced_oneEntry :
    ∃ n, decode (oneEntry 7 1 2) = .ok n ∧ n.WellPlaced ∧
      n.regions = [(0, 50), (50, 58), (59, 59), (60, 100)] := by
  have accepted : ∃ n, decode (oneEntry 7 1 2) = .ok n ∧
      n.regions = [(0, 50), (50, 58), (59, 59), (60, 100)] := ⟨_, rfl, rfl⟩
  obtain ⟨n, decoded, regions⟩ := accepted
  exact ⟨n, decoded, ((decode_wellPlaced (oneEntry 7 1 2)).2.1 n decoded).2, regions⟩

end Node

end Apfs
