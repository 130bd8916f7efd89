import Mathlib.Data.List.Basic
import Apfs.Proofs.Agreement
import Apfs.Proofs.Node.Acceptance
import Apfs.Proofs.Node.Records

/-!
# What the verdict on a node depends on

The decoder reads few bytes of a block: the fields that admit one value only, the regions, the
number of entries, and the slots in use. Which slots these are is itself read from the block, and
they are read only if the entry table has room for all of them. Blocks that agree on these bytes
get the same verdict: the same entries, or the same defect with the same numbers. Of all other
bytes, only those of the keys and values show at all, and each in its own place in the records.
-/

namespace Apfs

variable {a b : Block}

namespace Block

/-- Blocks of one size that agree on the fields by which the decoder decides. -/
structure SameFields (a b : Block) : Prop where
  headers : a.slice 24 18 = b.slice 24 18
  footerSizes : a.slice (a.bytes.size - 32) 8 = b.slice (a.bytes.size - 32) 8
  count : a.slice (a.bytes.size - 16) 8 = b.slice (a.bytes.size - 16) 8
  slots : a.entryCount ≤ a.entriesSize / 8 →
    a.slice (50 + a.entriesOffset) (8 * a.entryCount)
      = b.slice (50 + a.entriesOffset) (8 * a.entryCount)

/-- Records of an entry, each with the bytes of its own block, differ only in bytes inside the
spans of the entry in which the blocks differ as well. -/
structure DifferWithin (a b : Block) (e : Entry) (r s : KeyValue) : Prop where
  key (j : Nat) : r.key.data[j]? ≠ s.key.data[j]? → j < e.key.length.toNat ∧
    a.toList[e.key.start.toNat + j]? ≠ b.toList[e.key.start.toNat + j]?
  value (j : Nat) : r.value.data[j]? ≠ s.value.data[j]? → j < e.value.length.toNat ∧
    a.toList[e.value.start.toNat + j]? ≠ b.toList[e.value.start.toNat + j]?

theorem entriesOffset_congr (h : a.slice 24 18 = b.slice 24 18) :
    a.entriesOffset = b.entriesOffset := number_eq_of_inside h (by decide) (by decide)

theorem entriesSize_congr (h : a.slice 24 18 = b.slice 24 18) : a.entriesSize = b.entriesSize :=
  number_eq_of_inside h (by decide) (by decide)

theorem getElem?_slice_differ {i width j : Nat}
    (h : (a.slice i width)[j]? ≠ (b.slice i width)[j]?) :
    j < width ∧ a.toList[i + j]? ≠ b.toList[i + j]? := by
  rw [getElem?_slice, getElem?_slice] at h
  by_cases hj : j < width
  · rw [if_pos hj, if_pos hj] at h
    exact ⟨hj, h⟩
  · rw [if_neg hj, if_neg hj] at h
    exact absurd rfl h

end Block

namespace Node

open Block (number_eq_of_inside)

/-- The verdict is told by the first defect, and by the numbers of the entries if there is none. -/
theorem decodeEntries_congr (defect : firstDefect? (checks a) = firstDefect? (checks b))
    (numbers : firstDefect? (checks a) = none →
      (List.range a.entryCount).map a.entryNumbers = (List.range b.entryCount).map b.entryNumbers) :
    decodeEntries a = decodeEntries b := by
  rw [decodeEntries_eq_map, decodeEntries_eq_map]
  cases ha : decode a with
  | error d =>
    have first := (decode_follows a).eq_error_iff.mp ha
    rw [(decode_follows b).eq_error_iff.mpr (defect ▸ first)]
  | ok m =>
    have none := firstDefect?_eq_none_iff.mpr ((decode_follows a).eq_ok_iff.mp ⟨m, ha⟩)
    obtain ⟨n, hb⟩ := (decode_follows b).eq_ok_iff.mpr (firstDefect?_eq_none_iff.mp (defect ▸ none))
    have same : m.entries.map Entry.numbers = n.entries.map Entry.numbers := by
      rw [(standsIn_of_decode ha).entries, (standsIn_of_decode hb).entries, numbers none]
    rw [hb]
    exact congrArg Except.ok ((List.map_inj_right fun _ _ => Entry.eq_of_numbers_eq).mp same)

/-- Checks that fail decide alone, whatever is checked behind them. -/
theorem decodeEntries_congr_of_defect {before : List Check} (ha : before <+: checks a)
    (hb : before <+: checks b) (fails : firstDefect? before ≠ none) :
    decodeEntries a = decodeEntries b := by
  obtain ⟨d, fails⟩ := Option.ne_none_iff_exists'.mp fails
  obtain ⟨_, ha⟩ := ha
  obtain ⟨_, hb⟩ := hb
  refine decodeEntries_congr ?_ fun none => ?_
  · rw [← ha, ← hb, firstDefect?_append, firstDefect?_append, fails, Option.some_or, Option.some_or]
  · rw [← ha, firstDefect?_append, fails, Option.some_or] at none
    exact absurd none (by simp)

theorem headerChecks_start (b : Block) : headerChecks b <+: checks b := by
  rw [checks, List.append_assoc, List.append_assoc]
  exact List.prefix_append _ _

theorem take_headerChecks_start (b : Block) (n : Nat) : (headerChecks b).take n <+: checks b := by
  have taken : (headerChecks b).take n <+: headerChecks b := List.take_prefix n _
  exact taken.trans (headerChecks_start b)

/-- Of a block without room for the headers, the size alone decides. -/
theorem decodeEntries_congr_of_short (size : b.bytes.size = a.bytes.size)
    (short : a.bytes.size < 50) : decodeEntries a = decodeEntries b := by
  refine decodeEntries_congr_of_defect (take_headerChecks_start a 2) ?_ ?_
  · have first : (headerChecks a).take 2 = (headerChecks b).take 2 := by
      simp [headerChecks, size]
    rw [first]
    exact take_headerChecks_start b 2
  · rw [ne_eq, firstDefect?_eq_none_iff]
    intro hold
    have room : 50 ≤ a.bytes.size := of_decide_eq_true (hold _ (List.mem_cons_of_mem _ (.head _)))
    omega

theorem headerChecks_congr (size : b.bytes.size = a.bytes.size)
    (h : a.slice 24 10 = b.slice 24 10) : headerChecks a = headerChecks b := by
  have type : a.number 24 4 = b.number 24 4 := number_eq_of_inside h (by decide) (by decide)
  have subtype : a.number 28 4 = b.number 28 4 := number_eq_of_inside h (by decide) (by decide)
  have flags : a.number 32 2 = b.number 32 2 := number_eq_of_inside h (by decide) (by decide)
  rw [headerChecks, headerChecks, size, type, subtype, flags]

/-- Of a block with room for the headers and none for the footer, the headers decide. -/
theorem decodeEntries_congr_of_truncated (size : b.bytes.size = a.bytes.size)
    (short : a.bytes.size < 90) (h : a.slice 24 10 = b.slice 24 10) :
    decodeEntries a = decodeEntries b := by
  have fails : firstDefect? (headerChecks a) ≠ none := by
    rw [ne_eq, firstDefect?_eq_none_iff, headerChecks_hold_iff]
    rintro ⟨minimum, -⟩
    omega
  refine decodeEntries_congr_of_defect (headerChecks_start a) ?_ fails
  rw [headerChecks_congr size h]
  exact headerChecks_start b

theorem regionChecks_congr (size : b.bytes.size = a.bytes.size)
    (headers : a.slice 24 18 = b.slice 24 18) : regionChecks a = regionChecks b := by
  have offset := Block.entriesOffset_congr headers
  have table := Block.entriesSize_congr headers
  have unusedOffset : a.unusedOffset = b.unusedOffset :=
    number_eq_of_inside headers (by decide) (by decide)
  have unusedSize : a.unusedSize = b.unusedSize :=
    number_eq_of_inside headers (by decide) (by decide)
  rw [regionChecks, regionChecks, size, offset, table, unusedOffset, unusedSize]

/-- A slot that the blocks share tells the same entry in both. -/
theorem entry_congr_of_slot (size : b.bytes.size = a.bytes.size)
    (headers : a.slice 24 18 = b.slice 24 18) {i : Nat}
    (shared : a.slice (a.slotStart i) 8 = b.slice (a.slotStart i) 8) :
    entryChecks a i = entryChecks b i ∧ a.entryNumbers i = b.entryNumbers i := by
  have offset := Block.entriesOffset_congr headers
  have table := Block.entriesSize_congr headers
  have slot : a.slotStart i = b.slotStart i := by rw [Block.slotStart, Block.slotStart, offset]
  have field : ∀ d, d ≤ 6 → a.number (b.slotStart i + d) 2 = b.number (b.slotStart i + d) 2 := by
    intro d hd
    rw [← slot]
    exact number_eq_of_inside shared (by omega) (by omega)
  have keyOffset : a.keyOffset i = b.keyOffset i := by
    rw [Block.keyOffset, slot]
    exact field 0 (by omega)
  have keyLength : a.keyLength i = b.keyLength i := by
    rw [Block.keyLength, slot]
    exact field 2 (by omega)
  have valueOffset : a.valueOffset i = b.valueOffset i := by
    rw [Block.valueOffset, slot]
    exact field 4 (by omega)
  have valueLength : a.valueLength i = b.valueLength i := by
    rw [Block.valueLength, slot]
    exact field 6 (by omega)
  have keyStart : a.keyStart i = b.keyStart i := by
    rw [Block.keyStart, Block.keyStart, offset, table, keyOffset]
  have valueStart : a.valueStart i = b.valueStart i := by
    rw [Block.valueStart, Block.valueStart, size, valueOffset]
  constructor
  · simp only [entryChecks, spanCheck, size, keyStart, keyLength, valueOffset, valueStart,
      valueLength]
  · rw [Block.entryNumbers, Block.entryNumbers, keyStart, keyLength, valueStart, valueLength]

section SameFields

variable (size : b.bytes.size = a.bytes.size) (same : a.SameFields b)

include size same

theorem entryCount_congr : a.entryCount = b.entryCount := by
  rw [Block.entryCount, Block.entryCount, size]
  exact number_eq_of_inside same.count (Nat.le_refl _) (Nat.le_refl _)

theorem footerChecks_congr (minimum : 90 ≤ a.bytes.size) : footerChecks a = footerChecks b := by
  have keySize : a.number (a.bytes.size - 32) 4 = b.number (a.bytes.size - 32) 4 :=
    number_eq_of_inside same.footerSizes (Nat.le_refl _) (by omega)
  have valueSize : a.number (a.bytes.size - 28) 4 = b.number (a.bytes.size - 28) 4 :=
    number_eq_of_inside same.footerSizes (by omega) (by omega)
  rw [footerChecks, footerChecks, size, keySize, valueSize, entryCount_congr size same,
    Block.entriesSize_congr same.headers]

/-- A slot in use tells the same entry in both blocks. -/
theorem entry_congr (few : a.entryCount ≤ a.entriesSize / 8) {i : Nat} (hi : i < a.entryCount) :
    entryChecks a i = entryChecks b i ∧ a.entryNumbers i = b.entryNumbers i := by
  refine entry_congr_of_slot size same.headers ?_
  refine Block.slice_eq_of_inside (same.slots few) ?_ ?_
  · rw [Block.slotStart]
    omega
  · rw [Block.slotStart]
    omega

/-- Blocks with the same fields get the same verdict. -/
theorem decodeEntries_congr_of_sameFields (minimum : 90 ≤ a.bytes.size) :
    decodeEntries a = decodeEntries b := by
  have header : headerChecks a = headerChecks b :=
    headerChecks_congr size (Block.slice_eq_of_inside same.headers (by decide) (by decide))
  have region := regionChecks_congr size same.headers
  have footer := footerChecks_congr size same minimum
  have count := entryCount_congr size same
  by_cases few : a.entryCount ≤ a.entriesSize / 8
  · have entries : ∀ i ∈ List.range a.entryCount,
        entryChecks a i = entryChecks b i ∧ a.entryNumbers i = b.entryNumbers i :=
      fun i hi => entry_congr size same few (List.mem_range.mp hi)
    have all : checks a = checks b := by
      rw [checks, checks, header, region, footer, ← count,
        List.flatMap_congr fun i hi => (entries i hi).1]
    refine decodeEntries_congr (congrArg firstDefect? all) fun _ => ?_
    rw [← count]
    exact List.map_congr_left fun i hi => (entries i hi).2
  · have fails : firstDefect? (headerChecks a ++ regionChecks a ++ footerChecks a) ≠ none := by
      rw [ne_eq, firstDefect?_eq_none_iff, List.forall_mem_append, footerChecks_hold_iff]
      rintro ⟨-, -, -, count⟩
      omega
    refine decodeEntries_congr_of_defect (List.prefix_append _ _) ?_ fails
    rw [header, region, footer]
    exact List.prefix_append _ _

end SameFields

theorem getElem?_records {n : Node} {i : Nat} {e : Entry} {r : KeyValue}
    (entry : n.entries[i]? = some e) (record : n.records[i]? = some r) :
    r = recordAt n.block e.numbers := by
  rw [records_eq_map, List.getElem?_map, List.getElem?_map, entry] at record
  exact (Option.some.inj record).symm

theorem recordAt_differWithin (a b : Block) (e : Entry) :
    a.DifferWithin b e (recordAt a e.numbers) (recordAt b e.numbers) := by
  constructor
  case key =>
    intro j differ
    apply Block.getElem?_slice_differ
    simpa [recordAt, Entry.numbers, Span.numbers] using differ
  case value =>
    intro j differ
    apply Block.getElem?_slice_differ
    simpa [recordAt, Entry.numbers, Span.numbers] using differ

/-- Two blocks of one size get the same verdict if they agree on the few fields that there is room
for. Their records then differ only where the blocks differ inside the spans of the entries. -/
theorem decodeEntries_eq_of_agree (a b : Block) (size : b.bytes.size = a.bytes.size) :
    (a.bytes.size < 50 → decodeEntries a = decodeEntries b) ∧
    (50 ≤ a.bytes.size → a.bytes.size < 90 → a.slice 24 10 = b.slice 24 10 →
      decodeEntries a = decodeEntries b) ∧
    (90 ≤ a.bytes.size → a.SameFields b →
      decodeEntries a = decodeEntries b ∧ ∀ m n, decode a = .ok m → decode b = .ok n →
        m.records.length = n.records.length ∧ ∀ (i : Nat) (e : Entry) (r s : KeyValue),
          m.entries[i]? = some e → m.records[i]? = some r → n.records[i]? = some s →
            a.DifferWithin b e r s) := by
  refine ⟨decodeEntries_congr_of_short size,
    fun _ short headers => decodeEntries_congr_of_truncated size short headers,
    fun minimum same => ?_⟩
  have verdict := decodeEntries_congr_of_sameFields size same minimum
  refine ⟨verdict, fun m n ha hb => ?_⟩
  have entries : m.entries = n.entries := by
    rw [decodeEntries_eq_map, decodeEntries_eq_map, ha, hb] at verdict
    exact Except.ok.inj verdict
  constructor
  · simp [records_eq_map, entries]
  · intro i e r s entry recordA recordB
    have hr := getElem?_records entry recordA
    have hs := getElem?_records (entries ▸ entry) recordB
    rw [(standsIn_of_decode ha).block] at hr
    rw [(standsIn_of_decode hb).block] at hs
    rw [hr, hs]
    exact recordAt_differWithin a b e

theorem decodeEntries_oneEntry :
    decodeEntries (oneEntry 7 1 2) = decodeEntries (oneEntry 9 1 3) ∧
      decodeEntries (oneEntry 9 1 3)
        = .ok [⟨⟨58, 1, by decide⟩, ⟨59, 1, by decide⟩⟩] := by
  have same : (oneEntry 7 1 2).SameFields (oneEntry 9 1 3) := ⟨rfl, rfl, rfl, fun _ => rfl⟩
  have minimum : 90 ≤ (oneEntry 7 1 2).bytes.size := show 90 ≤ 100 by decide
  have verdict := (decodeEntries_eq_of_agree (oneEntry 7 1 2) (oneEntry 9 1 3) rfl).2.2 minimum same
  exact ⟨verdict.1, rfl⟩

end Node

end Apfs
