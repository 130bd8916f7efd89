import Apfs.Proofs.Node.Geometry
import Apfs.Proofs.Node.Independence
import Apfs.Proofs.Source.Session

/-!
# The number of entries as a prefix

The number of entries in the footer says how far the entry table is read, and nothing else. No slot
has room for a byte of it, and no entry depends on it or on another entry. So a smaller number
gives the first of the same entries, a block is refused for the same entry under each number that
reaches it, and a defect in front of the entries is reported whatever the number.
-/

namespace Apfs

variable {b : Block}

/-! ## Overwriting -/

namespace Block

/-- The block with other bytes in the place of those from an offset on. -/
def overwritten (b : Block) (i : Nat) (new : List UInt8) : Block where
  bytes := overwrite b.bytes i new.toByteArray
  size_lt := by
    rw [size_overwrite]
    exact b.size_lt

@[simp] theorem size_overwritten (i : Nat) (new : List UInt8) :
    (b.overwritten i new).bytes.size = b.bytes.size := size_overwrite ..

theorem getElem?_overwritten (i : Nat) (new : List UInt8) {k : Nat} (hk : k < b.bytes.size) :
    (b.overwritten i new).toList[k]?
      = if i ≤ k ∧ k < i + new.length then new[k - i]? else b.toList[k]? := by
  have here : k < (b.overwritten i new).bytes.size := by simpa using hk
  have byte : (b.overwritten i new).bytes[k]
      = if h : i ≤ k ∧ k < i + new.toByteArray.size then new.toByteArray[k - i] else b.bytes[k] :=
    getElem_overwrite here hk
  have written : (b.overwritten i new).toList[k]? = some (b.overwritten i new).bytes[k] := by
    simp [toList, ByteArray.getElem_eq_getElem_data]
  rw [written, byte]
  have length : new.toByteArray.size = new.length := List.size_toByteArray
  by_cases covered : i ≤ k ∧ k < i + new.length
  · have place : k - i < new.length := by omega
    rw [dif_pos (length.symm ▸ covered), if_pos covered, List.getElem?_eq_getElem place]
    simp [ByteArray.getElem_eq_getElem_data]
  · rw [dif_neg (length.symm ▸ covered), if_neg covered]
    simp [toList, ByteArray.getElem_eq_getElem_data, hk]

theorem agreeOutside_overwritten (b : Block) (i : Nat) (new : List UInt8) :
    b.AgreeOutside (b.overwritten i new) i (i + new.length) where
  size := size_overwritten i new
  bytes k hk outside := by
    rw [getElem?_overwritten i new hk, if_neg (by omega)]

theorem slice_overwritten {i : Nat} {new : List UInt8} (room : i + new.length ≤ b.bytes.size) :
    (b.overwritten i new).slice i new.length = new := by
  apply List.ext_getElem?
  intro k
  rw [getElem?_slice]
  by_cases hk : k < new.length
  · rw [if_pos hk, getElem?_overwritten i new (by omega), if_pos (by omega),
      Nat.add_sub_cancel_left]
  · rw [if_neg hk, List.getElem?_eq_none (by omega)]

/-- The block with another number of entries in its footer. -/
def withEntryCount (b : Block) (count : UInt64) : Block :=
  b.overwritten (b.bytes.size - 16) (LittleEndian.bytes 8 count.toNat)

theorem size_withEntryCount (b : Block) (count : UInt64) :
    (b.withEntryCount count).bytes.size = b.bytes.size := size_overwritten ..

section WithEntryCount

variable (minimum : 90 ≤ b.bytes.size) (count : UInt64)

include minimum

theorem agreeOutside_withEntryCount :
    b.AgreeOutside (b.withEntryCount count) (b.bytes.size - 16) (b.bytes.size - 8) := by
  have agree := b.agreeOutside_overwritten (b.bytes.size - 16) (LittleEndian.bytes 8 count.toNat)
  rw [LittleEndian.length_bytes] at agree
  exact agree.mono (Nat.le_refl _) (by omega)

theorem entryCount_withEntryCount : (b.withEntryCount count).entryCount = count.toNat := by
  have room : b.bytes.size - 16 + (LittleEndian.bytes 8 count.toNat).length ≤ b.bytes.size := by
    rw [LittleEndian.length_bytes]
    omega
  have written := slice_overwritten room
  rw [LittleEndian.length_bytes] at written
  rw [entryCount, size_withEntryCount, number, withEntryCount, written, LittleEndian.value_bytes]
  exact Nat.mod_eq_of_lt count.toNat_lt

theorem headers_withEntryCount : b.slice 24 18 = (b.withEntryCount count).slice 24 18 :=
  (agreeOutside_withEntryCount minimum count).slice_eq (.inl (by omega))

theorem entriesSize_withEntryCount : (b.withEntryCount count).entriesSize = b.entriesSize :=
  (entriesSize_congr (headers_withEntryCount minimum count)).symm

end WithEntryCount

end Block

namespace Node

/-- The checks that are made before the number of entries is looked at. -/
def fixedChecks (b : Block) : List Check :=
  headerChecks b ++ regionChecks b ++ (footerChecks b).take 2

/-- The check that the entry table has room for the number of entries. -/
def countCheck (b : Block) : Check :=
  ⟨b.entryCount ≤ b.entriesSize / 8,
    .tooManyEntries (.ofNat b.entryCount) (.ofNat (b.entriesSize / 8))⟩

theorem checks_eq_fixedChecks (b : Block) :
    checks b
      = fixedChecks b ++ countCheck b :: (List.range b.entryCount).flatMap (entryChecks b) := by
  simp [checks, fixedChecks, countCheck, footerChecks]

theorem entryIndex?_of_fixedChecks {d : Defect} (first : firstDefect? (fixedChecks b) = some d) :
    d.entryIndex? = none ∧ ∀ count capacity, d ≠ .tooManyEntries count capacity := by
  obtain ⟨c, hc, rfl⟩ := exists_mem_of_firstDefect? first
  simp only [fixedChecks, headerChecks, regionChecks, footerChecks, List.take_succ_cons,
    List.take_zero, List.mem_append, List.mem_cons, List.not_mem_nil, or_false] at hc
  rcases hc with ((rfl | rfl | rfl | rfl | rfl | rfl) | (rfl | rfl | rfl | rfl)) | (rfl | rfl)
  all_goals exact ⟨rfl, fun _ _ => Defect.noConfusion⟩

theorem decodeEntries_eq_error_iff {d : Defect} :
    decodeEntries b = .error d ↔ firstDefect? (checks b) = some d := by
  rw [decodeEntries_eq_map, ← (decode_follows b).eq_error_iff]
  cases decode b <;> simp [Except.map]

theorem decodeEntries_eq_ok_iff {es : List Entry} :
    decodeEntries b = .ok es ↔ firstDefect? (checks b) = none ∧
      es.map Entry.numbers = (List.range b.entryCount).map b.entryNumbers := by
  rw [decodeEntries_eq_map, firstDefect?_eq_none_iff, ← (decode_follows b).eq_ok_iff]
  constructor
  · intro decoded
    cases found : decode b with
    | error d => simp [found, Except.map] at decoded
    | ok n =>
      obtain rfl : n.entries = es := by simpa [found, Except.map] using decoded
      exact ⟨⟨n, rfl⟩, (standsIn_of_decode found).entries⟩
  · rintro ⟨⟨n, found⟩, numbers⟩
    have same : n.entries.map Entry.numbers = es.map Entry.numbers := by
      rw [(standsIn_of_decode found).entries, numbers]
    rw [found, ← (List.map_inj_right fun _ _ => Entry.eq_of_numbers_eq).mp same]
    rfl

section WithEntryCount

variable (minimum : 90 ≤ b.bytes.size)

include minimum

theorem fixedChecks_withEntryCount (count : UInt64) :
    fixedChecks (b.withEntryCount count) = fixedChecks b := by
  have size := b.size_withEntryCount count
  have headers := Block.headers_withEntryCount minimum count
  have agree := Block.agreeOutside_withEntryCount minimum count
  have header : headerChecks b = headerChecks (b.withEntryCount count) :=
    headerChecks_congr size (Block.slice_eq_of_inside headers (by decide) (by decide))
  have region := regionChecks_congr size headers
  have keySize : b.number (b.bytes.size - 32) 4
      = (b.withEntryCount count).number (b.bytes.size - 32) 4 := agree.number_eq (.inl (by omega))
  have valueSize : b.number (b.bytes.size - 28) 4
      = (b.withEntryCount count).number (b.bytes.size - 28) 4 := agree.number_eq (.inl (by omega))
  simp only [fixedChecks, footerChecks, List.take_succ_cons, List.take_zero, header, region,
    size, keySize, valueSize]

/-- In a block whose regions fit, no slot of the entry table has a byte of the number of entries. -/
theorem entry_withEntryCount (fixed : firstDefect? (fixedChecks b) = none) (count : UInt64)
    {i : Nat} (hi : i < b.entriesSize / 8) :
    entryChecks (b.withEntryCount count) i = entryChecks b i ∧
      (b.withEntryCount count).entryNumbers i = b.entryNumbers i := by
  have regions : b.entriesOffset + b.entriesSize + b.unusedOffset + b.unusedSize
      ≤ b.bytes.size - 90 := by
    simp only [fixedChecks, firstDefect?_eq_none_iff, List.forall_mem_append,
      regionChecks_hold_iff] at fixed
    exact fixed.1.2
  have agree := Block.agreeOutside_withEntryCount minimum count
  have slot : b.slice (b.slotStart i) 8 = (b.withEntryCount count).slice (b.slotStart i) 8 := by
    refine agree.slice_eq (.inl ?_)
    rw [Block.slotStart]
    omega
  have same := entry_congr_of_slot (b.size_withEntryCount count)
    (Block.headers_withEntryCount minimum count) slot
  exact ⟨same.1.symm, same.2.symm⟩

/-- What decides, for one block under all numbers of entries: the checks that do not depend on the
number, the number, and as many entries as it says. -/
theorem firstDefect?_withEntryCount (count : UInt64) :
    firstDefect? (checks (b.withEntryCount count)) =
      (firstDefect? (fixedChecks b)).or
        (if count.toNat ≤ b.entriesSize / 8 then
          firstDefect? ((List.range count.toNat).flatMap (entryChecks b))
        else some (.tooManyEntries count (.ofNat (b.entriesSize / 8)))) := by
  have number := Block.entryCount_withEntryCount minimum count
  have table := Block.entriesSize_withEntryCount minimum count
  rw [checks_eq_fixedChecks, firstDefect?_append, fixedChecks_withEntryCount minimum]
  cases fixed : firstDefect? (fixedChecks b) with
  | some d => simp
  | none =>
    simp only [Option.none_or, firstDefect?_cons, countCheck, number, table, decide_eq_true_eq,
      UInt64.ofNat_toNat]
    split
    case isFalse => rfl
    case isTrue few =>
      refine congrArg firstDefect? (List.flatMap_congr fun i hi => ?_)
      have inside := List.mem_range.mp hi
      exact (entry_withEntryCount minimum fixed count (by omega)).1

theorem holds_withEntryCount_iff (count : UInt64) :
    firstDefect? (checks (b.withEntryCount count)) = none ↔
      firstDefect? (fixedChecks b) = none ∧ count.toNat ≤ b.entriesSize / 8 ∧
        ∀ i < count.toNat, firstDefect? (entryChecks b i) = none := by
  rw [firstDefect?_withEntryCount minimum, Option.or_eq_none_iff,
    ← firstDefect?_flatMap_range_eq_none_iff]
  split <;> simp [*]

/-- A block is refused for one of its entries if its number of entries reaches that entry and all
is well before it. -/
theorem entryDefect_withEntryCount_iff (count : UInt64) {d : Defect} {index : UInt64}
    (entry : d.entryIndex? = some index) :
    firstDefect? (checks (b.withEntryCount count)) = some d ↔
      firstDefect? (fixedChecks b) = none ∧ count.toNat ≤ b.entriesSize / 8 ∧ index < count ∧
        firstDefect? (entryChecks b index.toNat) = some d ∧
        ∀ j < index.toNat, firstDefect? (entryChecks b j) = none := by
  rw [firstDefect?_withEntryCount minimum]
  cases fixed : firstDefect? (fixedChecks b) with
  | some d' =>
    have other : d' ≠ d := by
      rintro rfl
      have none := (entryIndex?_of_fixedChecks fixed).1
      rw [entry] at none
      cases none
    simp [other]
  | none =>
    rw [Option.none_or]
    split
    case isFalse many =>
      have other : Defect.tooManyEntries count (.ofNat (b.entriesSize / 8)) ≠ d := by
        rintro rfl
        cases entry
      simp [other, many]
    case isTrue few =>
      rw [firstDefect?_flatMap_range_eq_some_iff]
      constructor
      · rintro ⟨i, hi, first, before⟩
        -- The defect names the entry that has it.
        obtain ⟨c, hc, rfl⟩ := exists_mem_of_firstDefect? first
        rw [entryIndex?_of_entryChecks hc, Option.some.injEq] at entry
        have value : index.toNat = i := by
          have bound := count.toNat_lt
          rw [← entry, UInt64.toNat_ofNat_of_lt' (show i < 2 ^ 64 by omega)]
        rw [UInt64.lt_iff_toNat_lt, value]
        exact ⟨rfl, few, hi, first, before⟩
      · rintro ⟨-, -, reached, first, before⟩
        exact ⟨index.toNat, UInt64.lt_iff_toNat_lt.mp reached, first, before⟩

theorem otherDefect_withEntryCount_iff (count : UInt64) {d : Defect} (entry : d.entryIndex? = none)
    (other : ∀ count capacity, d ≠ .tooManyEntries count capacity) :
    firstDefect? (checks (b.withEntryCount count)) = some d ↔
      firstDefect? (fixedChecks b) = some d := by
  rw [firstDefect?_withEntryCount minimum]
  cases fixed : firstDefect? (fixedChecks b) with
  | some d' => simp
  | none =>
    rw [Option.none_or]
    split
    case isFalse => simpa using (other count _).symm
    case isTrue =>
      constructor
      · intro first
        obtain ⟨i, -, first, -⟩ := firstDefect?_flatMap_range_eq_some_iff.mp first
        obtain ⟨c, hc, rfl⟩ := exists_mem_of_firstDefect? first
        rw [entryIndex?_of_entryChecks hc] at entry
        cases entry
      · nofun

/-- Where all is well up to a number of entries, that number gives the entries of its slots. -/
theorem entries_withEntryCount {count : UInt64} {es : List Entry}
    (accepted : decodeEntries (b.withEntryCount count) = .ok es) :
    es.map Entry.numbers = (List.range count.toNat).map b.entryNumbers := by
  obtain ⟨first, numbers⟩ := decodeEntries_eq_ok_iff.mp accepted
  obtain ⟨fixed, few, -⟩ := (holds_withEntryCount_iff minimum count).mp first
  rw [numbers, Block.entryCount_withEntryCount minimum]
  apply List.map_congr_left
  intro i hi
  have inside := List.mem_range.mp hi
  exact (entry_withEntryCount minimum fixed count (by omega)).2

theorem exists_decodeEntries_iff (count : UInt64) :
    (∃ es, decodeEntries (b.withEntryCount count) = .ok es) ↔
      firstDefect? (fixedChecks b) = none ∧ count.toNat ≤ b.entriesSize / 8 ∧
        ∀ i < count.toNat, firstDefect? (entryChecks b i) = none := by
  rw [← holds_withEntryCount_iff minimum]
  constructor
  · rintro ⟨es, accepted⟩
    exact (decodeEntries_eq_ok_iff.mp accepted).1
  · intro first
    cases verdict : decodeEntries (b.withEntryCount count) with
    | ok es => exact ⟨es, rfl⟩
    | error d =>
      rw [decodeEntries_eq_error_iff, first] at verdict
      cases verdict

theorem length_entries_withEntryCount {count : UInt64} {es : List Entry}
    (accepted : decodeEntries (b.withEntryCount count) = .ok es) : es.length = count.toNat := by
  simpa using congrArg List.length (entries_withEntryCount minimum accepted)

/-- A smaller number of entries gives the first of the same entries. -/
theorem decodeEntries_take {m n : UInt64} {es : List Entry}
    (accepted : decodeEntries (b.withEntryCount n) = .ok es) (le : m ≤ n) :
    decodeEntries (b.withEntryCount m) = .ok (es.take m.toNat) := by
  rw [UInt64.le_iff_toNat_le] at le
  obtain ⟨fixed, few, well⟩ := (exists_decodeEntries_iff minimum n).mp ⟨es, accepted⟩
  obtain ⟨ds, shorter⟩ := (exists_decodeEntries_iff minimum m).mpr
    ⟨fixed, by omega, fun i hi => well i (by omega)⟩
  have numbers : ds.map Entry.numbers = (es.take m.toNat).map Entry.numbers := by
    rw [entries_withEntryCount minimum shorter, List.map_take,
      entries_withEntryCount minimum accepted, ← List.map_take, List.take_range,
      Nat.min_eq_left le]
  rw [shorter, (List.map_inj_right fun _ _ => Entry.eq_of_numbers_eq).mp numbers]

/-- The number of entries says how many of the entries of a block are looked at, from the first one
on, and has no other effect: what is accepted under one number is accepted under each smaller one
with so many entries fewer, a bad entry refuses the block under all numbers that reach it, and a
defect in front of the number is reported whatever the number. -/
theorem decodeEntries_withEntryCount (n : UInt64) :
    (∀ es, decodeEntries (b.withEntryCount n) = .ok es → es.length = n.toNat ∧
      ∀ m ≤ n, decodeEntries (b.withEntryCount m) = .ok (es.take m.toNat)) ∧
    (∀ d index, decodeEntries (b.withEntryCount n) = .error d → d.entryIndex? = some index →
      index < n ∧
      (∀ m ≤ index, ∃ es, decodeEntries (b.withEntryCount m) = .ok es ∧ es.length = m.toNat) ∧
      ∀ m, index < m → m.toNat ≤ b.entriesSize / 8 →
        decodeEntries (b.withEntryCount m) = .error d) ∧
    ∀ d, decodeEntries (b.withEntryCount n) = .error d → d.entryIndex? = none →
      (∀ count capacity, d ≠ .tooManyEntries count capacity) →
        ∀ m, decodeEntries (b.withEntryCount m) = .error d := by
  refine ⟨?_, ?_, ?_⟩
  · intro es accepted
    exact ⟨length_entries_withEntryCount minimum accepted,
      fun m le => decodeEntries_take minimum accepted le⟩
  · intro d index refused entry
    rw [decodeEntries_eq_error_iff, entryDefect_withEntryCount_iff minimum n entry] at refused
    obtain ⟨fixed, few, reached, first, before⟩ := refused
    refine ⟨reached, ?_, ?_⟩
    · intro m le
      rw [UInt64.le_iff_toNat_le] at le
      rw [UInt64.lt_iff_toNat_lt] at reached
      obtain ⟨es, accepted⟩ := (exists_decodeEntries_iff minimum m).mpr
        ⟨fixed, by omega, fun i hi => before i (by omega)⟩
      exact ⟨es, accepted, length_entries_withEntryCount minimum accepted⟩
    · intro m reaches room
      rw [decodeEntries_eq_error_iff, entryDefect_withEntryCount_iff minimum m entry]
      exact ⟨fixed, room, reaches, first, before⟩
  · intro d refused entry other m
    rw [decodeEntries_eq_error_iff, otherDefect_withEntryCount_iff minimum _ entry other] at *
    exact refused

end WithEntryCount

/-- A block with room for three slots, of which the second has its value before the block. -/
def badSlot : Block where
  bytes := ⟨#[0, 0, 0, 0, 0, 0, 0, 0, 7, 0, 0, 0, 0, 0, 0, 0, 0, 0, 0, 0, 0, 0, 0, 0,
    2, 0, 0, 0, 14, 0, 0, 0, 3, 0, 0, 0, 24, 0, 0, 0, 6, 0, 255, 255, 0, 0, 255, 255, 0, 0,
    0, 0, 1, 0, 1, 0, 1, 0, 0, 0, 1, 0, 200, 0, 1, 0, 0, 0, 1, 0, 1, 0, 1, 0,
    1, 0, 0, 0, 0, 2,
    0, 0, 0, 0, 0, 16, 0, 0, 0, 0, 0, 0, 0, 0, 0, 0, 1, 0, 0, 0, 1, 0, 0, 0,
    0, 0, 0, 0, 0, 0, 0, 0, 1, 0, 0, 0, 0, 0, 0, 0]⟩
  size_lt := show 120 < _ by decide

theorem decodeEntries_withEntryCount_badSlot :
    decodeEntries (badSlot.withEntryCount 3) = .error (.valueBeforeBlock 1 200 80) ∧
      (∃ es, decodeEntries (badSlot.withEntryCount 1) = .ok es ∧ es.length = 1) ∧
      decodeEntries (badSlot.withEntryCount 2) = .error (.valueBeforeBlock 1 200 80) := by
  have minimum : 90 ≤ badSlot.bytes.size := by decide +kernel
  have refused :
      decodeEntries (badSlot.withEntryCount 3) = .error (.valueBeforeBlock 1 200 80) := by
    decide +kernel
  obtain ⟨-, entry, -⟩ := decodeEntries_withEntryCount minimum 3
  obtain ⟨-, fewer, more⟩ := entry _ 1 refused rfl
  have reaches : (1 : UInt64) < 2 := by decide
  have room : (2 : UInt64).toNat ≤ badSlot.entriesSize / 8 := by decide +kernel
  exact ⟨refused, fewer 1 (UInt64.le_refl 1), more 2 reaches room⟩

end Node

end Apfs
