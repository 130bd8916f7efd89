import Apfs.Proofs.Node.Acceptance

/-!
# Which defect is reported

A block may have many defects at once. The one that is reported is that of the first check to
fail, and it comes with the numbers that show the failure, so that whoever reads the report needs
to know nothing about the checks before. The readers of records have a defect of their own for
records that run past the end of the block, which no block brings about.
-/

namespace Apfs

/-- The numbers of a defect show what is wrong with a block. -/
def Defect.ShownBy (b : Block) : Defect → Prop
  | .emptyBlock => b.bytes.size = 0
  | .truncated _ needed actual => actual = b.size ∧ actual < needed
  | .unsupported _ value expected => value ≠ expected
  | .regionTooLarge _ value available => available < value
  | .tooManyEntries count capacity => capacity < count
  | .entryOutside _ _ start length bound =>
    bound = b.size ∧ bound.toNat < start.toNat + length.toNat
  | .valueBeforeBlock _ valueOffset footerOffset =>
    footerOffset = .ofNat (b.bytes.size - 40) ∧ footerOffset < valueOffset
  | .checksumMismatch stored computed => stored ≠ computed

namespace Node

variable {b : Block}

theorem fieldCheck_shown {field : String} {value expected : Nat} (hv : value < 2 ^ 64)
    (he : expected < 2 ^ 64) (fails : (fieldCheck field value expected).holds = false) :
    (fieldCheck field value expected).defect.ShownBy b := by
  have differ : value ≠ expected := of_decide_eq_false fails
  intro same
  apply differ
  rw [← UInt64.toNat_ofNat_of_lt' hv, ← UInt64.toNat_ofNat_of_lt' he, same]

theorem regionCheck_shown {field : String} {value available : Nat} (hv : value < 2 ^ 64)
    (ha : available < 2 ^ 64) (fails : (regionCheck field value available).holds = false) :
    (regionCheck field value available).defect.ShownBy b := by
  have exceeds : ¬ value ≤ available := of_decide_eq_false fails
  show UInt64.ofNat available < UInt64.ofNat value
  rw [UInt64.lt_iff_toNat_lt, UInt64.toNat_ofNat_of_lt' hv, UInt64.toNat_ofNat_of_lt' ha]
  omega

theorem spanCheck_shown {field : String} {i start length : Nat} (hs : start < 2 ^ 64)
    (hl : length < 2 ^ 64) (fails : (spanCheck b i field start length).holds = false) :
    (spanCheck b i field start length).defect.ShownBy b := by
  have outside : ¬ start + length ≤ b.bytes.size := of_decide_eq_false fails
  refine ⟨rfl, ?_⟩
  rw [UInt64.toNat_ofNat_of_lt' hs, UInt64.toNat_ofNat_of_lt' hl,
    UInt64.toNat_ofNat_of_lt' b.size_lt_pow]
  omega

theorem truncated_shown {part : String} {needed : Nat} (hn : needed < 2 ^ 64)
    (fails : decide (needed ≤ b.bytes.size) = false) :
    (Defect.truncated part (.ofNat needed) (.ofNat b.bytes.size)).ShownBy b := by
  have short : ¬ needed ≤ b.bytes.size := of_decide_eq_false fails
  refine ⟨rfl, ?_⟩
  rw [UInt64.lt_iff_toNat_lt, UInt64.toNat_ofNat_of_lt' hn, UInt64.toNat_ofNat_of_lt' b.size_lt_pow]
  omega

theorem headerChecks_shown {c : Check} (hc : c ∈ headerChecks b) (fails : c.holds = false) :
    c.defect.ShownBy b := by
  have type : b.number 24 4 < 2 ^ 32 := b.number_lt 24 4
  have subtype : b.number 28 4 < 2 ^ 32 := b.number_lt 28 4
  have flags : b.number 32 2 < 2 ^ 16 := b.number_lt 32 2
  simp only [headerChecks, List.mem_cons, List.not_mem_nil, or_false] at hc
  rcases hc with rfl | rfl | rfl | rfl | rfl | rfl
  · have empty : ¬ b.bytes.size ≠ 0 := of_decide_eq_false fails
    show b.bytes.size = 0
    omega
  · exact truncated_shown (by decide) fails
  · exact fieldCheck_shown (by omega) (by decide) fails
  · exact fieldCheck_shown (by omega) (by decide) fails
  · exact fieldCheck_shown (by omega) (by decide) fails
  · exact truncated_shown (by decide) fails

theorem regionChecks_shown {c : Check} (hc : c ∈ regionChecks b) (fails : c.holds = false) :
    c.defect.ShownBy b := by
  have size := b.size_lt_pow
  have entriesOffset : b.entriesOffset < 2 ^ 16 := b.number_lt 34 2
  have entriesSize : b.entriesSize < 2 ^ 16 := b.number_lt 36 2
  have unusedOffset : b.unusedOffset < 2 ^ 16 := b.number_lt 38 2
  have unusedSize : b.unusedSize < 2 ^ 16 := b.number_lt 40 2
  simp only [regionChecks, List.mem_cons, List.not_mem_nil, or_false] at hc
  rcases hc with rfl | rfl | rfl | rfl <;> exact regionCheck_shown (by omega) (by omega) fails

theorem footerChecks_shown {c : Check} (hc : c ∈ footerChecks b) (fails : c.holds = false) :
    c.defect.ShownBy b := by
  have key := b.number_lt (b.bytes.size - 32) 4
  have value := b.number_lt (b.bytes.size - 28) 4
  have count : b.entryCount < 2 ^ 64 := b.number_lt _ 8
  have size : b.entriesSize < 2 ^ 16 := b.number_lt 36 2
  have capacity : b.entriesSize / 8 < 2 ^ 64 := by omega
  simp only [footerChecks, List.mem_cons, List.not_mem_nil, or_false] at hc
  rcases hc with rfl | rfl | rfl
  · exact fieldCheck_shown (by omega) (by decide) fails
  · exact fieldCheck_shown (by omega) (by decide) fails
  · have many : ¬ b.entryCount ≤ b.entriesSize / 8 := of_decide_eq_false fails
    show UInt64.ofNat (b.entriesSize / 8) < UInt64.ofNat b.entryCount
    rw [UInt64.lt_iff_toNat_lt, UInt64.toNat_ofNat_of_lt' count,
      UInt64.toNat_ofNat_of_lt' capacity]
    omega

theorem entryChecks_shown {i : Nat} {c : Check} (hc : c ∈ entryChecks b i)
    (fails : c.holds = false) : c.defect.ShownBy b := by
  have size := b.size_lt_pow
  have entriesOffset : b.entriesOffset < 2 ^ 16 := b.number_lt 34 2
  have entriesSize : b.entriesSize < 2 ^ 16 := b.number_lt 36 2
  have keyOffset : b.keyOffset i < 2 ^ 16 := b.number_lt _ 2
  have keyLength : b.keyLength i < 2 ^ 16 := b.number_lt _ 2
  have valueOffset : b.valueOffset i < 2 ^ 16 := b.number_lt _ 2
  have valueLength : b.valueLength i < 2 ^ 16 := b.number_lt _ 2
  have keyStart : b.keyStart i < 2 ^ 64 := by
    rw [Block.keyStart]
    omega
  have valueStart : b.valueStart i < 2 ^ 64 := by
    rw [Block.valueStart]
    omega
  simp only [entryChecks, List.mem_cons, List.not_mem_nil, or_false] at hc
  rcases hc with rfl | rfl | rfl
  · exact spanCheck_shown keyStart (by omega) fails
  · have before : ¬ b.valueOffset i ≤ b.bytes.size - 40 := of_decide_eq_false fails
    have offset : b.valueOffset i < 2 ^ 64 := by omega
    have start : b.bytes.size - 40 < 2 ^ 64 := by omega
    refine ⟨rfl, ?_⟩
    rw [UInt64.lt_iff_toNat_lt, UInt64.toNat_ofNat_of_lt' offset, UInt64.toNat_ofNat_of_lt' start]
    omega
  · exact spanCheck_shown valueStart (by omega) fails

/-- A check that fails shows why, whether or not an earlier one fails as well. -/
theorem checks_shown {c : Check} (hc : c ∈ checks b) (fails : c.holds = false) :
    c.defect.ShownBy b := by
  simp only [checks, List.mem_append, List.mem_flatMap] at hc
  rcases hc with ((header | region) | footer) | ⟨i, -, entry⟩
  · exact headerChecks_shown header fails
  · exact regionChecks_shown region fails
  · exact footerChecks_shown footer fails
  · exact entryChecks_shown entry fails

/-- Of the readers of records, none reports a record that runs past the end of the block. -/
theorem part_of_truncated {part : String} {needed actual : UInt64} {c : Check}
    (hc : c ∈ checks b) (h : c.defect = .truncated part needed actual) :
    part = "B-tree header" ∧ needed = 50 ∨ part = "B-tree footer" ∧ needed = 90 := by
  simp only [checks, headerChecks, regionChecks, footerChecks, entryChecks, List.mem_append,
    List.mem_flatMap, List.mem_cons, List.not_mem_nil, or_false] at hc
  rcases hc with (((rfl | rfl | rfl | rfl | rfl | rfl) | (rfl | rfl | rfl | rfl)) |
    (rfl | rfl | rfl)) | ⟨i, -, (rfl | rfl | rfl)⟩
  all_goals simp only [fieldCheck, regionCheck, spanCheck, reduceCtorEq] at h
  · obtain ⟨rfl, rfl, -⟩ := Defect.truncated.inj h
    exact .inl ⟨rfl, rfl⟩
  · obtain ⟨rfl, rfl, -⟩ := Defect.truncated.inj h
    exact .inr ⟨rfl, rfl⟩

/-- The defect of a block that is no node is that of the first check to fail. It shows what is
wrong with the block, and a block that is too small is too small for its headers or its footer. -/
theorem decode_error_iff_first_check (b : Block) (d : Defect) :
    (decode b = .error d ↔
      ∃ before c after, checks b = before ++ c :: after ∧ (∀ a ∈ before, a.holds) ∧
        c.holds = false ∧ c.defect = d) ∧
    (decode b = .error d → d.ShownBy b ∧ ∀ part needed actual, d = .truncated part needed actual →
      part = "B-tree header" ∧ needed = 50 ∨ part = "B-tree footer" ∧ needed = 90) := by
  rw [(decode_follows b).eq_error_iff, firstDefect?_eq_some_iff]
  refine ⟨Iff.rfl, ?_⟩
  rintro ⟨before, c, after, split, -, fails, rfl⟩
  have hc : c ∈ checks b := by
    rw [split]
    exact List.mem_append_right _ (List.mem_cons_self ..)
  exact ⟨checks_shown hc fails, fun _ _ _ h => part_of_truncated hc h⟩

end Node

end Apfs
