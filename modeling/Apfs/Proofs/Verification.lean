import Apfs.Proofs.Node.Views
import Apfs.Proofs.Node.FirstDefect
import Apfs.Proofs.Node.Independence
import Apfs.Proofs.Tampering

/-!
# Decoding with verification

To verify a block before it is decoded is to refuse more of them, and nothing else. A block that
does not verify is refused for that, whatever else is wrong with it, and of every other block the
result is the one without verification. That result owes next to nothing to the stored checksum: it
passes it on, and apart from that it shows only in values that reach back to the first bytes of the
block.
-/

namespace Apfs

/-- At least one byte of the span is among the first of the block. -/
def Span.ReachesInto (s : Span) (size : Nat) : Prop := s.start.toNat < size ∧ s.length ≠ 0

/-- Why the checksum of a block does not verify, in the order in which this is found out. -/
inductive Block.Unverified (b : Block) : Defect → Prop
  | empty : b.bytes.size = 0 → Unverified b .emptyBlock
  | short : b.bytes.size ≠ 0 → b.bytes.size < 32 →
      Unverified b (.truncated "object header" 32 b.size)
  | mismatch : 32 ≤ b.bytes.size → b.storedChecksum ≠ fletcher64 (b.toList.drop 8) →
      Unverified b (.checksumMismatch b.storedChecksum (fletcher64 (b.toList.drop 8)))

namespace LocatedNode

/-- The node with another checksum in the header of its object. -/
def withChecksum (m : LocatedNode) (sum : UInt64) : LocatedNode :=
  { m with object := { m.object with checksum := sum } }

end LocatedNode

variable {a b : Block} {location : Location} {m : LocatedNode}

theorem Block.unverified_iff {d : Defect} : b.verifyChecksum = .error d ↔ b.Unverified d := by
  have stored : b.storedChecksum.toNat = b.number 0 8 :=
    UInt64.toNat_ofNat_of_lt' (b.number_lt 0 8)
  have same : b.number 0 8 = b.coveredChecksum.toNat ↔
      b.storedChecksum = fletcher64 (b.toList.drop 8) := by
    rw [← stored, UInt64.toNat_inj]
    rfl
  rw [(verifyChecksum_follows b).eq_error_iff]
  simp only [checksumChecks, firstDefect?_cons, firstDefect?_nil, decide_eq_true_eq, same]
  constructor
  · intro first
    split at first
    case isFalse empty =>
      obtain rfl := Option.some.inj first
      exact .empty (by omega)
    case isTrue nonempty =>
      split at first
      case isFalse short =>
        obtain rfl := Option.some.inj first
        exact .short nonempty (by omega)
      case isTrue room =>
        split at first
        case isFalse differ =>
          obtain rfl := Option.some.inj first
          exact .mismatch room differ
        case isTrue => cases first
  · intro unverified
    cases unverified with
    | empty empty => simp [empty]
    | short nonempty short =>
      rw [if_pos nonempty, if_neg (by omega)]
      rfl
    | mismatch room differ =>
      rw [if_pos (by omega), if_pos room, if_neg differ]
      rfl

/-! ## Verification in front of the decoder -/

namespace LocatedNode

/-- Verification comes first, and the decoder is asked only if the block passes. -/
theorem decode_true (location : Location) (b : Block) :
    decode location b true = match b.verifyChecksum with
      | .ok () => decode location b false
      | .error d => .error (.decode location d) := by
  unfold decode
  cases b.verifyChecksum with
  | ok => rfl
  | error d => rfl

theorem decode_false (location : Location) (b : Block) :
    decode location b false = match Node.decode b with
      | .ok n => .ok (ofNode location n)
      | .error d => .error (.decode location d) := by
  unfold decode
  cases Node.decode b with
  | ok => rfl
  | error d => rfl

theorem decode_false_eq_error_iff {e : NodeError} :
    decode location b false = .error e ↔
      ∃ d, Node.decode b = .error d ∧ e = .decode location d := by
  rw [decode_false]
  cases Node.decode b <;> simp [eq_comm]

theorem decode_false_eq_ok_iff :
    decode location b false = .ok m ↔ ∃ n, Node.decode b = .ok n ∧ m = ofNode location n := by
  rw [decode_false]
  cases Node.decode b <;> simp [eq_comm]

/-- Every error is a defect at the location that was given. -/
theorem exists_defect {verify : Bool} {e : NodeError}
    (refused : decode location b verify = .error e) :
    ∃ d, (b.Unverified d ∨ Node.decode b = .error d) ∧ e = .decode location d := by
  have without : decode location b false = .error e →
      ∃ d, (b.Unverified d ∨ Node.decode b = .error d) ∧ e = .decode location d := by
    intro refused
    obtain ⟨d, found, rfl⟩ := decode_false_eq_error_iff.mp refused
    exact ⟨d, .inr found, rfl⟩
  cases verify with
  | false => exact without refused
  | true =>
    rw [decode_true] at refused
    cases verdict : b.verifyChecksum with
    | ok =>
      rw [verdict] at refused
      exact without refused
    | error d =>
      rw [verdict] at refused
      exact ⟨d, .inl (Block.unverified_iff.mp verdict), (Except.error.inj refused).symm⟩

theorem decode_eq_error_of_empty (empty : b.bytes.size = 0) (verify : Bool) :
    decode location b verify = .error (.decode location .emptyBlock) := by
  have parsed : Node.decode b = .error .emptyBlock := by
    rw [(Node.decode_follows b).eq_error_iff]
    simp [Node.checks, Node.headerChecks, firstDefect?_cons, empty]
  have without : decode location b false = .error (.decode location .emptyBlock) :=
    decode_false_eq_error_iff.mpr ⟨_, parsed, rfl⟩
  cases verify with
  | false => exact without
  | true => rw [decode_true, Block.unverified_iff.mpr (.empty empty)]

end LocatedNode

theorem Node.exists_failing_check {d : Defect} (refused : decode b = .error d) :
    ∃ c ∈ checks b, c.holds = false ∧ c.defect = d := by
  obtain ⟨before, c, after, split, -, fails, defect⟩ :=
    firstDefect?_eq_some_iff.mp ((decode_follows b).eq_error_iff.mp refused)
  exact ⟨c, by simp [split], fails, defect⟩

/-- The decoder never looks at a checksum. -/
theorem Node.kind_ne_checksum {d : Defect} (refused : decode b = .error d) :
    d.kind ≠ .checksum := by
  obtain ⟨c, hc, -, rfl⟩ := exists_failing_check refused
  simp only [checks, headerChecks, regionChecks, footerChecks, entryChecks, List.mem_append,
    List.mem_flatMap, List.mem_cons, List.not_mem_nil, or_false] at hc
  rcases hc with (((rfl | rfl | rfl | rfl | rfl | rfl) | (rfl | rfl | rfl | rfl)) |
    (rfl | rfl | rfl)) | ⟨i, -, (rfl | rfl | rfl)⟩
  all_goals exact ErrorKind.noConfusion

/-- Of all defects, only that of an empty block lies with the caller. -/
theorem Defect.kind_eq_invalidArgument_iff {d : Defect} :
    d.kind = .invalidArgument ↔ d = .emptyBlock := by
  cases d <;> simp [kind]

theorem Defect.kind_ne_io (d : Defect) : d.kind ≠ .io := by
  cases d <;> simp [kind]

/-- Either way a block is refused as empty only if it is. -/
theorem Block.size_eq_zero_of_emptyBlock
    (refused : b.Unverified .emptyBlock ∨ Node.decode b = .error .emptyBlock) :
    b.bytes.size = 0 := by
  obtain unverified | undecoded := refused
  · cases unverified with
    | empty empty => exact empty
  · obtain ⟨c, hc, fails, defect⟩ := Node.exists_failing_check undecoded
    have shown : c.defect.ShownBy b := Node.checks_shown hc fails
    rw [defect] at shown
    exact shown

/-! ## Other bytes in front -/

section Overwritten

variable (agree : a.AgreeOutside b 0 8)

include agree

theorem Node.decodeEntries_overwritten : decodeEntries a = decodeEntries b := by
  have inside : ∀ i width, 8 ≤ i → a.slice i width = b.slice i width :=
    fun i width behind => agree.slice_eq (.inr behind)
  by_cases headers : 50 ≤ a.bytes.size
  · by_cases minimum : 90 ≤ a.bytes.size
    · refine decodeEntries_congr_of_sameFields agree.size ?_ minimum
      exact ⟨inside _ _ (by omega), inside _ _ (by omega), inside _ _ (by omega),
        fun _ => inside _ _ (by omega)⟩
    · exact decodeEntries_congr_of_truncated agree.size (by omega) (inside _ _ (by omega))
  · exact decodeEntries_congr_of_short agree.size (by omega)

/-- Of the parts of a node the stored checksum alone is what the first bytes say. -/
theorem Node.parts_overwritten {n n' : Node} (decoded : decode a = .ok n)
    (decoded' : decode b = .ok n') :
    n'.object = { n.object with checksum := b.storedChecksum } ∧ n'.header = n.header ∧
      n'.footer = n.footer ∧ n'.entries = n.entries := by
  have room : 90 ≤ a.bytes.size := (exists_decode_iff_isNode.mp ⟨n, decoded⟩).minimum
  have size := agree.size
  have first := standsIn_of_decode decoded
  have second := standsIn_of_decode decoded'
  refine ⟨?_, ?_, ?_, ?_⟩
  · apply LawfulRecord.eq_of_toBytes_eq
    have stored : LittleEndian.bytes 8 b.storedChecksum.toNat = b.slice 0 8 := by
      rw [Block.storedChecksum, UInt64.toNat_ofNat_of_lt' (b.number_lt 0 8),
        Block.bytes_number (by omega)]
    have rest : (a.slice 0 32).drop 8 = b.slice 8 24 := by
      rw [show a.slice 0 32 = a.slice 0 8 ++ a.slice 8 24 from a.slice_add 0 8 24,
        List.drop_left' (Block.length_slice_of_le (by omega))]
      exact agree.slice_eq (.inr (Nat.le_refl 8))
    have given := n.object.toBytes_with b.storedChecksum
    rw [first.object, stored, rest, ← b.slice_add 0 8 24] at given
    exact second.object.trans given.symm
  · apply LawfulRecord.eq_of_toBytes_eq
    rw [first.header, second.header]
    exact (agree.slice_eq (.inr (by omega))).symm
  · apply LawfulRecord.eq_of_toBytes_eq
    rw [first.footer, second.footer, size]
    exact (agree.slice_eq (.inr (by omega))).symm
  · have verdict := decodeEntries_overwritten agree
    rw [decodeEntries_eq_map, decodeEntries_eq_map, decoded, decoded'] at verdict
    exact (Except.ok.inj verdict).symm

theorem Node.recordAt_overwritten {e : Entry} (key : 8 ≤ e.key.start.toNat)
    (value : ¬ e.value.ReachesInto 8) : recordAt a e.numbers = recordAt b e.numbers := by
  have keys : a.slice e.key.start.toNat e.key.length.toNat
      = b.slice e.key.start.toNat e.key.length.toNat := agree.slice_eq (.inr key)
  have values : a.slice e.value.start.toNat e.value.length.toNat
      = b.slice e.value.start.toNat e.value.length.toNat := by
    by_cases empty : e.value.length = 0
    · simp [empty]
    · refine agree.slice_eq (.inr ?_)
      by_contra before
      exact value ⟨by omega, empty⟩
  simp [recordAt, Entry.numbers, Span.numbers, keys, values]

/-- Errors do not depend on the first bytes, and neither does a node, as far as its values do not
reach into them. -/
theorem LocatedNode.decode_overwritten (location : Location) :
    (∀ e, decode location b false = .error e ↔ decode location a false = .error e) ∧
    ∀ m, decode location a false = .ok m → ∃ records,
      decode location b false = .ok { m.withChecksum b.storedChecksum with records } ∧
      (∀ (i : Nat) (e : Entry), m.entries[i]? = some e → ¬ e.value.ReachesInto 8 →
        records[i]? = m.records[i]?) ∧
      ((∀ e ∈ m.entries, ¬ e.value.ReachesInto 8) →
        decode location b false = .ok (m.withChecksum b.storedChecksum)) := by
  have verdict := Node.decodeEntries_overwritten agree
  rw [Node.decodeEntries_eq_map, Node.decodeEntries_eq_map] at verdict
  constructor
  · intro e
    cases foundA : Node.decode a <;> cases foundB : Node.decode b <;>
      simp_all [decode_false, Except.map]
  · intro m decoded
    obtain ⟨n, foundA, rfl⟩ := decode_false_eq_ok_iff.mp decoded
    obtain ⟨n', foundB⟩ : ∃ n', Node.decode b = .ok n' := by
      cases foundB : Node.decode b with
      | ok n' => exact ⟨n', rfl⟩
      | error d => simp [foundA, foundB, Except.map] at verdict
    obtain ⟨object, header, footer, entries⟩ := Node.parts_overwritten agree foundA foundB
    have recordsA := Node.records_of_decode foundA
    have recordsB := Node.records_of_decode foundB
    rw [entries] at recordsB
    have same : ∀ e ∈ n.entries, ¬ e.value.ReachesInto 8 →
        Node.recordAt b e.numbers = Node.recordAt a e.numbers := by
      intro e he apart
      have key := ((Node.wellPlaced_of_decode foundA).keys e he).1
      exact (Node.recordAt_overwritten agree (by omega) apart).symm
    have result : decode location b false
        = .ok { (ofNode location n).withChecksum b.storedChecksum with records := n'.records } := by
      refine decode_false_eq_ok_iff.mpr ⟨n', foundB, ?_⟩
      simp [ofNode, withChecksum, object, header, footer, entries]
    refine ⟨n'.records, result, ?_, ?_⟩
    · intro i e entry apart
      have kept := same e (List.mem_of_getElem? entry) apart
      have here : n.entries[i]? = some e := entry
      show n'.records[i]? = n.records[i]?
      rw [recordsA, recordsB, List.getElem?_map, List.getElem?_map, here, Option.map_some, kept]
      rfl
    · intro apart
      have records : n'.records = n.records := by
        rw [recordsA, recordsB]
        exact List.map_congr_left fun e he => same e he (apart e he)
      rw [result, records]
      rfl

end Overwritten

/-- Verification only takes blocks away. The result with it is the failure of the checksum, if there
is one, and else the result without it, to which the stored checksum contributes itself alone unless
a value reaches into it. Every error is a defect at the given location, and lies with the caller
exactly if the block is empty. -/
theorem LocatedNode.decode_verified (location : Location) (b : Block) :
    (∀ m, decode location b true = .ok m ↔
      b.verifyChecksum = .ok () ∧ decode location b false = .ok m) ∧
    (∀ d, b.verifyChecksum = .error d →
      decode location b true = .error (.decode location d) ∧ b.Unverified d) ∧
    (b.verifyChecksum = .ok () → decode location b true = decode location b false) ∧
    (∀ e, decode location b false = .error e → e.kind ≠ .checksum) ∧
    (∀ b', b.AgreeOutside b' 0 8 →
      (∀ e, decode location b' false = .error e ↔ decode location b false = .error e) ∧
      ∀ m, decode location b false = .ok m → ∃ records,
        decode location b' false = .ok { m.withChecksum b'.storedChecksum with records } ∧
        (∀ (i : Nat) (e : Entry), m.entries[i]? = some e → ¬ e.value.ReachesInto 8 →
          records[i]? = m.records[i]?) ∧
        ((∀ e ∈ m.entries, ¬ e.value.ReachesInto 8) →
          decode location b' false = .ok (m.withChecksum b'.storedChecksum))) ∧
    ∀ verify, (b.bytes.size = 0 → ∃ e, decode location b verify = .error e) ∧
      ∀ e, decode location b verify = .error e → (∃ d, e = .decode location d) ∧
        (e.kind = .invalidArgument ↔ b.bytes.size = 0) ∧ e.kind ≠ .io := by
  refine ⟨?_, ?_, ?_, ?_, fun b' agree => decode_overwritten agree location, ?_⟩
  · intro m
    rw [decode_true]
    cases b.verifyChecksum with
    | ok => simp
    | error d => simp
  · intro d refused
    rw [decode_true, refused]
    exact ⟨rfl, Block.unverified_iff.mp refused⟩
  · intro verified
    rw [decode_true, verified]
  · intro e refused
    obtain ⟨d, found, rfl⟩ := decode_false_eq_error_iff.mp refused
    exact Node.kind_ne_checksum found
  · intro verify
    refine ⟨fun empty => ⟨_, decode_eq_error_of_empty empty verify⟩, ?_⟩
    intro e refused
    obtain ⟨d, found, rfl⟩ := exists_defect refused
    refine ⟨⟨d, rfl⟩, ?_, d.kind_ne_io⟩
    show d.kind = .invalidArgument ↔ b.bytes.size = 0
    rw [Defect.kind_eq_invalidArgument_iff]
    constructor
    · rintro rfl
      exact Block.size_eq_zero_of_emptyBlock found
    · intro empty
      rw [decode_eq_error_of_empty empty] at refused
      obtain ⟨-, same⟩ := NodeError.decode.inj (Except.error.inj refused)
      exact same.symm

/-- Sealing is no more than overwriting the stored checksum. -/
theorem Block.agreeOutside_sealed (room : 8 ≤ b.bytes.size) : b.AgreeOutside b.sealed 0 8 where
  size := size_sealed room
  bytes k hk outside := by
    have behind : (LittleEndian.bytes 8 b.coveredChecksum.toNat).length ≤ k := by
      rw [LittleEndian.length_bytes]
      omega
    rw [toList_sealed, List.getElem?_append_right behind, LittleEndian.length_bytes,
      List.getElem?_drop, Nat.add_sub_cancel' (by omega)]

theorem LocatedNode.decode_verified_oneEntry :
    let location : Location := ⟨8192, 4096⟩
    let b := Node.oneEntry 7 1 2
    (∃ d, decode location b true = .error (.decode location d) ∧ b.Unverified d) ∧
      ∃ m, decode location b false = .ok m ∧
        decode location b.sealed true = .ok (m.withChecksum b.sealed.storedChecksum) := by
  intro location b
  have room : 32 ≤ b.bytes.size := show 32 ≤ 100 by decide
  obtain ⟨-, restricts, -, -, overwritten, -⟩ := decode_verified location b
  have differ : b.storedChecksum ≠ fletcher64 (b.toList.drop 8) := by decide +kernel
  refine ⟨⟨_, restricts _ (Block.unverified_iff.mpr (.mismatch room differ))⟩, ?_⟩
  have accepted : ∃ n, Node.decode (Node.oneEntry 7 1 2) = .ok n ∧
      n.entries = [⟨⟨58, 1, by decide⟩, ⟨59, 1, by decide⟩⟩] := ⟨_, rfl, rfl⟩
  obtain ⟨n, parsed, entries⟩ := accepted
  have decoded : decode location b false = .ok (ofNode location n) :=
    decode_false_eq_ok_iff.mpr ⟨n, parsed, rfl⟩
  have apart : ∀ e ∈ (ofNode location n).entries, ¬ e.value.ReachesInto 8 := by
    show ∀ e ∈ n.entries, ¬ e.value.ReachesInto 8
    simp [entries, Span.ReachesInto]
  obtain ⟨-, -, -, same⟩ :=
    (overwritten b.sealed (Block.agreeOutside_sealed (by omega))).2 _ decoded
  have sealed := (decode_verified location b.sealed).1
  exact ⟨_, decoded, (sealed _).mpr ⟨Block.verifyChecksum_sealed room, same apart⟩⟩

end Apfs
