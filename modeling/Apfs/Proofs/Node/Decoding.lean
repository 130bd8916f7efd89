import Apfs.Proofs.Node.Checks

/-!
# The decoder follows its checks

The decoder works on machine words and reads each number only after the checks that make room for
it. Here it is taken apart along its own steps: what the checks so far have shown is what keeps
the next word from wrapping around and the next read inside the block.
-/

namespace Apfs

open Record (ofBlock)

variable {b : Block}

namespace Node

/-- The parts of a node are those that stand in a block. -/
structure StandsIn (n : Node) (b : Block) : Prop where
  block : n.block = b
  object : Record.toBytes n.object = b.slice 0 32
  header : Record.toBytes n.header = b.slice 32 18
  footer : Record.toBytes n.footer = b.slice (b.bytes.size - 40) 40
  entries : n.entries.map Entry.numbers = (List.range b.entryCount).map b.entryNumbers

section Header

variable (room : 32 + Record.size NodeHeader ≤ b.bytes.size)

theorem toNat_entriesOffset :
    (ofBlock b 32 room : NodeHeader).entriesOffset.toNat = b.entriesOffset := Block.toNat_u16 _

theorem toNat_entriesSize :
    (ofBlock b 32 room : NodeHeader).entriesSize.toNat = b.entriesSize := Block.toNat_u16 _

theorem toNat_unusedOffset :
    (ofBlock b 32 room : NodeHeader).unusedOffset.toNat = b.unusedOffset := Block.toNat_u16 _

theorem toNat_unusedSize :
    (ofBlock b 32 room : NodeHeader).unusedSize.toNat = b.unusedSize := Block.toNat_u16 _

theorem toNat_capacity :
    (ofBlock b 32 room : NodeHeader).capacity.toNat = b.entriesSize / 8 := by
  rw [NodeHeader.toNat_capacity, toNat_entriesSize room]

end Header

section Footer

variable (minimum : 90 ≤ b.bytes.size)
  (room : b.bytes.size - 40 + Record.size NodeFooter ≤ b.bytes.size)

include minimum

theorem toNat_keySize : (ofBlock b _ room : NodeFooter).keySize.toUInt64.toNat
    = b.number (b.bytes.size - 32) 4 := by
  rw [show b.bytes.size - 32 = b.bytes.size - 40 + 8 by omega]
  exact Block.toNat_widened32 _

theorem toNat_valueSize : (ofBlock b _ room : NodeFooter).valueSize.toUInt64.toNat
    = b.number (b.bytes.size - 28) 4 := by
  rw [show b.bytes.size - 28 = b.bytes.size - 40 + 12 by omega]
  exact Block.toNat_widened32 _

theorem toNat_numberOfEntries : (ofBlock b _ room : NodeFooter).numberOfEntries.toNat
    = b.entryCount := by
  rw [Block.entryCount, show b.bytes.size - 16 = b.bytes.size - 40 + 24 by omega]
  exact Block.toNat_u64 _

theorem toNat_available : (footerStart b - headersSize).toNat = b.bytes.size - 90 := by
  have start := toNat_footerStart (b := b) (by omega)
  have le : headersSize ≤ footerStart b := by
    rw [UInt64.le_iff_toNat_le, start, toNat_headersSize]
    omega
  rw [UInt64.toNat_sub_of_le _ _ le, start, toNat_headersSize]
  omega

end Footer

theorem checkRegions_follows {available : UInt64}
    (room : 32 + Record.size NodeHeader ≤ b.bytes.size)
    (ha : available.toNat = b.bytes.size - 90) :
    Follows (checkRegions (ofBlock b 32 room) available) (regionChecks b) fun _ =>
      b.entriesOffset + b.entriesSize + b.unusedOffset + b.unusedSize ≤ b.bytes.size - 90 := by
  refine Follows.bind (takeRegion_follows ha (toNat_entriesOffset room)) fun r₁ ⟨h₁, hr₁⟩ => ?_
  refine Follows.bind (takeRegion_follows hr₁ (toNat_entriesSize room)) fun r₂ ⟨h₂, hr₂⟩ => ?_
  refine Follows.bind (takeRegion_follows hr₂ (toNat_unusedOffset room)) fun r₃ ⟨h₃, hr₃⟩ => ?_
  refine Follows.bind (takeRegion_follows hr₃ (toNat_unusedSize room)) fun r₄ ⟨h₄, _⟩ => ?_
  exact Follows.ok (by omega)

/-- The checks of the regions leave room for every slot of the entry table. -/
theorem slot_room {i : Nat} (minimum : 90 ≤ b.bytes.size)
    (regions : b.entriesOffset + b.entriesSize ≤ b.bytes.size - 90)
    (hi : i < b.entriesSize / 8) : b.slotStart i + Record.size EntrySlot ≤ b.bytes.size := by
  rw [size_entrySlot, Block.slotStart]
  omega

theorem toNat_slot (room : 32 + Record.size NodeHeader ≤ b.bytes.size) {i : Nat}
    (hi : i < b.entriesSize / 8) :
    ((ofBlock b 32 room : NodeHeader).slotStart i).toNat = b.slotStart i := by
  have size : b.entriesSize < 65536 := b.number_lt 36 2
  rw [NodeHeader.toNat_slotStart _ (by omega), toNat_entriesOffset room, Block.slotStart]

theorem toNat_keyStart (room : 32 + Record.size NodeHeader ≤ b.bytes.size) (offset : UInt16) :
    ((ofBlock b 32 room : NodeHeader).keysStart + offset.toUInt64).toNat
      = 50 + b.entriesOffset + b.entriesSize + offset.toNat := by
  rw [NodeHeader.toNat_keyStart, toNat_entriesOffset room, toNat_entriesSize room]

theorem resolveEntry_follows (room : 32 + Record.size NodeHeader ≤ b.bytes.size)
    (minimum : 90 ≤ b.bytes.size)
    (regions : b.entriesOffset + b.entriesSize ≤ b.bytes.size - 90) {i : Nat}
    (hi : i < b.entriesSize / 8) :
    Follows
      (resolveEntry b (ofBlock b 32 room : NodeHeader).tableStart
        (ofBlock b 32 room : NodeHeader).keysStart (footerStart b) i)
      (entryChecks b i) fun e => e.val.numbers = b.entryNumbers i := by
  have slot := slot_room minimum regions hi
  unfold resolveEntry
  refine Follows.settle_bind (Follows.settle_bind (Follows.settle_bind ?_))
  dsimp only
  rw [← NodeHeader.slotStart, toNat_slot room hi]
  refine Follows.readAt_bind slot ?_
  have keyStart : ((ofBlock b 32 room : NodeHeader).keysStart
      + (ofBlock b (b.slotStart i) slot : EntrySlot).keyOffset.toUInt64).toNat = b.keyStart i :=
    (toNat_keyStart room _).trans (congrArg _ (Block.toNat_u16 _))
  have keyLength : (ofBlock b (b.slotStart i) slot : EntrySlot).keySize.toUInt64.toNat
      = b.keyLength i := Block.toNat_widened16 _
  have valueLength : (ofBlock b (b.slotStart i) slot : EntrySlot).valueSize.toUInt64.toNat
      = b.valueLength i := Block.toNat_widened16 _
  refine Follows.settle_bind ?_
  refine Follows.bind (locate_follows keyStart keyLength) fun key hkey => ?_
  refine Follows.bind (valueStart_follows (by omega) (Block.toNat_u16 _)) fun start hstart => ?_
  refine Follows.bind (locate_follows hstart valueLength) fun value hvalue => ?_
  exact Follows.ok (Prod.ext hkey hvalue)

theorem entries_follow (room : 32 + Record.size NodeHeader ≤ b.bytes.size)
    (minimum : 90 ≤ b.bytes.size)
    (regions : b.entriesOffset + b.entriesSize ≤ b.bytes.size - 90)
    (few : b.entryCount ≤ b.entriesSize / 8) :
    Follows
      ((List.range b.entryCount).mapM
        (resolveEntry b (ofBlock b 32 room : NodeHeader).tableStart
          (ofBlock b 32 room : NodeHeader).keysStart (footerStart b)))
      ((List.range b.entryCount).flatMap (entryChecks b)) fun entries =>
        entries.map (·.val.numbers) = (List.range b.entryCount).map b.entryNumbers :=
  Follows.mapM _ fun _ hi => resolveEntry_follows room minimum regions
    (Nat.lt_of_lt_of_le (List.mem_range.mp hi) few)

theorem isSome_ofFlags?_iff {flags : UInt16} :
    (NodeLayout.ofFlags? flags).isSome ↔ flags.toNat = 3 := by
  rw [show flags.toNat = 3 ↔ flags = NodeLayout.variableSizeEntries.flags from
    UInt16.toNat_inj (b := 3)]
  unfold NodeLayout.ofFlags?
  split <;> simp [*]

/-- The decoder makes the checks of a node in their order, and the node that it returns when all
of them hold is the one that stands in the block. -/
theorem decode_follows (b : Block) : Follows (decode b) (checks b) (StandsIn · b) := by
  simp only [checks, headerChecks, footerChecks, List.cons_append, List.nil_append,
    List.append_assoc]
  unfold decode decodeM
  rw [size_objectHeader]
  refine Follows.require_bind ?_ rfl fun _ => ?_
  · simp [← UInt64.toNat_inj]
  refine Follows.require_bind ?_ rfl fun headers => ?_
  · simp [UInt64.le_iff_toNat_le]
  rw [UInt64.le_iff_toNat_le, toNat_headersSize, Block.toNat_size] at headers
  have object : 0 + Record.size ObjectHeader ≤ b.bytes.size := by
    rw [size_objectHeader]
    omega
  have header : 32 + Record.size NodeHeader ≤ b.bytes.size := headers
  refine Follows.readAt_bind object ?_
  refine Follows.bind (expect_follows (Block.toNat_widened32 _) rfl) fun _ _ => ?_
  refine Follows.bind (expect_follows (Block.toNat_widened32 _) rfl) fun _ _ => ?_
  refine Follows.readAt_bind header ?_
  have flags : (ofBlock b 32 header : NodeHeader).flags.toNat = b.number 32 2 :=
    Block.toNat_u16 _
  refine Follows.require_bind ?_ ?_ fun _ => ?_
  · simp [isSome_ofFlags?_iff, flags, fieldCheck]
  · show Defect.unsupported _ (.ofNat (b.number 32 2)) 3 = _
    rw [← flags, UInt64.ofNat_uInt16ToNat]
    rfl
  refine Follows.require_bind ?_ rfl fun minimum => ?_
  · simp [UInt64.le_iff_toNat_le]
  rw [UInt64.le_iff_toNat_le, toNat_minimumSize, Block.toNat_size] at minimum
  have footer : b.bytes.size - 40 + Record.size NodeFooter ≤ b.bytes.size := by
    rw [size_nodeFooter]
    omega
  refine Follows.settle_bind ?_
  dsimp only
  rw [← footerStart, toNat_footerStart (by omega)]
  refine Follows.readAt_bind footer ?_
  refine Follows.settle_bind ?_
  refine Follows.bind (checkRegions_follows header (toNat_available minimum)) fun _ regions => ?_
  refine Follows.bind (expect_follows (toNat_keySize minimum footer) rfl) fun _ _ => ?_
  refine Follows.bind (expect_follows (toNat_valueSize minimum footer) rfl) fun _ _ => ?_
  have count := toNat_numberOfEntries minimum footer
  have capacity := toNat_capacity header
  refine Follows.require_bind ?_ ?_ fun few => ?_
  · rw [UInt64.le_iff_toNat_le, count, capacity]
    exact decide_eq_true_iff
  · rw [← count, ← capacity, UInt64.ofNat_toNat, UInt64.ofNat_toNat]
  rw [UInt64.le_iff_toNat_le, count, capacity] at few
  refine Follows.settle_bind (Follows.settle_bind ?_)
  rw [count, ← List.append_nil (List.flatMap _ _)]
  refine Follows.bind (entries_follow header minimum (by omega) few) fun entries numbers => ?_
  refine Follows.ok ⟨rfl, LawfulRecord.toBytes_ofBlock object, LawfulRecord.toBytes_ofBlock header,
    LawfulRecord.toBytes_ofBlock footer, ?_⟩
  rw [List.map_map]
  exact numbers

end Node

end Apfs
