import Apfs.Proofs.Exact
import Apfs.Proofs.Node.Decoding

/-!
# Decoding without wrapping around

The decoder can be run as an exact computation. It then has an answer for every block, and this is
the answer that it has otherwise, so nothing that the decoder computes on the way wraps around or
loses a bit.
-/

namespace Apfs

namespace Exact

/-- The decoder in exact arithmetic. -/
def decode (b : Block) : Exact Node := Node.decodeM b

end Exact

namespace Node

open Exact (Gives)

theorem takeRegion_gives (available : UInt64) (field : String) (size : UInt16) :
    Gives (takeRegion available field size) (takeRegion available field size) := by
  refine Gives.require_bind fun fits => ?_
  exact Gives.settle_bind (Exact.toNat_sub fits) (Gives.pure _)

theorem checkRegions_gives (header : NodeHeader) (available : UInt64) :
    Gives (checkRegions header available) (checkRegions header available) := by
  refine Gives.bind (takeRegion_gives _ _ _) fun _ _ => ?_
  refine Gives.bind (takeRegion_gives _ _ _) fun _ _ => ?_
  refine Gives.bind (takeRegion_gives _ _ _) fun _ _ => ?_
  exact Gives.bind (takeRegion_gives _ _ _) fun _ _ => Gives.pure ()

theorem locate_gives (b : Block) (index : UInt64) (field : String) (start length : UInt64) :
    Gives (locate b index field start length) (locate b index field start length) :=
  Gives.bind (Span.fitM_gives _ _ _) fun _ _ => Gives.lift _

theorem valueStart_gives (footerStart index : UInt64) (slot : EntrySlot) :
    Gives (valueStart footerStart index slot) (valueStart footerStart index slot) := by
  refine Gives.require_bind fun fits => ?_
  exact Gives.settle_bind (Exact.toNat_sub fits) (Gives.pure _)

theorem resolveEntry_gives (b : Block) (header : NodeHeader) (footerStart : UInt64) {i : Nat}
    (hi : i < 65536) :
    Gives (resolveEntry b header.tableStart header.keysStart footerStart i)
      (resolveEntry b header.tableStart header.keysStart footerStart i) := by
  have index : (UInt64.ofNat i).toNat = i := UInt64.toNat_ofNat_of_lt' (show i < 2 ^ 64 by omega)
  have before : (UInt64.ofNat i * .ofNat (Record.size EntrySlot)).toNat = i * 8 := by
    rw [UInt64.toNat_mul, index]
    exact Nat.mod_eq_of_lt (show i * 8 < 2 ^ 64 by omega)
  refine Gives.settle_bind (Exact.toNat_ofNat (by omega)) ?_
  refine Gives.settle_bind (Exact.toNat_mul ?_) ?_
  · rw [index]
    exact show i * 8 < 2 ^ 64 by omega
  refine Gives.settle_bind (Exact.toNat_add ?_) ?_
  · rw [before, header.toNat_tableStart]
    have := header.entriesOffset.toNat_lt
    omega
  refine Gives.bind (Gives.lift _) fun slot _ => ?_
  refine Gives.settle_bind (Exact.toNat_add ?_) ?_
  · rw [header.toNat_keysStart, UInt16.toNat_toUInt64]
    have := header.entriesOffset.toNat_lt
    have := header.entriesSize.toNat_lt
    have := slot.keyOffset.toNat_lt
    omega
  refine Gives.bind (locate_gives _ _ _ _ _) fun key _ => ?_
  refine Gives.bind (valueStart_gives _ _ _) fun start _ => ?_
  refine Gives.bind (locate_gives _ _ _ _ _) fun value _ => ?_
  exact Gives.pure _

/-- Run in exact arithmetic, the decoder gives what it gives otherwise. -/
theorem decode_gives (b : Block) : Gives (Exact.decode b) (decode b) := by
  unfold Exact.decode decode decodeM
  refine Gives.require_bind fun _ => ?_
  refine Gives.require_bind fun _ => ?_
  refine Gives.bind (Gives.lift _) fun object _ => ?_
  refine Gives.bind (Gives.lift _) fun _ _ => ?_
  refine Gives.bind (Gives.lift _) fun _ _ => ?_
  refine Gives.bind (Gives.lift _) fun header _ => ?_
  refine Gives.require_bind fun _ => ?_
  refine Gives.require_bind fun minimum => ?_
  have footerLe : footerSize ≤ b.size := UInt64.le_trans (by decide) minimum
  refine Gives.settle_bind (Exact.toNat_sub footerLe) ?_
  refine Gives.bind (Gives.lift _) fun footer _ => ?_
  have headersLe : headersSize ≤ footerStart b := by
    rw [UInt64.le_iff_toNat_le, toNat_minimumSize, Block.toNat_size] at minimum
    rw [UInt64.le_iff_toNat_le, toNat_headersSize, toNat_footerStart (by omega)]
    omega
  refine Gives.settle_bind (Exact.toNat_sub headersLe) ?_
  refine Gives.bind (checkRegions_gives _ _) fun _ _ => ?_
  refine Gives.bind (Gives.lift _) fun _ _ => ?_
  refine Gives.bind (Gives.lift _) fun _ _ => ?_
  refine Gives.require_bind fun few => ?_
  have offset := header.entriesOffset.toNat_lt
  have size := header.entriesSize.toNat_lt
  refine Gives.settle_bind (Exact.toNat_add ?_) ?_
  · rw [toNat_headersSize, UInt16.toNat_toUInt64]
    omega
  refine Gives.settle_bind (Exact.toNat_add ?_) ?_
  · rw [← NodeHeader.tableStart, header.toNat_tableStart, UInt16.toNat_toUInt64]
    omega
  refine Gives.bind (Gives.mapM _ fun i hi => resolveEntry_gives b header _ ?_) fun entries _ => ?_
  · have capacity := header.toNat_capacity
    rw [UInt64.le_iff_toNat_le] at few
    rw [List.mem_range] at hi
    omega
  exact Gives.pure _

end Node

end Apfs
