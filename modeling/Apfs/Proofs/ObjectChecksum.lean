import Apfs.ObjectChecksum
import Apfs.Proofs.Record

/-!
# Sealed objects

Sealing a block replaces its first eight bytes by the checksum of the others, which it leaves as
they are. What was sealed passes verification.
-/

namespace Apfs

theorem ObjectHeader.toBytes_with (r : ObjectHeader) (sum : UInt64) :
    Record.toBytes { r with checksum := sum }
      = LittleEndian.bytes 8 sum.toNat ++ (Record.toBytes r).drop 8 := by
  have stored : Record.toBytes r = LittleEndian.bytes 8 r.checksum.toNat ++
      (LittleEndian.bytes 8 r.identifier.toNat ++ (LittleEndian.bytes 8 r.version.toNat ++
        (LittleEndian.bytes 4 r.type.toNat ++ LittleEndian.bytes 4 r.subtype.toNat))) := by
    simp only [Record.toBytes, List.append_assoc]
  rw [stored, List.drop_left' (LittleEndian.length_bytes 8 _)]
  simp only [Record.toBytes, List.append_assoc]

namespace Block

variable {b : Block}

theorem toList_sealed (b : Block) :
    b.sealed.toList = LittleEndian.bytes 8 b.coveredChecksum.toNat ++ b.toList.drop 8 := by
  simp [sealed, toList, checksumSize, List.take_of_length_le]

theorem size_sealed (room : 8 ≤ b.bytes.size) : b.sealed.bytes.size = b.bytes.size := by
  have size := congrArg List.length (toList_sealed b)
  simp only [List.length_append, LittleEndian.length_bytes, List.length_drop, length_toList] at size
  omega

/-- What a checksum is followed by is what is covered. -/
theorem number_zero_and_coveredChecksum {sum : UInt64} {rest : List UInt8}
    (h : b.toList = LittleEndian.bytes 8 sum.toNat ++ rest) :
    b.number 0 8 = sum.toNat ∧ b.coveredChecksum = fletcher64 rest := by
  constructor
  · have first : b.slice 0 8 = LittleEndian.bytes 8 sum.toNat := by
      rw [slice, h, List.drop_zero]
      exact List.take_left' (LittleEndian.length_bytes 8 _)
    rw [number, first, LittleEndian.value_bytes]
    exact Nat.mod_eq_of_lt sum.toNat_lt
  · have covered : b.toList.drop 8 = rest := by
      rw [h]
      exact List.drop_left' (LittleEndian.length_bytes 8 _)
    rw [coveredChecksum, checksumSize, covered]

/-- The checks of an object's checksum in the order in which they are made. -/
def checksumChecks (b : Block) : List Check := [
  ⟨b.bytes.size ≠ 0, .emptyBlock⟩,
  ⟨32 ≤ b.bytes.size, .truncated "object header" 32 (.ofNat b.bytes.size)⟩,
  ⟨b.number 0 8 = b.coveredChecksum.toNat,
    .checksumMismatch (.ofNat (b.number 0 8)) b.coveredChecksum⟩]

theorem verifyChecksum_follows (b : Block) :
    Follows b.verifyChecksum (checksumChecks b) fun _ => True := by
  unfold verifyChecksum
  refine Follows.require_bind ?_ rfl fun _ => ?_
  · simp [← UInt64.toNat_inj]
  refine Follows.bind Follows.readAt fun r ⟨room, hr⟩ => ?_
  have stored : r.checksum.toNat = b.number 0 8 := by
    rw [hr]
    exact toNat_u64 _
  refine (Follows.require ?_ ?_).mono fun _ _ => trivial
  · simp [← stored, UInt64.toNat_inj]
  · rw [← stored, UInt64.ofNat_toNat]

/-- An object verifies if there is room for its header and the checksum that it stores is that of
its other bytes. -/
theorem verifyChecksum_eq_ok_iff :
    b.verifyChecksum = .ok () ↔ 32 ≤ b.bytes.size ∧ b.number 0 8 = b.coveredChecksum.toNat := by
  have passes := (verifyChecksum_follows b).eq_ok_iff
  simp only [checksumChecks, List.forall_mem_cons, decide_eq_true_eq] at passes
  constructor
  · intro h
    obtain ⟨-, room, stored, -⟩ := passes.mp ⟨(), h⟩
    exact ⟨room, stored⟩
  · rintro ⟨room, stored⟩
    obtain ⟨⟨⟩, passed⟩ := passes.mpr ⟨by omega, room, stored, List.forall_mem_nil _⟩
    exact passed

theorem verifyChecksum_sealed (room : 32 ≤ b.bytes.size) : b.sealed.verifyChecksum = .ok () := by
  obtain ⟨stored, covered⟩ := number_zero_and_coveredChecksum (toList_sealed b)
  rw [verifyChecksum_eq_ok_iff, size_sealed (by omega), stored, covered]
  exact ⟨room, rfl⟩

end Block

end Apfs
