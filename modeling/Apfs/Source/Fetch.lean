import Apfs.Block
import Apfs.Source.Basic

/-!
# Fetching blocks

A block is fetched with one seek and as many reads as it takes, each asking for all bytes that
are still missing. Interrupted reads are made again. No read is made once the block is complete,
and a block is never handed out short.
-/

namespace Apfs.Source

theorem size_advance_le (s : Source) (n : Nat) : (s.advance n).1.size ≤ n := by
  simp only [advance, ByteArray.size_extract]
  omega

theorem size_read_le {s t : Source} {n : Nat} {chunk : ByteArray}
    (h : s.read n = (.ok chunk, t)) : chunk.size ≤ n ∧ t.reads.length ≤ s.reads.length := by
  unfold read at h
  split at h
  case h_1 | h_2 =>
    have size := size_advance_le
    simp only [Prod.map, Prod.mk.injEq, Except.ok.injEq, id] at h
    obtain ⟨rfl, rfl⟩ := h
    grind [advance]
  case h_3 => simp at h

theorem length_reads_lt {s t : Source} {n : Nat} {fault : Fault}
    (h : s.read n = (.error fault, t)) : t.reads.length < s.reads.length := by
  unfold read at h
  split at h
  case h_1 | h_2 => simp [Prod.map] at h
  case h_3 reads _ =>
    obtain ⟨-, rfl⟩ := Prod.mk.inj h
    simp_all

/-- Reads `missing` bytes behind those already there, or as many as there are. -/
def fill (s : Source) (block : ByteArray) (missing : Nat) : Except Fault ByteArray × Source :=
  if missing = 0 then (.ok block, s)
  else
    match _ : s.read missing with
    | (.ok chunk, t) =>
      if chunk.size = 0 then (.ok block, t)
      else t.fill (block ++ chunk) (missing - chunk.size)
    | (.error fault, t) =>
      if fault.kind = .interrupted then t.fill block missing
      else (.error fault, t)
termination_by s.reads.length + missing
decreasing_by
  · have := size_read_le ‹_›
    omega
  · have := length_reads_lt ‹_›
    omega

/-- The block of `blockSize` bytes at an offset. -/
def fetch (s : Source) (offset : UInt64) (blockSize : UInt32) : Except FetchError Block × Source :=
  if blockSize = 0 then (.error (.invalidBlockSize blockSize), s)
  else
    match s.seek offset with
    | (.error fault, t) => (.error (.seek offset fault), t)
    | (.ok (), t) =>
      match t.fill .empty blockSize.toNat with
      | (.error fault, u) => (.error (.read offset fault), u)
      | (.ok bytes, u) =>
        if h : bytes.size = blockSize.toNat then
          (.ok ⟨bytes, by
            have := blockSize.toNat_lt_size
            have : UInt32.size < UInt64.size := by decide
            omega⟩, u)
        else
          (.error (.short offset blockSize.toUInt64 (.ofNat bytes.size)), u)

end Apfs.Source
