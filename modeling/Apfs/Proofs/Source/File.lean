import Mathlib.Algebra.Ring.Nat
import Apfs.Source.Node

/-!
# Files as sources

A file is read like a source in memory that holds its bytes. The two differ only in how far they
can be positioned, and a read does not ask for that. So they give the same blocks and nodes at all
offsets that a file can reach, and at every other offset the file fails to seek.
-/

namespace Apfs

namespace Source

/-- The source with another end to the offsets at which it can be positioned. -/
def withReach (s : Source) (reach : Nat) : Source := { s with reach }

theorem read_withReach {s t : Source} {n : Nat} {result : Except Fault ByteArray}
    (read : s.read n = (result, t)) (reach : Nat) :
    (s.withReach reach).read n = (result, t.withReach reach) := by
  have same : (s.withReach reach).read n = (s.read n).map id (withReach · reach) := by
    obtain ⟨bytes, position, reads, seeks, _⟩ := s
    match reads with
    | [] | .limit _ :: _ | .fail _ :: _ => rfl
  rw [same, read]
  rfl

section Fill

variable {s t : Source} {block chunk : ByteArray} {missing : Nat} {fault : Fault}

theorem fill_of_read_ok (incomplete : missing ≠ 0) (read : s.read missing = (.ok chunk, t)) :
    s.fill block missing = if chunk.size = 0 then (.ok block, t)
      else t.fill (block ++ chunk) (missing - chunk.size) := by
  rw [fill, if_neg incomplete]
  split
  case h_1 read' =>
    obtain ⟨⟨⟩, rfl⟩ := Prod.mk.inj (read.symm.trans read')
    rfl
  case h_2 read' => simp [read] at read'

theorem fill_of_read_error (incomplete : missing ≠ 0) (read : s.read missing = (.error fault, t)) :
    s.fill block missing = if fault.kind = .interrupted then t.fill block missing
      else (.error fault, t) := by
  rw [fill, if_neg incomplete]
  split
  case h_1 read' => simp [read] at read'
  case h_2 read' =>
    obtain ⟨⟨⟩, rfl⟩ := Prod.mk.inj (read.symm.trans read')
    rfl

end Fill

theorem fill_withReach (s : Source) (block : ByteArray) (missing reach : Nat) :
    (s.withReach reach).fill block missing = (s.fill block missing).map id (withReach · reach) := by
  fun_induction Source.fill s block missing with
  | case1 s block =>
    rw [fill, if_pos rfl]
    rfl
  | case2 s block missing incomplete chunk t read ended =>
    rw [fill_of_read_ok incomplete (read_withReach read reach), if_pos ended]
    rfl
  | case3 s block missing incomplete chunk t read some ih =>
    rw [fill_of_read_ok incomplete (read_withReach read reach), if_neg some]
    exact ih
  | case4 s block missing incomplete fault t read interrupted ih =>
    rw [fill_of_read_error incomplete (read_withReach read reach), if_pos interrupted]
    exact ih
  | case5 s block missing incomplete fault t read uninterrupted =>
    rw [fill_of_read_error incomplete (read_withReach read reach), if_neg uninterrupted]
    rfl

variable {bytes : ByteArray} {offset : UInt64} {location : Location}

theorem fetch_ofFile (blockSize : UInt32) (within : offset.toNat < 2 ^ 63) :
    ((ofFile bytes).fetch offset blockSize).1 = ((ofBytes bytes).fetch offset blockSize).1 := by
  have file : (ofFile bytes).seek offset
      = (.ok (), withReach ⟨bytes, offset.toNat, [], [], UInt64.size⟩ (2 ^ 63)) :=
    if_pos within
  have memory : (ofBytes bytes).seek offset
      = (.ok (), ⟨bytes, offset.toNat, [], [], UInt64.size⟩) := if_pos offset.toNat_lt
  unfold fetch
  by_cases zero : blockSize = 0
  · rw [if_pos zero, if_pos zero]
  · rw [if_neg zero, if_neg zero, file, memory]
    simp only [fill_withReach]
    cases (fill ⟨bytes, offset.toNat, [], [], UInt64.size⟩ .empty blockSize.toNat) with
    | mk result t =>
      cases result with
      | error fault => rfl
      | ok filled =>
        simp only [Prod.map, id]
        split <;> rfl

theorem fetch_ofFile_of_beyond {blockSize : UInt32} (positive : blockSize ≠ 0)
    (beyond : 2 ^ 63 ≤ offset.toNat) :
    ((ofFile bytes).fetch offset blockSize).1 = .error (.seek offset .invalidPosition) := by
  have seek : (ofFile bytes).seek offset = (.error .invalidPosition, ofFile bytes) :=
    if_neg (Nat.not_lt.mpr beyond)
  rw [fetch, if_neg positive, seek]

theorem fst_readBlock (s : Source) (location : Location) : (s.readBlock location).1
    = (s.fetch location.offset location.blockSize).1.mapError (.fetch location) := rfl

theorem fst_readNode (s : Source) (location : Location) (verify : Bool) :
    (s.readNode location verify).1
      = (s.readBlock location).1 >>= (LocatedNode.decode location · verify) := rfl

theorem readBlock_ofFile (within : location.offset.toNat < 2 ^ 63) :
    ((ofFile bytes).readBlock location).1 = ((ofBytes bytes).readBlock location).1 := by
  rw [fst_readBlock, fst_readBlock, fetch_ofFile _ within]

theorem readBlock_ofFile_of_beyond (positive : location.blockSize ≠ 0)
    (beyond : 2 ^ 63 ≤ location.offset.toNat) :
    ((ofFile bytes).readBlock location).1
      = .error (.fetch location (.seek location.offset .invalidPosition)) := by
  rw [fst_readBlock, fetch_ofFile_of_beyond positive beyond]
  rfl

end Source

end Apfs
