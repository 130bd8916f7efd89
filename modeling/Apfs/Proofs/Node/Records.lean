import Apfs.LocatedNode
import Apfs.Proofs.Node.Checks
import Apfs.Proofs.Result

/-!
# The bytes of entries

The bytes of the entries of a node are slices of its block, at the numbers of the entries.
-/

namespace Apfs

theorem Block.cut_eq_slice (b : Block) {s : Span} (inside : s.stop ≤ b.size) :
    b.cut s inside = (b.slice s.start.toNat s.length.toNat).toByteArray := by
  apply ByteArray.ext
  apply Array.toList_inj.mp
  simp [Block.cut, Block.slice, Block.toList, List.extract_eq_take_drop]

namespace Node

/-- The bytes of an entry at the given numbers. -/
def recordAt (b : Block) (numbers : (Nat × Nat) × (Nat × Nat)) : KeyValue where
  key := (b.slice numbers.1.1 numbers.1.2).toByteArray
  value := (b.slice numbers.2.1 numbers.2.2).toByteArray

theorem record_eq_recordAt {b : Block} {e : Entry} (h : e.Fits b.size) :
    record b e h = recordAt b e.numbers := by
  rw [record, recordAt, Block.cut_eq_slice, Block.cut_eq_slice]
  rfl

theorem records_eq_map (n : Node) :
    n.records = (n.entries.map Entry.numbers).map (recordAt n.block) := by
  rw [records, List.map_map, ← List.pmap_eq_map (H := n.fits)]
  exact List.pmap_congr_left _ fun e _ h _ => record_eq_recordAt h

end Node

theorem LocatedNode.exists_of_decode {location : Location} {b : Block} {verify : Bool}
    {n : LocatedNode} (decoded : decode location b verify = .ok n) :
    ∃ node, Node.decode b = .ok node ∧ n = ofNode location node := by
  have parsed : (Node.decode b >>= fun node => .ok (ofNode location node)) = .ok n := by
    cases verify with
    | false => exact mapError_eq_ok.mp decoded
    | true =>
      obtain ⟨_, _, parsed⟩ := bind_eq_ok.mp (mapError_eq_ok.mp decoded)
      exact parsed
  obtain ⟨node, found, same⟩ := bind_eq_ok.mp parsed
  exact ⟨node, found, (Except.ok.inj same).symm⟩

/-- A located node has the bytes of each of its entries. -/
theorem LocatedNode.length_records {location : Location} {b : Block} {verify : Bool}
    {n : LocatedNode} (decoded : decode location b verify = .ok n) :
    n.records.length = n.entries.length := by
  obtain ⟨node, -, rfl⟩ := exists_of_decode decoded
  exact List.length_pmap

end Apfs
