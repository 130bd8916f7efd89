import Apfs.Proofs.Location
import Apfs.Proofs.Node.Geometry
import Apfs.Proofs.Node.Records
import Apfs.Report

/-!
# The views of a node

A node shows its entries in several ways: the key or the value at an index, all of them in turn,
and as copies. A look at an index asks whether the bytes are there, whereas a walk relies on it.
In a node that was decoded from a block both come to the same bytes, and the walk never reaches
for one that is not there. So a report of the node has each of its entries with its own bytes.
-/

namespace Apfs

/-- The bytes are those of a span that lies inside the block. -/
structure Block.Holds (b : Block) (s : Span) (bytes : ByteArray) : Prop where
  inside : s.start.toNat + s.length.toNat ≤ b.bytes.size
  bytes : bytes.data.toList = b.slice s.start.toNat s.length.toNat

namespace Node

/-- All that a node shows of its entries is what the block holds in their spans. -/
structure Coherent (n : Node) (b : Block) (walked : List (ByteArray × ByteArray)) : Prop where
  key (i : Nat) : (n.key? i).isSome ↔ i < n.length
  value (i : Nat) : (n.value? i).isSome ↔ i < n.length
  walk : n.walk? = some walked
  walked_length : walked.length = n.length
  records_length : n.records.length = n.length
  entry (i : Nat) (e : Entry) : n.entries[i]? = some e → ∃ key value,
    n.key? i = some key ∧ n.value? i = some value ∧ walked[i]? = some (key, value) ∧
      n.records[i]? = some ⟨key, value⟩ ∧ b.Holds e.key key ∧ b.Holds e.value value
  isEmpty : n.isEmpty ↔ n.footer.numberOfEntries = 0

end Node

/-- A located node has each entry of its block with the bytes that the block holds for it. -/
structure LocatedNode.Complete (m : LocatedNode) (location : Location) (b : Block) : Prop where
  location : m.location = location
  entries : m.entries.length = m.footer.numberOfEntries.toNat
  records : m.records.length = m.entries.length
  record (i : Nat) (e : Entry) (r : KeyValue) : m.entries[i]? = some e → m.records[i]? = some r →
    b.Holds e.key r.key ∧ b.Holds e.value r.value
  report (hexdump : Bool) : Report.entriesLines hexdump 0 (m.entries.zip m.records)
    = m.entries.zipIdx.flatMap fun (e, i) =>
        Report.entryLines hexdump i e (Node.recordAt b e.numbers)

variable {b : Block} {s : Span}

/-! ## Bytes of a span -/

theorem Block.holds_slice (inside : s.stop ≤ b.size) :
    b.Holds s (b.slice s.start.toNat s.length.toNat).toByteArray where
  inside := by simpa [UInt64.le_iff_toNat_le] using inside
  bytes := by simp

theorem Block.extract?_eq_slice (inside : s.stop ≤ b.size) :
    s.extract? b.bytes = some (b.slice s.start.toNat s.length.toNat).toByteArray := by
  rw [extract?_eq_cut inside, cut_eq_slice]

/-- The sum of start and length is a machine word, and so the one that the span ends with. -/
theorem Span.checkedAdd?_eq_stop (s : Span) : checkedAdd? s.start s.length = some s.stop := by
  have fits : s.start.toNat + s.length.toNat < 2 ^ 64 := s.fits
  rw [checkedAdd?_eq, if_pos fits, ← toNat_stop, UInt64.ofNat_toNat]

theorem Block.take?_eq_slice (inside : s.stop ≤ b.size) :
    b.take? s = some (b.slice s.start.toNat s.length.toNat).toByteArray := by
  have ordered : s.start ≤ s.stop := by simp [UInt64.le_iff_toNat_le]
  have answer : b.between? s.start s.stop = some (b.cut s inside) := if_pos ⟨ordered, inside⟩
  rw [take?, Span.checkedAdd?_eq_stop, Option.bind_eq_bind, Option.bind_some, answer, cut_eq_slice]

/-! ## Views of one node -/

namespace Node

variable {n : Node}

/-- The key and the value at the given numbers, as a walk hands them out. -/
def pairAt (b : Block) (numbers : (Nat × Nat) × (Nat × Nat)) : ByteArray × ByteArray :=
  ((recordAt b numbers).key, (recordAt b numbers).value)

theorem key?_eq (n : Node) (i : Nat) :
    n.key? i = n.entries[i]?.map fun e => (recordAt n.block e.numbers).key := by
  cases found : n.entries[i]? with
  | none => simp [key?, found]
  | some e =>
    have fits := n.fits e (List.mem_of_getElem? found)
    rw [key?, found, Option.bind_some, Block.extract?_eq_slice fits.1]
    rfl

theorem value?_eq (n : Node) (i : Nat) :
    n.value? i = n.entries[i]?.map fun e => (recordAt n.block e.numbers).value := by
  cases found : n.entries[i]? with
  | none => simp [value?, found]
  | some e =>
    have fits := n.fits e (List.mem_of_getElem? found)
    rw [value?, found, Option.bind_some, Block.extract?_eq_slice fits.2]
    rfl

theorem take?_pair {e : Entry} (fits : e.Fits b.size) :
    (do return (← b.take? e.key, ← b.take? e.value)) = some (pairAt b e.numbers) := by
  rw [Block.take?_eq_slice fits.1, Block.take?_eq_slice fits.2]
  rfl

/-- A walk over entries that fit comes to its end. -/
theorem walk_entries (es : List Entry) (fits : ∀ e ∈ es, e.Fits b.size) :
    (es.mapM fun e => do return (← b.take? e.key, ← b.take? e.value))
      = some (es.map fun e => pairAt b e.numbers) := by
  induction es with
  | nil => rfl
  | cons e es ih =>
    have first := take?_pair (fits e (List.mem_cons_self ..))
    have rest := ih fun d hd => fits d (List.mem_cons_of_mem e hd)
    rw [List.mapM_cons, first, rest]
    rfl

theorem walk?_eq (n : Node) : n.walk? = some (n.entries.map fun e => pairAt n.block e.numbers) :=
  walk_entries n.entries n.fits

theorem holds_recordAt {e : Entry} (fits : e.Fits b.size) :
    b.Holds e.key (recordAt b e.numbers).key ∧ b.Holds e.value (recordAt b e.numbers).value :=
  ⟨Block.holds_slice fits.1, Block.holds_slice fits.2⟩

theorem records_of_decode (decoded : decode b = .ok n) :
    n.records = n.entries.map fun e => recordAt b e.numbers := by
  rw [records_eq_map, List.map_map, (standsIn_of_decode decoded).block]
  rfl

theorem exists_coherent (decoded : decode b = .ok n) : ∃ walked, n.Coherent b walked := by
  have count := (wellPlaced_of_decode decoded).count
  obtain rfl := (standsIn_of_decode decoded).block
  refine ⟨n.entries.map fun e => pairAt n.block e.numbers, ?_⟩
  constructor
  case key =>
    intro i
    simp [key?_eq, Node.length]
  case value =>
    intro i
    simp [value?_eq, Node.length]
  case walk => exact n.walk?_eq
  case walked_length => simp [Node.length]
  case records_length => simp [records_eq_map, Node.length]
  case entry =>
    intro i e entry
    have fits := n.fits e (List.mem_of_getElem? entry)
    refine ⟨_, _, ?_, ?_, ?_, ?_, holds_recordAt fits⟩
    · simp [key?_eq, entry]
    · simp [value?_eq, entry]
    · simp [entry, pairAt]
    · simp [records_eq_map, entry]
  case isEmpty =>
    have empty : n.isEmpty ↔ n.entries.length = 0 := by
      simp [isEmpty, List.length_eq_zero_iff]
    rw [empty, count, ← UInt64.toNat_inj]
    rfl

end Node

/-! ## Located nodes -/

/-- Entries that are paired with their own bytes are reported one after the other. -/
theorem Report.entriesLines_eq_flatMap (hexdump : Bool) (index : Nat) (es : List Entry)
    (bytes : Entry → KeyValue) :
    entriesLines hexdump index (es.zip (es.map bytes))
      = (es.zipIdx index).flatMap fun (e, i) => entryLines hexdump i e (bytes e) := by
  induction es generalizing index with
  | nil => rfl
  | cons e es ih => simp [entriesLines, ih]

theorem LocatedNode.complete_of_decode {location : Location} {verify : Bool} {m : LocatedNode}
    (decoded : decode location b verify = .ok m) : m.Complete location b := by
  obtain ⟨n, parsed, rfl⟩ := exists_of_decode decoded
  have same := (Node.standsIn_of_decode parsed).block
  have records := Node.records_of_decode parsed
  constructor
  case location => rfl
  case entries => exact (Node.wellPlaced_of_decode parsed).count
  case records => exact length_records decoded
  case record =>
    intro i e r entry record
    have fits := n.fits e (List.mem_of_getElem? entry)
    have bytes : (ofNode location n).records[i]? = some (Node.recordAt b e.numbers) := by
      rw [ofNode, records, List.getElem?_map]
      exact congrArg _ entry
    obtain rfl := Option.some.inj (bytes.symm.trans record)
    exact Node.holds_recordAt (same ▸ fits)
  case report =>
    intro hexdump
    show Report.entriesLines hexdump 0 (n.entries.zip n.records) = _
    rw [records, Report.entriesLines_eq_flatMap]
    rfl

/-- Whatever a node shows of its entries agrees, reaches for no byte that is not there, and is all
of what the block holds for them. Nothing of it gets lost in a located node or in its report. -/
theorem Node.decode_coherent (b : Block) :
    (∀ n, decode b = .ok n →
      (∃ walked, n.Coherent b walked) ∧ decodeEntries b = .ok n.entries) ∧
    ∀ location verify m, LocatedNode.decode location b verify = .ok m → m.Complete location b := by
  refine ⟨?_, fun location verify m decoded => LocatedNode.complete_of_decode decoded⟩
  intro n decoded
  refine ⟨exists_coherent decoded, ?_⟩
  rw [decodeEntries_eq_map, decoded]
  rfl

/-- A node whose one entry has an empty key at the very end of the block and the whole block as
its value. -/
def Node.widestEntry : Block where
  bytes := ⟨#[0, 0, 0, 0, 0, 0, 0, 0, 7, 0, 0, 0, 0, 0, 0, 0, 0, 0, 0, 0, 0, 0, 0, 0,
    2, 0, 0, 0, 14, 0, 0, 0, 3, 0, 0, 0, 8, 0, 0, 0, 2, 0, 255, 255, 0, 0, 255, 255, 0, 0,
    42, 0, 0, 0, 60, 0, 100, 0, 0, 0,
    0, 0, 0, 0, 0, 16, 0, 0, 0, 0, 0, 0, 0, 0, 0, 0, 1, 0, 0, 0, 1, 0, 0, 0,
    1, 0, 0, 0, 0, 0, 0, 0, 1, 0, 0, 0, 0, 0, 0, 0]⟩
  size_lt := by decide

theorem Node.decode_coherent_widestEntry :
    ∃ n walked, decode widestEntry = .ok n ∧ n.Coherent widestEntry walked ∧
      n.entries = [⟨⟨100, 0, by decide⟩, ⟨0, 100, by decide⟩⟩] := by
  have accepted : ∃ n, decode widestEntry = .ok n ∧
      n.entries = [⟨⟨100, 0, by decide⟩, ⟨0, 100, by decide⟩⟩] := ⟨_, rfl, rfl⟩
  obtain ⟨n, decoded, entries⟩ := accepted
  obtain ⟨walked, coherent⟩ := ((decode_coherent widestEntry).1 n decoded).1
  exact ⟨n, walked, decoded, coherent, entries⟩

end Apfs
