import Apfs.Source.Node

/-!
# Reading from a reliable source

A source in memory is reliable if its script never does worse than to cut a read short or to
interrupt it. From such a source, what is read depends on the bytes that it holds and on nothing
else: neither the position nor the rest of the script shows in the answer. A read takes one step
forward in the bytes or leaves everything as it is, and filling a block adds up these steps.
-/

namespace Apfs

/-- A read that hands out at least a byte if there is one, or one that can be made again. -/
def ReadEvent.Harmless : ReadEvent → Prop
  | limit n => 1 ≤ n
  | fail fault => fault.kind = .interrupted

instance : DecidablePred ReadEvent.Harmless
  | .limit n => inferInstanceAs (Decidable (1 ≤ n))
  | .fail fault => inferInstanceAs (Decidable (fault.kind = .interrupted))

/-- The block at an offset of a byte string. -/
def blockAt (bytes : ByteArray) (offset : UInt64) (blockSize : UInt32) : Except FetchError Block :=
  if blockSize = 0 then .error (.invalidBlockSize blockSize)
  else if offset.toNat + blockSize.toNat ≤ bytes.size then
    .ok {
      bytes := bytes.extract offset.toNat (offset.toNat + blockSize.toNat)
      size_lt := by
        have := blockSize.toNat_lt_size
        have : UInt32.size < UInt64.size := by decide
        rw [ByteArray.size_extract]
        omega }
  else .error (.short offset blockSize.toUInt64 (.ofNat (bytes.size - offset.toNat)))

/-- The block at a location of a byte string. -/
def blockIn (bytes : ByteArray) (location : Location) : Except NodeError Block :=
  (blockAt bytes location.offset location.blockSize).mapError (.fetch location)

/-- The node at a location of a byte string. -/
def nodeIn (bytes : ByteArray) (location : Location) (verify : Bool) :
    Except NodeError LocatedNode := do
  LocatedNode.decode location (← blockIn bytes location) verify

namespace Source

/-- A source in memory that holds the given bytes and is harmless to read from. -/
structure Reliable (s : Source) (bytes : ByteArray) : Prop where
  bytes : s.bytes = bytes
  reads : ∀ e ∈ s.reads, e.Harmless
  seeks : ∀ fault ∈ s.seeks, fault = none
  reach : s.reach = UInt64.size

variable {s t : Source} {bytes : ByteArray}

theorem Reliable.of_reads_cons (h : s.Reliable bytes) {e : ReadEvent} {reads : List ReadEvent}
    (script : s.reads = e :: reads) : e.Harmless ∧ { s with reads }.Reliable bytes := by
  have harmless := h.reads
  rw [script] at harmless
  obtain ⟨first, rest⟩ := List.forall_mem_cons.mp harmless
  exact ⟨first, h.bytes, rest, h.seeks, h.reach⟩

/-- The step that a read of a reliable source takes: some bytes forward, of which there are none
only at the end. -/
structure Forward (s t : Source) (bytes : ByteArray) (n : Nat) (chunk : ByteArray) : Prop where
  reliable : t.Reliable bytes
  size_le : chunk.size ≤ n
  position : t.position = s.position + chunk.size
  chunk_eq : chunk = bytes.extract s.position t.position
  ended : chunk.size = 0 → bytes.size ≤ s.position

theorem Reliable.advance (h : s.Reliable bytes) {n : Nat} (hn : 0 < n) :
    Forward s (s.advance n).2 bytes n (s.advance n).1 := by
  obtain ⟨rfl, reads, seeks, reach⟩ := h
  have size : (s.advance n).1.size = min (s.position + n) s.bytes.size - s.position :=
    ByteArray.size_extract
  constructor
  case reliable => exact ⟨rfl, reads, seeks, reach⟩
  case size_le => exact size_advance_le s n
  case position => rfl
  case chunk_eq =>
    show s.bytes.extract s.position (s.position + n)
      = s.bytes.extract s.position (s.position + (s.advance n).1.size)
    rw [size]
    ext1
    simp only [ByteArray.data_extract, Array.extract_eq_extract_right, ByteArray.size_data]
    omega
  case ended => omega

theorem Reliable.read_eq_ok (h : s.Reliable bytes) {n : Nat} {chunk : ByteArray} (hn : 0 < n)
    (read : s.read n = (.ok chunk, t)) : Forward s t bytes n chunk := by
  unfold Source.read at read
  split at read
  case h_1 =>
    simp only [Prod.map, Prod.mk.injEq, Except.ok.injEq, id] at read
    obtain ⟨rfl, rfl⟩ := read
    exact h.advance hn
  case h_2 m reads script =>
    obtain ⟨harmless, rest⟩ := h.of_reads_cons script
    simp only [Prod.map, Prod.mk.injEq, Except.ok.injEq, id] at read
    obtain ⟨rfl, rfl⟩ := read
    have limit : 0 < min m n := Nat.lt_min.mpr ⟨harmless, hn⟩
    obtain ⟨reliable, size_le, position, chunk_eq, ended⟩ := rest.advance limit
    exact ⟨reliable, Nat.le_trans size_le (Nat.min_le_right m n), position, chunk_eq, ended⟩
  case h_3 => simp at read

theorem Reliable.read_eq_error (h : s.Reliable bytes) {n : Nat} {fault : Fault}
    (read : s.read n = (.error fault, t)) :
    fault.kind = .interrupted ∧ t.Reliable bytes ∧ t.position = s.position := by
  unfold Source.read at read
  split at read
  case h_1 | h_2 => simp [Prod.map] at read
  case h_3 script =>
    obtain ⟨kind, rest⟩ := h.of_reads_cons script
    obtain ⟨rfl, rfl⟩ : _ = fault ∧ _ = t := by simpa using read
    exact ⟨kind, rest, rfl⟩

/-- A step forward and the bytes behind it make up all the bytes that were asked for. -/
theorem Forward.append_extract {n : Nat} {chunk : ByteArray} (h : Forward s t bytes n chunk) :
    chunk ++ bytes.extract t.position (t.position + (n - chunk.size))
      = bytes.extract s.position (s.position + n) := by
  have size_le := h.size_le
  have position := h.position
  have stop : t.position + (n - chunk.size) = s.position + n := by omega
  have split := ByteArray.extract_eq_extract_append_extract (a := bytes) t.position
    (i := s.position) (k := s.position + n) (by omega) (by omega)
  rw [stop, split, ← h.chunk_eq]

/-- However the script cuts up the reads, filling a block adds the bytes from the position on. -/
theorem Reliable.fill (h : s.Reliable bytes) (block : ByteArray) (missing : Nat) :
    ∃ t, s.fill block missing
        = (.ok (block ++ bytes.extract s.position (s.position + missing)), t) ∧
      t.Reliable bytes := by
  fun_induction Source.fill s block missing with
  | case1 s block => exact ⟨s, by simp, h⟩
  | case2 s block missing incomplete chunk t read empty =>
    have step := h.read_eq_ok (by omega) read
    have ended := step.ended empty
    have nothing : bytes.extract s.position (s.position + missing) = .empty :=
      ByteArray.extract_eq_empty_iff.mpr (by omega)
    exact ⟨t, by rw [nothing, ByteArray.append_empty], step.reliable⟩
  | case3 s block missing incomplete chunk t read some ih =>
    have step := h.read_eq_ok (by omega) read
    obtain ⟨u, filled, reliable⟩ := ih step.reliable
    rw [ByteArray.append_assoc, step.append_extract] at filled
    exact ⟨u, filled, reliable⟩
  | case4 s block missing incomplete fault t read interrupted ih =>
    obtain ⟨-, reliable, position⟩ := h.read_eq_error read
    rw [← position]
    exact ih reliable
  | case5 s block missing incomplete fault t read uninterrupted =>
    obtain ⟨interrupted, -, -⟩ := h.read_eq_error read
    exact absurd interrupted uninterrupted

theorem Reliable.seek (h : s.Reliable bytes) (offset : UInt64) :
    ∃ t, s.seek offset = (.ok (), t) ∧ t.position = offset.toNat ∧ t.Reliable bytes := by
  obtain ⟨rfl, reads, seeks, reach⟩ := h
  have within : offset.toNat < s.reach := reach ▸ offset.toNat_lt_size
  unfold Source.seek
  split
  case h_1 script =>
    refine ⟨{ s with position := offset.toNat }, ?_, rfl, rfl, reads, seeks, reach⟩
    rw [moveTo, if_pos within]
  case h_2 rest script =>
    rw [script] at seeks
    refine ⟨{ s with seeks := rest, position := offset.toNat }, ?_, rfl, rfl, reads, ?_, reach⟩
    · rw [moveTo, if_pos within]
    · exact (List.forall_mem_cons.mp seeks).2
  case h_3 fault rest script =>
    rw [script] at seeks
    exact absurd (List.forall_mem_cons.mp seeks).1 (by simp)

/-- Fetching a block gives the one in the bytes. -/
theorem Reliable.fetch (h : s.Reliable bytes) (offset : UInt64) (blockSize : UInt32) :
    ∃ t, s.fetch offset blockSize = (blockAt bytes offset blockSize, t) ∧ t.Reliable bytes := by
  unfold Source.fetch blockAt
  by_cases zero : blockSize = 0
  · rw [if_pos zero, if_pos zero]
    exact ⟨s, rfl, h⟩
  obtain ⟨t, seek, position, reliable⟩ := h.seek offset
  obtain ⟨u, fill, reliable⟩ := reliable.fill .empty blockSize.toNat
  rw [if_neg zero, if_neg zero, seek]
  rw [position, ByteArray.empty_append] at fill
  simp only [fill]
  have size := ByteArray.size_extract (a := bytes) (b := offset.toNat)
    (e := offset.toNat + blockSize.toNat)
  have positive : blockSize.toNat ≠ 0 := fun h => zero (UInt32.toNat_inj.mp h)
  by_cases inside : offset.toNat + blockSize.toNat ≤ bytes.size
  · rw [if_pos inside, dif_pos (by omega)]
    exact ⟨u, rfl, reliable⟩
  · have short : (bytes.extract offset.toNat (offset.toNat + blockSize.toNat)).size
        = bytes.size - offset.toNat := by omega
    rw [if_neg inside, dif_neg (by omega), short]
    exact ⟨u, rfl, reliable⟩

theorem Reliable.readBlock (h : s.Reliable bytes) (location : Location) :
    ∃ t, s.readBlock location = (blockIn bytes location, t) ∧ t.Reliable bytes := by
  obtain ⟨t, fetch, reliable⟩ := h.fetch location.offset location.blockSize
  refine ⟨t, ?_, reliable⟩
  rw [Source.readBlock, fetch]
  rfl

theorem Reliable.readNode (h : s.Reliable bytes) (location : Location) (verify : Bool) :
    ∃ t, s.readNode location verify = (nodeIn bytes location verify, t) ∧ t.Reliable bytes := by
  obtain ⟨t, readBlock, reliable⟩ := h.readBlock location
  refine ⟨t, ?_, reliable⟩
  rw [Source.readNode, readBlock]
  rfl

end Source

end Apfs
