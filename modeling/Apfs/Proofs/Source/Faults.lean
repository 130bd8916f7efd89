import Mathlib.Algebra.BigOperators.Group.Finset.Basic
import Apfs.Proofs.Source.File

/-!
# Fetching under faults

However a source is scripted, fetching a block comes to an end. Each read adds what its place in
the script lets it, and the reads go on as long as the block is incomplete and the last read was
interrupted or handed out at least a byte. The first read that does neither decides the result,
unless the block is complete before. Nothing behind the deciding read is taken from the script.
-/

namespace Apfs

/-- The number of bytes that a read hands out at most. -/
def ReadEvent.room : ReadEvent → Nat
  | limit n => n
  | fail _ => 0

namespace Source

/-- The number of bytes that a read of `wanted` bytes hands out at most, where the reads are counted
from zero and those behind the script are not limited. -/
def roomAt (s : Source) (wanted i : Nat) : Nat := (s.reads[i]?.map ReadEvent.room).getD wanted

/-- The number of bytes that the first `n` reads hand out in all, of `wanted` ones. -/
def obtained (s : Source) (wanted n : Nat) : Nat :=
  min (min wanted (s.bytes.size - s.position)) (∑ i ∈ Finset.range n, s.roomAt wanted i)

/-- The source after the first `n` reads. -/
def after (s : Source) (wanted n : Nat) : Source :=
  { s with position := s.position + s.obtained wanted n, reads := s.reads.drop n }

/-- A read that is interrupted or hands out at least a byte, after which it goes on. -/
def GoesOn (s : Source) (wanted i : Nat) : Prop :=
  (∃ fault, s.reads[i]? = some (.fail fault) ∧ fault.kind = .interrupted) ∨
    s.obtained wanted i < s.obtained wanted (i + 1)

/-- None of the first `n` reads completes the block or decides the result otherwise. -/
def Undecided (s : Source) (wanted n : Nat) : Prop :=
  ∀ i < n, s.obtained wanted i < wanted ∧ s.GoesOn wanted i

variable {s : Source} {wanted n : Nat} {fault : Fault}

theorem obtained_zero (s : Source) (wanted : Nat) : s.obtained wanted 0 = 0 := by
  simp [obtained]

theorem obtained_le (s : Source) (wanted n : Nat) : s.obtained wanted n ≤ wanted := by
  unfold obtained
  omega

theorem obtained_le_rest (s : Source) (wanted n : Nat) :
    s.obtained wanted n ≤ s.bytes.size - s.position := by
  unfold obtained
  omega

theorem obtained_succ (s : Source) (wanted n : Nat) :
    s.obtained wanted (n + 1) = min (min wanted (s.bytes.size - s.position))
      (s.obtained wanted n + s.roomAt wanted n) := by
  rw [obtained, obtained, Finset.sum_range_succ]
  omega

theorem obtained_mono (s : Source) (wanted n : Nat) :
    s.obtained wanted n ≤ s.obtained wanted (n + 1) := by
  have cap := obtained_le_rest s wanted n
  have le := obtained_le s wanted n
  rw [obtained_succ]
  omega

theorem after_zero (s : Source) (wanted : Nat) : s.after wanted 0 = s := by
  rw [after, obtained_zero]
  rfl

theorem reads_after_cons {e : ReadEvent} (event : s.reads[n]? = some e) :
    (s.after wanted n).reads = e :: (s.after wanted (n + 1)).reads := by
  obtain ⟨within, rfl⟩ := List.getElem?_eq_some_iff.mp event
  exact List.drop_eq_getElem_cons within

theorem obtained_succ_of_fail (failed : s.reads[n]? = some (.fail fault)) :
    s.obtained wanted (n + 1) = s.obtained wanted n := by
  rw [obtained_succ, roomAt, failed]
  simp only [obtained, ReadEvent.room, Option.map_some, Option.getD_some]
  omega

/-! ## One read -/

/-- Advancing hands out what is there of the bytes asked for. -/
theorem advance_eq (s : Source) {n k : Nat} (there : k = min n (s.bytes.size - s.position)) :
    s.advance n = (s.bytes.extract s.position (s.position + k),
      { s with position := s.position + k }) := by
  have chunk : s.bytes.extract s.position (s.position + n)
      = s.bytes.extract s.position (s.position + k) := by
    ext1
    simp only [ByteArray.data_extract, Array.extract_eq_extract_right, ByteArray.size_data]
    omega
  have size : (s.bytes.extract s.position (s.position + k)).size = k := by
    rw [ByteArray.size_extract]
    omega
  simp only [advance, chunk, size]

/-- A read that does not fail advances by what its place in the script lets it. -/
theorem read_eq_advance (handing : ∀ fault, s.reads[0]? ≠ some (.fail fault)) {missing : Nat}
    (le : missing ≤ wanted) :
    s.read missing = ({ s with reads := s.reads.drop 1 }.advance
      (min (s.roomAt wanted 0) missing)).map .ok id := by
  obtain ⟨bytes, position, reads, seeks, reach⟩ := s
  match reads with
  | [] => simp [read, roomAt, Nat.min_eq_right le]
  | .limit n :: reads => simp [read, roomAt, ReadEvent.room]
  | .fail fault :: reads => simp at handing

theorem read_after_of_fail (failed : s.reads[n]? = some (.fail fault)) (missing : Nat) :
    (s.after wanted n).read missing = (.error fault, s.after wanted (n + 1)) := by
  rw [read, reads_after_cons failed]
  simp [after, obtained_succ_of_fail failed]

theorem read_after (incomplete : s.obtained wanted n < wanted)
    (handing : ∀ fault, s.reads[n]? ≠ some (.fail fault)) :
    (s.after wanted n).read (wanted - s.obtained wanted n)
      = (.ok (s.bytes.extract (s.position + s.obtained wanted n)
          (s.position + s.obtained wanted (n + 1))), s.after wanted (n + 1)) := by
  have next := obtained_succ s wanted n
  have cap := obtained_le_rest s wanted n
  have first : (s.after wanted n).reads[0]? = s.reads[n]? := by simp [after]
  have room : (s.after wanted n).roomAt wanted 0 = s.roomAt wanted n := by
    rw [roomAt, roomAt, first]
  have position : s.position + s.obtained wanted (n + 1)
      = s.position + s.obtained wanted n
        + (s.obtained wanted (n + 1) - s.obtained wanted n) := by omega
  rw [read_eq_advance (first ▸ handing) (Nat.sub_le ..), room,
    advance_eq (k := s.obtained wanted (n + 1) - s.obtained wanted n)]
  · simp [after, ← position]
  · show _ = min _ (s.bytes.size - (s.position + s.obtained wanted n))
    omega

theorem size_handed (s : Source) (wanted n : Nat) :
    (s.bytes.extract (s.position + s.obtained wanted n)
      (s.position + s.obtained wanted (n + 1))).size
      = s.obtained wanted (n + 1) - s.obtained wanted n := by
  have cap := obtained_le_rest s wanted (n + 1)
  rw [ByteArray.size_extract]
  omega

theorem size_obtained (s : Source) (wanted n : Nat) :
    (s.bytes.extract s.position (s.position + s.obtained wanted n)).size
      = s.obtained wanted n := by
  have cap := obtained_le_rest s wanted n
  rw [ByteArray.size_extract]
  omega

theorem extract_append_handed (s : Source) (wanted n : Nat) :
    s.bytes.extract s.position (s.position + s.obtained wanted n)
        ++ s.bytes.extract (s.position + s.obtained wanted n)
          (s.position + s.obtained wanted (n + 1))
      = s.bytes.extract s.position (s.position + s.obtained wanted (n + 1)) := by
  have mono := obtained_mono s wanted n
  exact (ByteArray.extract_eq_extract_append_extract _ (by omega) (by omega)).symm

/-! ## The loop -/

theorem fill_zero (s : Source) (block : ByteArray) : s.fill block 0 = (.ok block, s) := by
  rw [fill, if_pos rfl]

/-- Reads that decide nothing only add what they hand out. -/
theorem fill_eq_of_undecided (undecided : s.Undecided wanted n) :
    s.fill .empty wanted = (s.after wanted n).fill
      (s.bytes.extract s.position (s.position + s.obtained wanted n))
      (wanted - s.obtained wanted n) := by
  induction n with
  | zero => simp [obtained_zero, after_zero]
  | succ n ih =>
    obtain ⟨incomplete, goesOn⟩ := undecided n (Nat.lt_succ_self n)
    have missing : wanted - s.obtained wanted n ≠ 0 := by omega
    rw [ih fun i hi => undecided i (Nat.lt_succ_of_lt hi)]
    by_cases failed : ∃ fault, s.reads[n]? = some (.fail fault)
    · obtain ⟨fault, event⟩ := failed
      have same : s.obtained wanted (n + 1) = s.obtained wanted n := obtained_succ_of_fail event
      have interrupted : fault.kind = .interrupted := by
        rcases goesOn with ⟨fault', event', kind⟩ | more
        · grind
        · omega
      rw [fill_of_read_error missing (read_after_of_fail event _), if_pos interrupted, same]
    · have handing : ∀ fault, s.reads[n]? ≠ some (.fail fault) := by grind
      have more : s.obtained wanted n < s.obtained wanted (n + 1) := by
        rcases goesOn with ⟨fault, event, -⟩ | more
        · exact absurd event (handing fault)
        · exact more
      have rest : wanted - s.obtained wanted n
          - (s.obtained wanted (n + 1) - s.obtained wanted n)
          = wanted - s.obtained wanted (n + 1) := by omega
      rw [fill_of_read_ok missing (read_after incomplete handing), size_handed, if_neg (by omega),
        extract_append_handed, rest]

/-- How the reads for a block at an offset end, and after how many. -/
inductive Ends (s : Source) (offset : UInt64) (blockSize : UInt32) :
    Except FetchError Block → Nat → Prop
  /-- The block is complete, and no further read is made. -/
  | complete {n : Nat} {b : Block} :
    s.Undecided blockSize.toNat n → s.obtained blockSize.toNat n = blockSize.toNat →
    b.bytes = s.bytes.extract s.position (s.position + blockSize.toNat) →
    Ends s offset blockSize (.ok b) n
  /-- A read hands out nothing. -/
  | short {n : Nat} :
    s.Undecided blockSize.toNat n → s.obtained blockSize.toNat n < blockSize.toNat →
    (∀ fault, s.reads[n]? ≠ some (.fail fault)) →
    s.obtained blockSize.toNat (n + 1) = s.obtained blockSize.toNat n →
    Ends s offset blockSize
      (.error (.short offset blockSize.toUInt64 (.ofNat (s.obtained blockSize.toNat n)))) (n + 1)
  /-- A read fails without being interrupted. -/
  | failed {n : Nat} {fault : Fault} :
    s.Undecided blockSize.toNat n → s.obtained blockSize.toNat n < blockSize.toNat →
    s.reads[n]? = some (.fail fault) → fault.kind ≠ .interrupted →
    Ends s offset blockSize (.error (.read offset fault)) (n + 1)

/-- Behind the script, the first read hands out all that there is, and none after it goes on. -/
theorem not_undecided (s : Source) (wanted : Nat) :
    ¬ s.Undecided wanted (s.reads.length + 2) := by
  intro undecided
  obtain ⟨-, goesOn⟩ := undecided (s.reads.length + 1) (by omega)
  have unlimited := obtained_succ s wanted s.reads.length
  have next := obtained_succ s wanted (s.reads.length + 1)
  rcases goesOn with ⟨fault, event, -⟩ | more
  · simp at event
  · simp only [roomAt, List.getElem?_length, Option.map_none, Option.getD_none] at unlimited
    omega

theorem exists_decided (s : Source) (wanted : Nat) :
    ∃ n < s.reads.length + 2, s.Undecided wanted n ∧
      (s.obtained wanted n < wanted → ¬ s.GoesOn wanted n) := by
  have search (m : Nat) : s.Undecided wanted m ∨ ∃ n < m, s.Undecided wanted n ∧
      (s.obtained wanted n < wanted → ¬ s.GoesOn wanted n) := by
    induction m with
    | zero => exact .inl fun i hi => absurd hi (Nat.not_lt_zero i)
    | succ m ih =>
      rcases ih with undecided | ⟨n, hn, decided⟩
      · by_cases goesOn : s.obtained wanted m < wanted ∧ s.GoesOn wanted m
        · refine .inl fun i hi => ?_
          rcases Nat.lt_succ_iff_lt_or_eq.mp hi with before | rfl
          · exact undecided i before
          · exact goesOn
        · exact .inr ⟨m, Nat.lt_succ_self m, undecided, not_and.mp goesOn⟩
      · exact .inr ⟨n, Nat.lt_succ_of_lt hn, decided⟩
  exact (search _).resolve_left (not_undecided s wanted)

/-- The fault that seeking an offset meets, which is scripted unless the offset is out of reach. -/
def seekFault? (s : Source) (offset : UInt64) : Option Fault :=
  match s.seeks.head? with
  | some (some fault) => some fault
  | _ => if offset.toNat < s.reach then none else some .invalidPosition

/-- The source after a seek that meets no fault. -/
def sought (s : Source) (offset : UInt64) : Source :=
  { s with position := offset.toNat, seeks := s.seeks.drop 1 }

theorem seek_eq (s : Source) (offset : UInt64) :
    s.seek offset = match s.seekFault? offset with
      | some fault => (.error fault, { s with seeks := s.seeks.drop 1 })
      | none => (.ok (), s.sought offset) := by
  obtain ⟨bytes, position, reads, seeks, reach⟩ := s
  match seeks with
  | [] | none :: seeks =>
    by_cases within : offset.toNat < reach <;> simp [seek, moveTo, seekFault?, sought, within]
  | some fault :: seeks => rfl

section Fetch

variable {t : Source} {offset : UInt64} {blockSize : UInt32} {bytes : ByteArray}
  (positive : blockSize ≠ 0) (found : s.seekFault? offset = none)

include positive found

theorem fetch_of_fill_error
    (filled : (s.sought offset).fill .empty blockSize.toNat = (.error fault, t)) :
    s.fetch offset blockSize = (.error (.read offset fault), t) := by
  have seek := seek_eq s offset
  rw [found] at seek
  simp only [fetch, if_neg positive, seek, filled]

theorem fetch_of_fill_incomplete
    (filled : (s.sought offset).fill .empty blockSize.toNat = (.ok bytes, t))
    (incomplete : bytes.size ≠ blockSize.toNat) :
    s.fetch offset blockSize
      = (.error (.short offset blockSize.toUInt64 (.ofNat bytes.size)), t) := by
  have seek := seek_eq s offset
  rw [found] at seek
  simp only [fetch, if_neg positive, seek, filled, dif_neg incomplete]

theorem fetch_of_fill_complete
    (filled : (s.sought offset).fill .empty blockSize.toNat = (.ok bytes, t))
    (complete : bytes.size = blockSize.toNat) :
    ∃ b : Block, b.bytes = bytes ∧ s.fetch offset blockSize = (.ok b, t) := by
  have seek := seek_eq s offset
  rw [found] at seek
  simp only [fetch, if_neg positive, seek, filled, dif_pos complete]
  exact ⟨_, rfl, rfl⟩

/-- The first read that decides ends the reads. -/
theorem fetch_ends : ∃ n ≤ s.reads.length + 2,
    (s.sought offset).Ends offset blockSize (s.fetch offset blockSize).1 n ∧
      (s.fetch offset blockSize).2 = (s.sought offset).after blockSize.toNat n := by
  obtain ⟨n, hn, undecided, decided⟩ := exists_decided (s.sought offset) blockSize.toNat
  have hn : n < s.reads.length + 2 := hn
  have filled := fill_eq_of_undecided undecided
  have size := size_obtained (s.sought offset) blockSize.toNat n
  have le := obtained_le (s.sought offset) blockSize.toNat n
  by_cases complete : (s.sought offset).obtained blockSize.toNat n = blockSize.toNat
  · rw [complete, Nat.sub_self, fill_zero] at filled
    rw [complete] at size
    obtain ⟨b, bytes, fetched⟩ := fetch_of_fill_complete positive found filled size
    rw [fetched]
    exact ⟨n, by omega, .complete undecided complete bytes, rfl⟩
  have incomplete : (s.sought offset).obtained blockSize.toNat n < blockSize.toNat := by omega
  have stops := decided incomplete
  have missing : blockSize.toNat - (s.sought offset).obtained blockSize.toNat n ≠ 0 := by omega
  by_cases fails : ∃ fault, (s.sought offset).reads[n]? = some (.fail fault)
  · obtain ⟨fault, event⟩ := fails
    have kind : fault.kind ≠ .interrupted := fun kind => stops (.inl ⟨fault, event, kind⟩)
    rw [fill_of_read_error missing (read_after_of_fail event _), if_neg kind] at filled
    rw [fetch_of_fill_error positive found filled]
    exact ⟨n + 1, by omega, .failed undecided incomplete event kind, rfl⟩
  · have handing : ∀ fault, (s.sought offset).reads[n]? ≠ some (.fail fault) := by grind
    have mono := obtained_mono (s.sought offset) blockSize.toNat n
    have nothing : (s.sought offset).obtained blockSize.toNat (n + 1)
        = (s.sought offset).obtained blockSize.toNat n :=
      Nat.le_antisymm (Nat.le_of_not_lt fun more => stops (.inr more)) mono
    rw [fill_of_read_ok missing (read_after incomplete handing), size_handed, nothing,
      Nat.sub_self, if_pos rfl] at filled
    rw [fetch_of_fill_incomplete positive found filled (by omega), size]
    exact ⟨n + 1, by omega, .short undecided incomplete handing nothing, rfl⟩

end Fetch

/-- How a block is fetched from any source, whatever faults its scripts hold. -/
structure Fetches (s : Source) (offset : UInt64) (blockSize : UInt32)
    (result : Except FetchError Block) (t : Source) : Prop where
  empty : blockSize = 0 → result = .error (.invalidBlockSize blockSize) ∧ t = s
  unsought (fault : Fault) : blockSize ≠ 0 → s.seekFault? offset = some fault →
    result = .error (.seek offset fault) ∧ t = { s with seeks := s.seeks.drop 1 }
  read : blockSize ≠ 0 → s.seekFault? offset = none →
    ∃ n ≤ s.reads.length + 2, (s.sought offset).Ends offset blockSize result n ∧
      t = (s.sought offset).after blockSize.toNat n

/-- Fetching refuses a block without bytes, reports the fault that the seek meets, and otherwise
reads until the block is complete or a read decides, whatever the scripts hold. -/
theorem fetch_under_faults (s : Source) (offset : UInt64) (blockSize : UInt32) :
    s.Fetches offset blockSize (s.fetch offset blockSize).1 (s.fetch offset blockSize).2 := by
  constructor
  case empty =>
    intro empty
    rw [fetch, if_pos empty]
    exact ⟨rfl, rfl⟩
  case unsought =>
    intro fault positive met
    have seek := seek_eq s offset
    rw [met] at seek
    rw [fetch, if_neg positive, seek]
    exact ⟨rfl, rfl⟩
  case read => exact fetch_ends

end Source

end Apfs
