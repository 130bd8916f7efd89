import Apfs.Proofs.Location
import Apfs.Proofs.Source.Reading
import Apfs.Session

/-!
# Sessions on a reliable source

In a session on a reliable source each answer is the one that the bytes give, as the writes before
it have left them. Nothing else is handed on from step to step: not the position, not what earlier
steps have read or failed to read, and not how far the script has come.
-/

namespace Apfs

open Step (Answer)

/-- The bytes with others in the place of those from an offset on. -/
def overwrite (bytes : ByteArray) (offset : Nat) (new : ByteArray) : ByteArray :=
  ⟨.ofFn fun i : Fin bytes.size =>
    if h : offset ≤ i.val ∧ i.val < offset + new.size then new[i.val - offset] else bytes[i]⟩

namespace Step

/-- The answer that the bytes give. -/
def answer (bytes : ByteArray) : Step → Answer
  | fetch offset blockSize => .fetched (blockAt bytes offset blockSize)
  | readBlock location => .block (blockIn bytes location)
  | readNode location verify => .node (nodeIn bytes location verify)
  | readNumbered volumeOffset number blockSize verify =>
    let offset := volumeOffset.toNat + number.toNat * blockSize.toNat
    if offset < 2 ^ 64 then .node (nodeIn bytes ⟨.ofNat offset, blockSize⟩ verify) else .nowhere
  | write .. => .written

/-- The bytes after the step. -/
def apply (bytes : ByteArray) : Step → ByteArray
  | write offset new => overwrite bytes offset new
  | fetch .. | readBlock .. | readNode .. | readNumbered .. => bytes

/-- A step that writes, if at all, within the given number of bytes. -/
def InBounds (size : Nat) : Step → Prop
  | write offset new => offset + new.size ≤ size
  | fetch .. | readBlock .. | readNode .. | readNumbered .. => True

instance (size : Nat) : DecidablePred (InBounds size)
  | write offset new => inferInstanceAs (Decidable (offset + new.size ≤ size))
  | fetch .. | readBlock .. | readNode .. | readNumbered .. => inferInstanceAs (Decidable True)

end Step

variable {s : Source} {bytes : ByteArray}

theorem size_overwrite (bytes : ByteArray) (offset : Nat) (new : ByteArray) :
    (overwrite bytes offset new).size = bytes.size := Array.size_ofFn

theorem size_apply (bytes : ByteArray) (step : Step) : (step.apply bytes).size = bytes.size := by
  cases step with
  | write offset new => exact size_overwrite bytes offset new
  | _ => rfl

theorem getElem_overwrite {offset : Nat} {new : ByteArray} {i : Nat}
    (hi : i < (overwrite bytes offset new).size) (inside : i < bytes.size) :
    (overwrite bytes offset new)[i] =
      if h : offset ≤ i ∧ i < offset + new.size then new[i - offset] else bytes[i] := by
  rw [ByteArray.getElem_eq_getElem_data]
  exact Array.getElem_ofFn ..

/-- A write within the bytes replaces those that it covers and leaves the others. -/
theorem bytes_write {offset : Nat} {new : ByteArray}
    (inBounds : offset + new.size ≤ s.bytes.size) :
    (s.write offset new).bytes = overwrite s.bytes offset new := by
  have prior : (s.bytes.extract 0 offset).size = offset := by
    rw [ByteArray.size_extract]
    omega
  show s.bytes.extract 0 offset ++ new ++ s.bytes.extract (offset + new.size) s.bytes.size = _
  apply ByteArray.ext_getElem
  · simp only [size_overwrite, ByteArray.size_append, ByteArray.size_extract]
    omega
  · intro i hi inside
    rw [size_overwrite] at inside
    rw [getElem_overwrite _ inside]
    by_cases before : i < offset
    · rw [dif_neg (by omega), ByteArray.getElem_append_left (by rw [ByteArray.size_append]; omega),
        ByteArray.getElem_append_left (by omega)]
      simp only [ByteArray.getElem_extract, Nat.zero_add]
    by_cases covered : i < offset + new.size
    · rw [dif_pos (by omega), ByteArray.getElem_append_left (by rw [ByteArray.size_append]; omega),
        ByteArray.getElem_append_right (by omega)]
      simp only [prior]
    · have behind : offset + new.size + (i - (offset + new.size)) = i := by omega
      rw [dif_neg (by omega), ByteArray.getElem_append_right (by rw [ByteArray.size_append]; omega)]
      simp only [ByteArray.getElem_extract, ByteArray.size_append, prior, behind]

/-- One step on a reliable source answers from the bytes, and leaves a reliable source behind. -/
theorem Source.Reliable.run (h : s.Reliable bytes) (step : Step)
    (inBounds : step.InBounds bytes.size) :
    ∃ t, step.run s = (step.answer bytes, t) ∧ t.Reliable (step.apply bytes) := by
  cases step with
  | fetch offset blockSize =>
    obtain ⟨t, fetch, reliable⟩ := h.fetch offset blockSize
    exact ⟨t, congrArg (Prod.map Answer.fetched id) fetch, reliable⟩
  | readBlock location =>
    obtain ⟨t, readBlock, reliable⟩ := h.readBlock location
    exact ⟨t, congrArg (Prod.map Answer.block id) readBlock, reliable⟩
  | readNode location verify =>
    obtain ⟨t, readNode, reliable⟩ := h.readNode location verify
    exact ⟨t, congrArg (Prod.map Answer.node id) readNode, reliable⟩
  | readNumbered volumeOffset number blockSize verify =>
    rw [Step.run, Location.ofBlock?_eq, Step.answer]
    by_cases fits : volumeOffset.toNat + number.toNat * blockSize.toNat < 2 ^ 64
    · rw [if_pos fits, if_pos fits]
      obtain ⟨t, readNode, reliable⟩ := h.readNode _ verify
      exact ⟨t, congrArg (Prod.map Answer.node id) readNode, reliable⟩
    · rw [if_neg fits, if_neg fits]
      exact ⟨s, rfl, h⟩
  | write offset new =>
    obtain ⟨rfl, reads, seeks, reach⟩ := h
    exact ⟨s.write offset new, rfl, bytes_write inBounds, reads, seeks, reach⟩

/-- Each answer in a session on a reliable source is the one that the bytes give, as the writes
before the step have left them, and the source holds the bytes that the writes leave. -/
theorem session_eq_mapIdx (h : s.Reliable bytes) (steps : List Step)
    (inBounds : ∀ step ∈ steps, step.InBounds bytes.size) :
    (session s steps).map (fun r => (r.1, r.2.bytes)) = steps.mapIdx fun i step =>
      (step.answer ((steps.take i).foldl Step.apply bytes),
        (steps.take (i + 1)).foldl Step.apply bytes) := by
  induction steps generalizing s bytes with
  | nil => rfl
  | cons step steps ih =>
    obtain ⟨first, rest⟩ := List.forall_mem_cons.mp inBounds
    obtain ⟨t, run, reliable⟩ := h.run step first
    rw [← size_apply bytes step] at rest
    have tail := ih reliable rest
    rw [session, run, List.map_cons, tail, reliable.bytes, List.mapIdx_cons]
    rfl

/-- A source that hands out a byte, is interrupted, and hands out two bytes more. -/
def interruptedSource : Source where
  bytes := ⟨#[0, 1, 2, 3, 4, 5, 6, 7]⟩
  position := 5
  reads := [.limit 1, .fail ⟨.interrupted, "interrupted"⟩, .limit 2]
  seeks := [none]
  reach := UInt64.size

theorem interruptedSource_reliable : interruptedSource.Reliable interruptedSource.bytes where
  bytes := rfl
  reads := by decide
  seeks := by decide
  reach := rfl

theorem session_interruptedSource :
    (session interruptedSource [.fetch 2 4, .write 3 ⟨#[9, 9]⟩, .fetch 2 4, .fetch 6 4,
      .readNumbered (.ofNat (2 ^ 64 - 1)) 1 1 false]).map (fun r => (r.1, r.2.bytes))
      = [(.fetched (.ok ⟨⟨#[2, 3, 4, 5]⟩, by decide⟩), ⟨#[0, 1, 2, 3, 4, 5, 6, 7]⟩),
        (.written, ⟨#[0, 1, 2, 9, 9, 5, 6, 7]⟩),
        (.fetched (.ok ⟨⟨#[2, 9, 9, 5]⟩, by decide⟩), ⟨#[0, 1, 2, 9, 9, 5, 6, 7]⟩),
        (.fetched (.error (.short 6 4 2)), ⟨#[0, 1, 2, 9, 9, 5, 6, 7]⟩),
        (.nowhere, ⟨#[0, 1, 2, 9, 9, 5, 6, 7]⟩)] := by
  have answers := session_eq_mapIdx interruptedSource_reliable [.fetch 2 4, .write 3 ⟨#[9, 9]⟩,
    .fetch 2 4, .fetch 6 4, .readNumbered (.ofNat (2 ^ 64 - 1)) 1 1 false]
    (by decide)
  exact answers.trans rfl

end Apfs
