import Mathlib.Data.String.Basic
import Apfs.FileTree

/-!
# Opening files by name

A path without a slash is a single name, and is looked up in the directory where it starts. So a
directory opens the files that it holds by their names, and no other files.
-/

namespace Apfs

section Split

open String

theorem splitOnAux_eq_singleton (l : List Char) {r : List Char} (single : '/' ∉ r) :
    splitOnAux (ofList (l ++ r)) "/" 0 ⟨utf8Len l⟩ 0 [] = [ofList (l ++ r)] := by
  -- `l` is what lies behind the scan, which grows by the character that it passes.
  induction r generalizing l with
  | nil =>
    have whole := extract_zero_rawEndPos (ofList l)
    rw [splitOnAux, if_pos ((atEnd_of_valid l []).mpr rfl)]
    simpa using whole
  | cons c r ih =>
    obtain ⟨other, rest⟩ : '/' ≠ c ∧ '/' ∉ r := by simpa using single
    have more : ¬ Pos.Raw.atEnd (ofList (l ++ c :: r)) ⟨utf8Len l⟩ := by
      rw [atEnd_of_valid]
      exact List.cons_ne_nil c r
    have differ : ¬ Pos.Raw.get (ofList (l ++ c :: r)) ⟨utf8Len l⟩ == Pos.Raw.get "/" 0 := by
      have slash : Pos.Raw.get "/" 0 = '/' := by decide
      rw [get_of_valid, slash]
      simpa using other.symm
    have next : Pos.Raw.next (ofList (l ++ c :: r)) ((⟨utf8Len l⟩ : Pos.Raw).unoffsetBy 0)
        = ⟨utf8Len (l ++ [c])⟩ := by
      simpa [Pos.Raw.unoffsetBy, -ofList_append] using next_of_valid l c r
    rw [splitOnAux, if_neg more, if_neg differ, next]
    simpa [-ofList_append] using ih (l ++ [c]) rest

theorem splitOn_eq_singleton {path : String} (single : '/' ∉ path.toList) :
    path.splitOn "/" = [path] := by
  rw [splitOn, if_neg (by decide)]
  simpa using splitOnAux_eq_singleton [] single

end Split

/-- What opening a file gives if the file is there, and if it is not. -/
def Source.ofFile? : Option ByteArray → Except Fault Source
  | none => .error .notFound
  | some bytes => .ok (.ofFile bytes)

namespace Place

/-- A path such as `disk.img`, which names an entry of the directory where it starts. -/
structure Plain (name : String) : Prop where
  single : '/' ∉ name.toList
  nonempty : name ≠ ""
  not_here : name ≠ "."
  not_above : name ≠ ".."
  size_le : name.utf8ByteSize ≤ longestName

instance (name : String) : Decidable (Plain name) :=
  decidable_of_iff
    ('/' ∉ name.toList ∧ name ≠ "" ∧ name ≠ "." ∧ name ≠ ".." ∧ name.utf8ByteSize ≤ longestName)
    ⟨fun ⟨single, nonempty, not_here, not_above, size_le⟩ =>
        ⟨single, nonempty, not_here, not_above, size_le⟩,
      fun ⟨single, nonempty, not_here, not_above, size_le⟩ =>
        ⟨single, nonempty, not_here, not_above, size_le⟩⟩

variable {name : String} {place : Place} {entries : List (String × FileTree)}
  {image : Option ByteArray}

theorem Plain.walk_eq (plain : Plain name) (place : Place) :
    place.walk name = place.enter name := by
  obtain ⟨single, nonempty, -, -, size_le⟩ := plain
  have relative : name.startsWith "/" = false := by
    rw [String.startsWith_string_eq_false_iff]
    intro start
    exact single (start.subset (by decide))
  have short : ¬ longestPath < name.utf8ByteSize := by
    have : longestName ≤ longestPath := by decide
    omega
  rw [walk, if_neg nonempty, if_neg short, splitOn_eq_singleton single, relative]
  simp

/-- A directory opens the file that it holds under a name, if there is one. -/
theorem Plain.openFile_eq (plain : Plain name) (directory : place.tree = .directory entries)
    (holds : entries.lookup name = image.map .file) :
    place.openFile name = Source.ofFile? image := by
  have walk := plain.walk_eq place
  obtain ⟨-, nonempty, not_here, not_above, size_le⟩ := plain
  rw [openFile, walk, enter, directory]
  simp only [nonempty, not_here, or_self, if_false, not_above, Nat.not_lt.mpr size_le, holds]
  cases image with
  | none => rfl
  | some bytes => rfl

end Place

end Apfs
