import Apfs.Report

/-!
# The entries in a report

In the report of a node, each entry has a heading, in the order of the entries, and no other line
looks like one. The dumps between the headings are told apart by the tab in front of them.
-/

namespace Apfs.Report

open Numeral (decimal)

/-- Whether a line looks like the heading of an entry. -/
def isHeading (line : String) : Bool := line.startsWith "Entry "

def heading (index : Nat) (e : Entry) : String :=
  "Entry " ++ decimal index ++ ": key " ++ spanText e.key ++ " value " ++ spanText e.value

@[simp] theorem isHeading_heading (index : Nat) (e : Entry) : isHeading (heading index e) := by
  simp [isHeading, heading, String.startsWith_string_iff]

@[simp] theorem isHeading_row (r : Hexdump.Row) : isHeading r.text = false := by
  simp [isHeading, Hexdump.Row.text, String.startsWith_string_eq_false_iff]

@[simp] theorem unlines_append (l k : List String) : unlines (l ++ k) = unlines l ++ unlines k := by
  simp [unlines]

theorem filter_dump (bytes : List UInt8) : (Hexdump.lines bytes).filter isHeading = [] := by
  simp [Hexdump.lines, List.filter_map, Function.comp_def]

theorem filter_recordLines (r : KeyValue) : (recordLines r).filter isHeading = [] := by
  have labels : isHeading "\tkey:" = false ∧ isHeading "\tvalue:" = false := by
    simp [isHeading]
  simp [recordLines, filter_dump, labels]

theorem filter_entryLines (hexdump : Bool) (index : Nat) (e : Entry) (r : KeyValue) :
    (entryLines hexdump index e r).filter isHeading = [heading index e] := by
  have first : entryLines hexdump index e r
    = heading index e :: if hexdump then recordLines r else [] := rfl
  rw [first, List.filter_cons_of_pos (isHeading_heading index e)]
  cases hexdump with
  | false => rfl
  | true => rw [if_pos rfl, filter_recordLines]

theorem filter_entriesLines (hexdump : Bool) (index : Nat) (records : List (Entry × KeyValue)) :
    (entriesLines hexdump index records).filter isHeading
      = (records.map Prod.fst).mapIdx fun i => heading (index + i) := by
  induction records generalizing index with
  | nil => rfl
  | cons record records ih =>
    obtain ⟨e, r⟩ := record
    rw [entriesLines, List.filter_append, filter_entryLines, ih]
    simp [Nat.add_assoc, Nat.add_comm 1]

/-- The lines before the entries. -/
def fieldLines (n : LocatedNode) : List String :=
  ("Node at offset " ++ Numeral.hexadecimal n.location.offset.toNat ++ ":") :: objectLines n.object
    ++ headerLines n.header ++ footerLines n.footer ++ [""]

theorem lines_eq (n : LocatedNode) (hexdump : Bool) :
    lines n hexdump = fieldLines n ++ entriesLines hexdump 0 (n.entries.zip n.records) := rfl

theorem filter_lines {n : LocatedNode} (hexdump : Bool)
    (lengths : n.records.length = n.entries.length) :
    (lines n hexdump).filter isHeading = n.entries.mapIdx heading := by
  have fields : (fieldLines n).filter isHeading = [] := by
    simp [fieldLines, objectLines, headerLines, footerLines, isHeading]
  have entries : (n.entries.zip n.records).map Prod.fst = n.entries :=
    List.map_fst_zip (Nat.le_of_eq lengths.symm)
  rw [lines_eq, List.filter_append, fields, filter_entriesLines, entries]
  simp

end Apfs.Report
