import Apfs.Hexdump
import Apfs.LocatedNode

/-!
# Reports

A node is reported line by line: its headers and footer, an empty line, and then each entry with
the place of its key and its value. On demand the bytes of both are dumped below the entry.
-/

namespace Apfs.Report

open Numeral (decimal hexadecimal hexadecimalPadded)

def objectLines (object : ObjectHeader) : List String := [
  "\tobject identifier: " ++ decimal object.identifier.toNat,
  "\tobject version: " ++ decimal object.version.toNat,
  "\tobject checksum: " ++ hexadecimalPadded 16 object.checksum.toNat]

def headerLines (header : NodeHeader) : List String := [
  "B-tree header:",
  "\tflags: " ++ hexadecimalPadded 4 header.flags.toNat,
  "\tentries: offset " ++ decimal header.entriesOffset.toNat ++ " size "
    ++ decimal header.entriesSize.toNat,
  "\tunused: offset " ++ decimal header.unusedOffset.toNat ++ " size "
    ++ decimal header.unusedSize.toNat]

def footerLines (footer : NodeFooter) : List String := [
  "B-tree footer:",
  "\tnode size: " ++ decimal footer.nodeSize.toNat,
  "\tmaximum key size: " ++ decimal footer.maximumKeySize.toNat ++ ", maximum value size: "
    ++ decimal footer.maximumValueSize.toNat,
  "\tnumber of entries: " ++ decimal footer.numberOfEntries.toNat,
  "\tnumber of nodes: " ++ decimal footer.numberOfNodes.toNat]

def spanText (s : Span) : String := decimal s.start.toNat ++ "+" ++ decimal s.length.toNat

def recordLines (r : KeyValue) : List String :=
  "\tkey:" :: Hexdump.lines r.key.data.toList ++ "\tvalue:" :: Hexdump.lines r.value.data.toList

def entryLines (hexdump : Bool) (index : Nat) (e : Entry) (r : KeyValue) : List String :=
  ("Entry " ++ decimal index ++ ": key " ++ spanText e.key ++ " value " ++ spanText e.value)
    :: if hexdump then recordLines r else []

/-- The lines of the entries from an index on. -/
def entriesLines (hexdump : Bool) : Nat → List (Entry × KeyValue) → List String
  | _, [] => []
  | index, (e, r) :: rest =>
    entryLines hexdump index e r ++ entriesLines hexdump (index + 1) rest

def lines (n : LocatedNode) (hexdump : Bool) : List String :=
  ("Node at offset " ++ hexadecimal n.location.offset.toNat ++ ":") :: objectLines n.object
    ++ headerLines n.header ++ footerLines n.footer ++ [""]
    ++ entriesLines hexdump 0 (n.entries.zip n.records)

/-- The text of some lines, each of which it ends. -/
def unlines (lines : List String) : String := .join (lines.map (· ++ "\n"))

def text (n : LocatedNode) (hexdump : Bool) : String := unlines (lines n hexdump)

end Apfs.Report
