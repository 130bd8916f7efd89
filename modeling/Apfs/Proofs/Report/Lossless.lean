import Apfs.Proofs.Form
import Apfs.Proofs.Hexdump
import Apfs.Proofs.Node.Acceptance
import Apfs.Proofs.Node.Records
import Apfs.Proofs.Report

/-!
# Reports lose nothing

No line of a report has a line break inside, so its text shows where each line ends. In a line, each
numeral ends where the words behind it start. A dump goes on as long as its lines read as rows,
which neither labels nor headings do, so it ends where the next of them starts, however many bytes
are in it. So all that a report says of a node can be told from its text.
-/

namespace Apfs

open Numeral (decimal hexadecimal hexadecimalPadded)
open Text (Only StopsAt)

/-- Two nodes agree in all that a report shows of a node. -/
structure LocatedNode.SameReported (m n : LocatedNode) : Prop where
  offset : m.location.offset = n.location.offset
  identifier : m.object.identifier = n.object.identifier
  version : m.object.version = n.object.version
  checksum : m.object.checksum = n.object.checksum
  flags : m.header.flags = n.header.flags
  entriesOffset : m.header.entriesOffset = n.header.entriesOffset
  entriesSize : m.header.entriesSize = n.header.entriesSize
  unusedOffset : m.header.unusedOffset = n.header.unusedOffset
  unusedSize : m.header.unusedSize = n.header.unusedSize
  nodeSize : m.footer.nodeSize = n.footer.nodeSize
  maximumKeySize : m.footer.maximumKeySize = n.footer.maximumKeySize
  maximumValueSize : m.footer.maximumValueSize = n.footer.maximumValueSize
  numberOfEntries : m.footer.numberOfEntries = n.footer.numberOfEntries
  numberOfNodes : m.footer.numberOfNodes = n.footer.numberOfNodes
  entries : m.entries = n.entries
  records : m.records = n.records

namespace Report

/-! ## Lines -/

/-- A text without a line break. -/
def OneLine (line : String) : Prop := Only (· != '\n') line

instance (line : String) : Decidable (OneLine line) := inferInstanceAs (Decidable (Only _ line))

@[simp] theorem oneLine_append {s t : String} : OneLine (s ++ t) ↔ OneLine s ∧ OneLine t :=
  Text.only_append

theorem oneLine_of_isNumeral {s : String} (h : IsNumeral s) : OneLine s := by
  intro c member
  have alphanumeric := h.alphanumeric c member
  simp only [bne_iff_ne]
  rintro rfl
  exact absurd alphanumeric (by decide)

@[simp] theorem oneLine_decimal (n : Nat) : OneLine (decimal n) :=
  oneLine_of_isNumeral (Numeral.isNumeral_decimal n)

@[simp] theorem oneLine_hexadecimal (n : Nat) : OneLine (hexadecimal n) :=
  oneLine_of_isNumeral (Numeral.isNumeral_hexadecimal n)

@[simp] theorem oneLine_hexadecimalPadded (width n : Nat) : OneLine (hexadecimalPadded width n) :=
  oneLine_of_isNumeral (Numeral.isNumeral_hexadecimalPadded width n)

theorem unlines_cons (line : String) (l : List String) :
    unlines (line :: l) = line ++ ("\n" ++ unlines l) := by
  simp [unlines, String.append_assoc]

/-- Lines are told apart by the breaks between them. -/
theorem eq_of_unlines_eq {l k : List String} (hl : ∀ line ∈ l, OneLine line)
    (hk : ∀ line ∈ k, OneLine line) (same : unlines l = unlines k) : l = k := by
  have stops (s : String) : StopsAt (· != '\n') ("\n" ++ s) := by simp +decide
  induction l generalizing k with
  | nil =>
    cases k with
    | nil => rfl
    | cons line k => simp [unlines] at same
  | cons line l ih =>
    cases k with
    | nil => simp [unlines] at same
    | cons line' k =>
      rw [unlines_cons, unlines_cons] at same
      obtain ⟨first, behind⟩ := List.forall_mem_cons.mp hl
      obtain ⟨first', behind'⟩ := List.forall_mem_cons.mp hk
      obtain ⟨rfl, rest⟩ := Text.append_inj first first' (stops _) (stops _) same
      rw [ih behind behind' ((String.append_right_inj _).mp rest)]

theorem oneLine_row {r : Hexdump.Row} (h : r.bytes ≠ []) : OneLine r.text := by
  have digits := List.all_eq_true.mp (by decide : Hex.alphabet.all (· != '\n'))
  intro c member
  simp only [Hexdump.Row.toList_text h, List.mem_cons, List.mem_append, List.mem_flatMap] at member
  obtain rfl | offset | rfl | ⟨b, -, rfl | byte⟩ := member
  · decide
  · exact digits c (Hex.mem_alphabet_of_mem_hexDigits offset)
  · decide
  · decide
  · exact digits c (Hex.mem_alphabet_of_mem_digits byte)

theorem oneLine_of_mem_dump {bytes : List UInt8} {line : String}
    (h : line ∈ Hexdump.lines bytes) : OneLine line := by
  obtain ⟨r, row, rfl⟩ := List.mem_map.mp h
  exact oneLine_row (Hexdump.bytes_ne_nil_of_mem_rows row)

theorem oneLine_heading (index : Nat) (e : Entry) : OneLine (heading index e) := by
  simp +decide [heading, spanText]

theorem oneLine_of_mem_recordLines {r : KeyValue} {line : String} (h : line ∈ recordLines r) :
    OneLine line := by
  simp only [recordLines, List.cons_append, List.mem_cons, List.mem_append] at h
  obtain rfl | key | rfl | value := h
  · decide
  · exact oneLine_of_mem_dump key
  · decide
  · exact oneLine_of_mem_dump value

/-- An entry is dumped below its heading, and the next entries follow. -/
theorem entriesLines_cons (index : Nat) (e : Entry) (r : KeyValue) (l : List (Entry × KeyValue)) :
    entriesLines true index ((e, r) :: l)
      = heading index e :: (recordLines r ++ entriesLines true (index + 1) l) := rfl

theorem oneLine_of_mem_entriesLines {index : Nat} {l : List (Entry × KeyValue)} {line : String}
    (h : line ∈ entriesLines true index l) : OneLine line := by
  induction l generalizing index with
  | nil => cases h
  | cons record l ih =>
    rw [entriesLines_cons, List.mem_cons, List.mem_append] at h
    obtain rfl | dumped | later := h
    · exact oneLine_heading index record.1
    · exact oneLine_of_mem_recordLines dumped
    · exact ih later

theorem oneLine_of_mem_fieldLines {n : LocatedNode} : ∀ line ∈ fieldLines n, OneLine line := by
  simp +decide [fieldLines, objectLines, headerLines, footerLines]

theorem oneLine_of_mem_lines {n : LocatedNode} {line : String} (h : line ∈ lines n true) :
    OneLine line := by
  rw [lines_eq, List.mem_append] at h
  obtain field | entry := h
  · exact oneLine_of_mem_fieldLines line field
  · exact oneLine_of_mem_entriesLines entry

/-! ## Fields -/

/-- Two numbers in a line. -/
theorem pair_inj {before between : String} {i j k l : Nat}
    (stops : ∀ t, StopsAt Char.isAlphanum (between ++ t))
    (same : before ++ decimal i ++ between ++ decimal j
      = before ++ decimal k ++ between ++ decimal l) : i = k ∧ j = l := by
  simp only [String.append_assoc, String.append_right_inj] at same
  obtain ⟨first, behind⟩ := Text.append_inj (Numeral.isNumeral_decimal i).alphanumeric
    (Numeral.isNumeral_decimal k).alphanumeric (stops _) (stops _) same
  rw [String.append_right_inj] at behind
  exact ⟨Numeral.decimal_inj.mp first, Numeral.decimal_inj.mp behind⟩

@[simp] theorem length_headerLines (h : NodeHeader) : (headerLines h).length = 4 := rfl

@[simp] theorem length_footerLines (f : NodeFooter) : (footerLines f).length = 5 := rfl

@[simp] theorem length_fieldLines (n : LocatedNode) : (fieldLines n).length = 14 := rfl

theorem objectLines_inj {o o' : ObjectHeader} (same : objectLines o = objectLines o') :
    o.identifier = o'.identifier ∧ o.version = o'.version ∧ o.checksum = o'.checksum := by
  simpa [objectLines, Numeral.decimal_inj, Numeral.hexadecimalPadded_inj, UInt64.toNat_inj]
    using same

theorem headerLines_inj {h h' : NodeHeader} (same : headerLines h = headerLines h') :
    h.flags = h'.flags ∧ h.entriesOffset = h'.entriesOffset ∧ h.entriesSize = h'.entriesSize ∧
      h.unusedOffset = h'.unusedOffset ∧ h.unusedSize = h'.unusedSize := by
  simp only [headerLines, List.cons.injEq, String.append_right_inj, true_and, and_true] at same
  obtain ⟨flags, entries, unused⟩ := same
  have stops (t : String) : StopsAt Char.isAlphanum (" size " ++ t) := by simp +decide
  have entries := pair_inj stops entries
  have unused := pair_inj stops unused
  simpa [Numeral.hexadecimalPadded_inj, UInt16.toNat_inj, and_assoc] using
    And.intro flags (And.intro entries unused)

theorem footerLines_inj {f f' : NodeFooter} (same : footerLines f = footerLines f') :
    f.nodeSize = f'.nodeSize ∧ f.maximumKeySize = f'.maximumKeySize ∧
      f.maximumValueSize = f'.maximumValueSize ∧ f.numberOfEntries = f'.numberOfEntries ∧
      f.numberOfNodes = f'.numberOfNodes := by
  simp only [footerLines, List.cons.injEq, String.append_right_inj, true_and, and_true] at same
  obtain ⟨size, maximum, entries, nodes⟩ := same
  have stops (t : String) : StopsAt Char.isAlphanum (", maximum value size: " ++ t) := by
    simp +decide
  have maximum := pair_inj stops maximum
  simpa [Numeral.decimal_inj, UInt32.toNat_inj, UInt64.toNat_inj, and_assoc] using
    And.intro size (And.intro maximum (And.intro entries nodes))

/-! ## Entries -/

/-- The heading of an entry, taken apart. -/
def headingForm (index : Nat) (e : Entry) : Form :=
  ⟨"Entry ", [(decimal index, ": key "), (decimal e.key.start.toNat, "+"),
    (decimal e.key.length.toNat, " value "), (decimal e.value.start.toNat, "+"),
    (decimal e.value.length.toNat, "")]⟩

theorem text_headingForm (index : Nat) (e : Entry) :
    (headingForm index e).text = heading index e := by
  simp [headingForm, heading, spanText, Form.text, Form.blanksText, String.append_assoc]

theorem legible_headingForm (index : Nat) (e : Entry) : (headingForm index e).Legible := by
  constructor
  · exact (by decide : IsLabel "Entry ")
  · simp +decide [headingForm, Form.LegibleBlanks, Form.blanksText, Numeral.isNumeral_decimal]

theorem heading_inj {i j : Nat} {e e' : Entry} (same : heading i e = heading j e') :
    i = j ∧ e = e' := by
  rw [← text_headingForm, ← text_headingForm] at same
  have form := Form.eq_of_text_eq (legible_headingForm i e) (legible_headingForm j e') same
  simp only [headingForm, Form.mk.injEq, List.cons.injEq, Prod.mk.injEq, Numeral.decimal_inj,
    and_true, true_and] at form
  obtain ⟨index, keyStart, keyLength, valueStart, valueLength⟩ := form
  refine ⟨index, Entry.eq_of_numbers_eq ?_⟩
  simp [Entry.numbers, Span.numbers, keyStart, keyLength, valueStart, valueLength]

/-- A line of a dump. -/
def isRow (line : String) : Bool := (Hexdump.Row.ofText? line).isSome

theorem isRow_of_mem_dump {bytes : List UInt8} {line : String} (h : line ∈ Hexdump.lines bytes) :
    isRow line := by
  obtain ⟨r, row, rfl⟩ := List.mem_map.mp h
  rw [isRow, Hexdump.Row.ofText?_text (Hexdump.bytes_ne_nil_of_mem_rows row)]
  rfl

theorem isRow_heading (index : Nat) (e : Entry) : isRow (heading index e) = false := by
  simp [isRow, heading, Hexdump.Row.ofText?]

/-- No row follows the dump of an entry. -/
theorem isRow_head_entriesLines {index : Nat} {l : List (Entry × KeyValue)} :
    ∀ line ∈ (entriesLines true index l).head?, isRow line = false := by
  intro line first
  cases l with
  | nil => cases first
  | cons record l =>
    obtain rfl := Option.some.inj first
    exact isRow_heading index record.1

/-- A dump ends where the rows end. -/
theorem dump_append_inj {bytes bytes' : ByteArray} {l l' : List String}
    (hl : ∀ line ∈ l.head?, isRow line = false) (hl' : ∀ line ∈ l'.head?, isRow line = false)
    (same : Hexdump.lines bytes.data.toList ++ l = Hexdump.lines bytes'.data.toList ++ l') :
    bytes = bytes' ∧ l = l' := by
  obtain ⟨dump, rest⟩ := stretch_append_inj (fun _ => isRow_of_mem_dump)
    (fun _ => isRow_of_mem_dump) hl hl' same
  exact ⟨ByteArray.ext (Array.toList_inj.mp (Hexdump.lines_inj dump)), rest⟩

/-- The dump of the key ends at the label of the value, and the dump of the value at the end of the
record. -/
theorem recordLines_append_inj {r r' : KeyValue} {l l' : List String}
    (hl : ∀ line ∈ l.head?, isRow line = false) (hl' : ∀ line ∈ l'.head?, isRow line = false)
    (same : recordLines r ++ l = recordLines r' ++ l') : r = r' ∧ l = l' := by
  have label (l : List String) : ∀ line ∈ ("\tvalue:" :: l).head?, isRow line = false := by
    rintro _ ⟨⟩
    decide
  simp only [recordLines, List.cons_append, List.append_assoc, List.cons.injEq, true_and] at same
  obtain ⟨key, behind⟩ := dump_append_inj (label _) (label _) same
  obtain ⟨value, rest⟩ := dump_append_inj hl hl' (List.cons.inj behind).2
  refine ⟨?_, rest⟩
  cases r
  cases r'
  simp_all

theorem eq_of_entriesLines_eq {index : Nat} {l l' : List (Entry × KeyValue)}
    (same : entriesLines true index l = entriesLines true index l') : l = l' := by
  induction l generalizing index l' with
  | nil =>
    cases l' with
    | nil => rfl
    | cons record l' => cases same
  | cons record l ih =>
    cases l' with
    | nil => cases same
    | cons record' l' =>
      obtain ⟨e, r⟩ := record
      obtain ⟨e', r'⟩ := record'
      rw [entriesLines_cons, entriesLines_cons, List.cons.injEq] at same
      obtain ⟨-, rfl⟩ := heading_inj same.1
      obtain ⟨rfl, later⟩ :=
        recordLines_append_inj isRow_head_entriesLines isRow_head_entriesLines same.2
      rw [ih later]

/-! ## Nodes -/

theorem sameReported_of_fieldLines_eq {m n : LocatedNode} (same : fieldLines m = fieldLines n)
    (entries : m.entries = n.entries) (records : m.records = n.records) : m.SameReported n := by
  rw [fieldLines, fieldLines, List.append_left_inj] at same
  obtain ⟨same, footer⟩ := List.append_inj' same (by simp)
  obtain ⟨same, header⟩ := List.append_inj' same (by simp)
  obtain ⟨offset, object⟩ := List.cons.inj same
  obtain ⟨identifier, version, checksum⟩ := objectLines_inj object
  obtain ⟨flags, entriesOffset, entriesSize, unusedOffset, unusedSize⟩ := headerLines_inj header
  obtain ⟨nodeSize, maximumKeySize, maximumValueSize, numberOfEntries, numberOfNodes⟩ :=
    footerLines_inj footer
  have offset : m.location.offset = n.location.offset := by
    simpa [Numeral.hexadecimal_inj, UInt64.toNat_inj] using offset
  constructor <;> assumption

theorem text_eq_iff {m n : LocatedNode} (hm : m.records.length = m.entries.length)
    (hn : n.records.length = n.entries.length) :
    text m true = text n true ↔ m.SameReported n := by
  constructor
  · intro same
    have same := eq_of_unlines_eq (fun _ => oneLine_of_mem_lines) (fun _ => oneLine_of_mem_lines)
      same
    rw [lines_eq, lines_eq] at same
    obtain ⟨fields, entries⟩ := List.append_inj same (by simp)
    have zipped := congrArg List.unzip (eq_of_entriesLines_eq entries)
    rw [List.unzip_zip hm.symm, List.unzip_zip hn.symm, Prod.mk.injEq] at zipped
    exact sameReported_of_fieldLines_eq fields zipped.1 zipped.2
  · rintro ⟨⟩
    simp only [text, lines, objectLines, headerLines, footerLines, *]

/-- What is printed as evidence loses nothing. Byte strings are read back from their digits and from
the rows of their dumps. And two decoded nodes have one report, dumps included, only if they have
the same place, the same fields and the same entries with the same bytes. -/
theorem evidence_lossless :
    (∀ bytes : List UInt8,
      (Hex.encode bytes).length = 2 * bytes.length ∧
      (∀ c ∈ (Hex.encode bytes).toList, c ∈ Hex.alphabet) ∧
      Hex.decode? (Hex.encode bytes) = some bytes ∧
      ∃ rows, (Hexdump.lines bytes).mapM Hexdump.Row.ofText? = some rows ∧
        Hexdump.Shows rows bytes) ∧
    ∀ (location location' : Location) (b b' : Block) (verify verify' : Bool) (m n : LocatedNode),
      LocatedNode.decode location b verify = .ok m →
      LocatedNode.decode location' b' verify' = .ok n →
        (text m true = text n true ↔ m.SameReported n) := by
  constructor
  · intro bytes
    exact ⟨Hex.length_encode bytes, fun _ => Hex.mem_alphabet_of_mem_encode,
      Hex.decode?_encode bytes, Hexdump.rows 0 bytes, Hexdump.mapM_ofText?_lines bytes,
      Hexdump.shows_rows bytes⟩
  · intro location location' b b' verify verify' m n decoded decoded'
    exact text_eq_iff (LocatedNode.length_records decoded) (LocatedNode.length_records decoded')

/-- Nodes that differ in one byte of a value have different reports. -/
theorem evidence_lossless_oneEntry :
    ∃ m n, LocatedNode.decode ⟨8192, 4096⟩ (Node.oneEntry 7 1 2) false = .ok m ∧
      LocatedNode.decode ⟨8192, 4096⟩ (Node.oneEntry 7 1 3) false = .ok n ∧
      text m true ≠ text n true := by
  have accepted : (do
      let m ← LocatedNode.decode ⟨8192, 4096⟩ (Node.oneEntry 7 1 2) false
      return m.records) = .ok [⟨⟨#[1]⟩, ⟨#[2]⟩⟩] := by decide +kernel
  have accepted' : (do
      let n ← LocatedNode.decode ⟨8192, 4096⟩ (Node.oneEntry 7 1 3) false
      return n.records) = .ok [⟨⟨#[1]⟩, ⟨#[3]⟩⟩] := by decide +kernel
  obtain ⟨m, decoded, records⟩ := bind_eq_ok.mp accepted
  obtain ⟨n, decoded', records'⟩ := bind_eq_ok.mp accepted'
  refine ⟨m, n, decoded, decoded', fun same => ?_⟩
  have reported := (evidence_lossless.2 _ _ _ _ _ _ m n decoded decoded').mp same
  have equal := records.symm.trans ((congrArg Except.ok reported.records).trans records')
  exact absurd equal (by decide)

end Report

end Apfs
