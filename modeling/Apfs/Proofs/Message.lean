import Apfs.Proofs.Form
import Apfs.Proofs.Verification

/-!
# Messages tell errors apart

The message of a defect is a form with the numbers of the defect in its blanks. Its labels tell what
kind of defect it is and which part or field it concerns, and none of the names that a decoder gives
has a digit in it. So the text of an error alone is enough to find out all that the error says: the
offset and the size of the block, the kind of defect and every number.
-/

namespace Apfs

open Numeral

attribute [local simp] decimal_inj hexadecimal_inj hexadecimalPadded_inj isNumeral_decimal
  isNumeral_hexadecimal isNumeral_hexadecimalPadded

namespace Defect

/-- The message of a defect, taken apart. -/
def form : Defect → Form
  | emptyBlock => ⟨"empty block buffer", []⟩
  | truncated part needed actual =>
    ⟨"block too small for " ++ part ++ ": need ",
      [(decimal needed.toNat, " bytes, got "), (decimal actual.toNat, "")]⟩
  | unsupported field value expected =>
    ⟨"unsupported " ++ field ++ ": ",
      [(hexadecimal value.toNat, " (expected "), (hexadecimal expected.toNat, ")")]⟩
  | regionTooLarge field value available =>
    ⟨field ++ " of ",
      [(decimal value.toNat, " exceeds the "), (decimal available.toNat, " bytes available")]⟩
  | tooManyEntries count capacity =>
    ⟨"number of entries ",
      [(decimal count.toNat, " exceeds entry table capacity "), (decimal capacity.toNat, "")]⟩
  | entryOutside index field start length bound =>
    ⟨"entry ",
      [(decimal index.toNat, ": " ++ field ++ " at "), (decimal start.toNat, " with size "),
        (decimal length.toNat, " exceeds block size "), (decimal bound.toNat, "")]⟩
  | valueBeforeBlock index valueOffset footerOffset =>
    ⟨"entry ",
      [(decimal index.toNat, ": value offset "),
        (decimal valueOffset.toNat, " reaches before the start of the block (footer at "),
        (decimal footerOffset.toNat, ")")]⟩
  | checksumMismatch stored computed =>
    ⟨"object checksum mismatch: stored ",
      [(hexadecimalPadded 16 stored.toNat, ", computed "),
        (hexadecimalPadded 16 computed.toNat, "")]⟩

theorem text_form (d : Defect) : d.form.text = d.message := by
  cases d <;> dsimp only [form, Form.text, Form.blanksText, message] <;> simp [String.append_assoc]

/-- The labels tell the kinds of defects apart, and the blanks the numbers. -/
theorem form_inj {d d' : Defect} : d.form = d'.form ↔ d = d' := by
  cases d <;> cases d' <;> dsimp only [form] <;> simp [UInt64.toNat_inj, and_assoc]

/-- The names of what a defect concerns. -/
def names : Defect → List String
  | truncated part .. => [part]
  | unsupported field .. | regionTooLarge field .. | entryOutside _ field .. => [field]
  | emptyBlock | tooManyEntries .. | valueBeforeBlock .. | checksumMismatch .. => []

theorem legible_form {d : Defect} (names : ∀ name ∈ d.names, IsLabel name) : d.form.Legible := by
  cases d <;> constructor <;> dsimp only [form, Form.LegibleBlanks, Form.blanksText] <;>
    simp_all +decide [Defect.names]

end Defect

namespace NodeError

/-- The message of a defect at a location, taken apart. -/
def formAt (location : Location) (d : Defect) : Form :=
  ⟨"node at offset ", (hexadecimal location.offset.toNat, " (block size ")
    :: (decimal location.blockSize.toNat, "): " ++ d.form.label) :: d.form.blanks⟩

theorem text_formAt (location : Location) (d : Defect) :
    (formAt location d).text = (decode location d).message := by
  dsimp only [message, causeMessage, NodeError.location]
  rw [← d.text_form]
  simp [formAt, Form.text, Form.blanksText, String.append_assoc]

theorem legible_formAt {location : Location} {d : Defect} (legible : d.form.Legible) :
    (formAt location d).Legible where
  label := (by decide : IsLabel "node at offset ")
  blanks := ⟨isNumeral_hexadecimal _, by decide, by simp +decide, isNumeral_decimal _,
    isLabel_append.mpr ⟨by decide, legible.label⟩, by simp +decide, legible.blanks⟩

theorem formAt_inj {location location' : Location} {d d' : Defect}
    (same : formAt location d = formAt location' d') : location = location' ∧ d = d' := by
  simp only [formAt, Form.mk.injEq, List.cons.injEq, Prod.mk.injEq, hexadecimal_inj, decimal_inj,
    UInt64.toNat_inj, UInt32.toNat_inj, String.append_right_inj, true_and] at same
  obtain ⟨⟨offset, -⟩, ⟨size, label⟩, blanks⟩ := same
  constructor
  · cases location
    cases location'
    simp_all
  · exact Defect.form_inj.mp (Form.mk.injEq .. ▸ ⟨label, blanks⟩)

end NodeError

/-! ## The names that a decoder gives -/

namespace Node

variable {b : Block} {c : Check}

theorem isLabel_of_mem_checks (hc : c ∈ checks b) : ∀ name ∈ c.defect.names, IsLabel name := by
  simp only [checks, headerChecks, regionChecks, footerChecks, entryChecks, List.mem_append,
    List.mem_flatMap, List.mem_cons, List.not_mem_nil, or_false] at hc
  rcases hc with (((rfl | rfl | rfl | rfl | rfl | rfl) | (rfl | rfl | rfl | rfl)) |
    (rfl | rfl | rfl)) | ⟨i, -, (rfl | rfl | rfl)⟩
  all_goals simp +decide [Defect.names, fieldCheck, regionCheck, spanCheck]

end Node

theorem Block.isLabel_of_unverified {b : Block} {d : Defect} (h : b.Unverified d) :
    ∀ name ∈ d.names, IsLabel name := by
  cases h <;> simp +decide [Defect.names]

namespace LocatedNode

/-- Whatever is refused, the message of the error is legible. -/
theorem legible_of_decode {location : Location} {b : Block} {verify : Bool} {e : NodeError}
    (refused : decode location b verify = .error e) :
    ∃ d, e = .decode location d ∧ (NodeError.formAt location d).Legible := by
  obtain ⟨d, found, rfl⟩ := exists_defect refused
  refine ⟨d, rfl, NodeError.legible_formAt (Defect.legible_form ?_)⟩
  obtain unverified | refused := found
  · exact Block.isLabel_of_unverified unverified
  · obtain ⟨c, member, -, rfl⟩ := Node.exists_failing_check refused
    exact Node.isLabel_of_mem_checks member

/-- Two errors of the decoder with one message are the same error, at the same location. -/
theorem eq_of_message_eq {location location' : Location} {b b' : Block} {verify verify' : Bool}
    {e e' : NodeError} (refused : decode location b verify = .error e)
    (refused' : decode location' b' verify' = .error e') (same : e.message = e'.message) :
    e = e' ∧ location = location' := by
  obtain ⟨d, rfl, legible⟩ := legible_of_decode refused
  obtain ⟨d', rfl, legible'⟩ := legible_of_decode refused'
  rw [← NodeError.text_formAt, ← NodeError.text_formAt] at same
  obtain ⟨rfl, rfl⟩ := NodeError.formAt_inj (Form.eq_of_text_eq legible legible' same)
  exact ⟨rfl, rfl⟩

/-- Of two blocks that are too short in the same way, the errors are the same. -/
theorem eq_of_message_eq_shortBlocks :
    ∃ e e', decode ⟨8192, 4096⟩ ⟨⟨#[1, 2, 3, 4]⟩, by decide⟩ true = .error e ∧
      decode ⟨8192, 4096⟩ ⟨⟨#[5, 6, 7, 8]⟩, by decide⟩ true = .error e' ∧
      e.message = e'.message ∧ e = e' := by
  have refused : decode ⟨8192, 4096⟩ ⟨⟨#[1, 2, 3, 4]⟩, by decide⟩ true
      = .error (.decode ⟨8192, 4096⟩ (.truncated "object header" 32 4)) := rfl
  have refused' : decode ⟨8192, 4096⟩ ⟨⟨#[5, 6, 7, 8]⟩, by decide⟩ true
      = .error (.decode ⟨8192, 4096⟩ (.truncated "object header" 32 4)) := rfl
  exact ⟨_, _, refused, refused', rfl, (eq_of_message_eq refused refused' rfl).1⟩

end LocatedNode

end Apfs
