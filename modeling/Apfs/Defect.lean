import Apfs.ErrorKind
import Apfs.Numeral

/-!
# Defects

A block that holds no usable node is refused for one defect, together with the numbers that show
it: what was found, and the bound or value that it should have met.
-/

namespace Apfs

open Numeral (decimal hexadecimal hexadecimalPadded)

inductive Defect
  | emptyBlock
  | truncated (part : String) (needed actual : UInt64)
  | unsupported (field : String) (value expected : UInt64)
  | regionTooLarge (field : String) (value available : UInt64)
  | tooManyEntries (count capacity : UInt64)
  | entryOutside (index : UInt64) (field : String) (start length bound : UInt64)
  | valueBeforeBlock (index valueOffset footerOffset : UInt64)
  | checksumMismatch (stored computed : UInt64)
deriving DecidableEq, Repr

namespace Defect

def message : Defect → String
  | emptyBlock => "empty block buffer"
  | truncated part needed actual =>
    "block too small for " ++ part ++ ": need " ++ decimal needed.toNat ++ " bytes, got "
      ++ decimal actual.toNat
  | unsupported field value expected =>
    "unsupported " ++ field ++ ": " ++ hexadecimal value.toNat ++ " (expected "
      ++ hexadecimal expected.toNat ++ ")"
  | regionTooLarge field value available =>
    field ++ " of " ++ decimal value.toNat ++ " exceeds the " ++ decimal available.toNat
      ++ " bytes available"
  | tooManyEntries count capacity =>
    "number of entries " ++ decimal count.toNat ++ " exceeds entry table capacity "
      ++ decimal capacity.toNat
  | entryOutside index field start length bound =>
    "entry " ++ decimal index.toNat ++ ": " ++ field ++ " at " ++ decimal start.toNat
      ++ " with size " ++ decimal length.toNat ++ " exceeds block size " ++ decimal bound.toNat
  | valueBeforeBlock index valueOffset footerOffset =>
    "entry " ++ decimal index.toNat ++ ": value offset " ++ decimal valueOffset.toNat
      ++ " reaches before the start of the block (footer at " ++ decimal footerOffset.toNat ++ ")"
  | checksumMismatch stored computed =>
    "object checksum mismatch: stored " ++ hexadecimalPadded 16 stored.toNat ++ ", computed "
      ++ hexadecimalPadded 16 computed.toNat

def kind : Defect → ErrorKind
  | emptyBlock => .invalidArgument
  | unsupported .. => .unsupportedFormat
  | checksumMismatch .. => .checksum
  | truncated .. | regionTooLarge .. | tooManyEntries .. | entryOutside ..
  | valueBeforeBlock .. => .outOfBounds

/-- Refuses what does not meet a condition. -/
def require (condition : Prop) [Decidable condition] (defect : Defect) : Except Defect Unit :=
  if condition then .ok () else .error defect

/-- Refuses what is not there. -/
def demand {α : Type} (value? : Option α) (defect : Defect) : Except Defect α :=
  match value? with
  | some value => .ok value
  | none => .error defect

end Defect

end Apfs
