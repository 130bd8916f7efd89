/-!
# Kinds of errors

Every failure to read a node falls into one of five kinds.
-/

namespace Apfs

inductive ErrorKind
  /-- The caller asked for something that cannot be. -/
  | invalidArgument
  /-- The block holds something other than a node of the one supported format. -/
  | unsupportedFormat
  /-- A number in the block points outside the block. -/
  | outOfBounds
  /-- The source could not be positioned or read. -/
  | io
  /-- The block does not match its checksum. -/
  | checksum
deriving DecidableEq, Repr

def ErrorKind.name : ErrorKind → String
  | invalidArgument => "invalid argument"
  | unsupportedFormat => "unsupported format"
  | outOfBounds => "out of bounds"
  | io => "i/o"
  | checksum => "checksum"

end Apfs
