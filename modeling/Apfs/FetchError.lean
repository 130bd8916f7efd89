import Apfs.ErrorKind
import Apfs.Numeral

/-!
# Fetch errors

A block that cannot be fetched from its source is reported with the offset at which it was looked
for. Where the source itself failed, its own fault is kept as the cause.
-/

namespace Apfs

open Numeral (decimal hexadecimal)

inductive FaultKind
  | notFound
  | notDirectory
  | isDirectory
  | nameTooLong
  | invalidInput
  | interrupted
  | wouldBlock
  | timedOut
  | unexpectedEof
  | other
deriving DecidableEq, Repr

/-- A failure of the source itself. -/
structure Fault where
  kind : FaultKind
  message : String
deriving DecidableEq, Repr

namespace Fault

def notFound : Fault := ⟨.notFound, "No such file or directory (os error 2)"⟩

/-- The answer of a file that is looked into like a directory. -/
def notDirectory : Fault := ⟨.notDirectory, "Not a directory (os error 20)"⟩

/-- The answer of a directory that is read like a file. -/
def isDirectory : Fault := ⟨.isDirectory, "Is a directory (os error 21)"⟩

def nameTooLong : Fault := ⟨.nameTooLong, "File name too long (os error 36)"⟩

/-- The answer of a file that is positioned where no file can reach. -/
def invalidPosition : Fault := ⟨.invalidInput, "Invalid argument (os error 22)"⟩

end Fault

inductive FetchError
  | invalidBlockSize (blockSize : UInt32)
  | seek (offset : UInt64) (fault : Fault)
  | read (offset : UInt64) (fault : Fault)
  | short (offset : UInt64) (expected actual : UInt64)
deriving DecidableEq, Repr

namespace FetchError

def message : FetchError → String
  | invalidBlockSize blockSize => "invalid block size: " ++ decimal blockSize.toNat
  | seek offset _ => "unable to seek to offset " ++ hexadecimal offset.toNat
  | read offset _ => "unable to read block at offset " ++ hexadecimal offset.toNat
  | short offset expected actual =>
    "short read at offset " ++ hexadecimal offset.toNat ++ ": expected "
      ++ decimal expected.toNat ++ " bytes, got " ++ decimal actual.toNat

/-- The messages of the failures beneath this one. -/
def causes : FetchError → List String
  | seek _ fault | read _ fault => [fault.message]
  | invalidBlockSize _ | short .. => []

def kind : FetchError → ErrorKind
  | invalidBlockSize _ => .invalidArgument
  | seek .. | read .. | short .. => .io

end FetchError

end Apfs
