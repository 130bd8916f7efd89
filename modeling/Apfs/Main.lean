import Apfs.Command
import Apfs.Sha256

/-!
# The executable

All that the command decides is decided by `Command.run`. What is left here is to read the image
and to write the outcome.
-/

namespace Apfs

/-- The number of a system error, which some calls report negated. -/
def errorNumber (code : UInt32) : UInt32 := if code < 0x80000000 then code else -code

/-- What a failure to read a file says of the file: that it is a directory, which fails only when
it is read, or that it cannot be opened. -/
def sourceOfFailure (failure : IO.Error) : Except Fault Source :=
  match failure with
  | .noFileOrDirectory .. => .error .notFound
  | .inappropriateType _ code _ =>
    if errorNumber code = 21 then .ok .ofDirectory else .error .notDirectory
  | .invalidArgument _ code _ =>
    if errorNumber code = 36 then .error .nameTooLong else .error ⟨.other, toString failure⟩
  | _ => .error ⟨.other, toString failure⟩

def openImage (path : String) : IO (Except Fault Source) := do
  try
    return .ok (.ofFile (← IO.FS.readBinFile path))
  catch failure =>
    return sourceOfFailure failure

/-- Digests are SHA-256, and no log is kept. -/
def services : Command.Services where
  digest := sha256
  log _ _ := []

end Apfs

def main (words : List String) : IO UInt32 := do
  let image ← match Apfs.Arguments.parse words with
    | .ok request => Apfs.openImage request.image
    | .error _ => pure (.error .notFound)
  let outcome := Apfs.Command.run Apfs.services (fun _ => image) words
  IO.print outcome.output
  IO.eprint outcome.errorText
  return outcome.exitCode.toUInt32
