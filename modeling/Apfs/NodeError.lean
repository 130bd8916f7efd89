import Apfs.Defect
import Apfs.FetchError
import Apfs.Location

/-!
# Node errors

A node is not read because its block could not be fetched or because the block is defective.
Either way the error tells where the node was to be found.
-/

namespace Apfs

open Numeral (decimal hexadecimal)

inductive NodeError
  | fetch (location : Location) (cause : FetchError)
  | decode (location : Location) (cause : Defect)
deriving DecidableEq, Repr

namespace NodeError

def location : NodeError → Location
  | fetch location _ | decode location _ => location

def kind : NodeError → ErrorKind
  | fetch _ cause => cause.kind
  | decode _ cause => cause.kind

/-- The message of the failure at the location, without the location. -/
def causeMessage : NodeError → String
  | fetch _ cause => cause.message
  | decode _ cause => cause.message

def message (e : NodeError) : String :=
  "node at offset " ++ hexadecimal e.location.offset.toNat ++ " (block size "
    ++ decimal e.location.blockSize.toNat ++ "): " ++ e.causeMessage

/-- The messages of the failures beneath this one, outermost first. -/
def causes : NodeError → List String
  | fetch _ cause => cause.message :: cause.causes
  | decode _ cause => [cause.message]

end NodeError

end Apfs
