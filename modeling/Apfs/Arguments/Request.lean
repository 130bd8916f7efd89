import Apfs.Arguments.Item
import Apfs.BlockSize
import Apfs.Location

/-!
# Requests

A command line asks for one node of one image. Its items are accepted from left to right, and the
first that is wrong decides the error. Only a command line without a wrong item is then judged as
a whole: it must say something, must not contradict itself, and must name an image and a node.
-/

namespace Apfs.Arguments

/-- How the node is addressed within the image. -/
inductive Address
  /-- A numbered block of a volume. -/
  | block (volumeOffset number : UInt64)
  | absolute (offset : UInt64)
deriving DecidableEq, Repr

structure Request where
  image : String
  address : Address
  blockSize : UInt32
  verifyChecksum : Bool
  hexdump : Bool
  /-- How often more detail was asked for, as far as a byte can count. -/
  verbosity : UInt8
deriving DecidableEq, Repr

/-- Where the requested node is, if its offset is a machine word. -/
def Request.location? (r : Request) : Option Location :=
  match r.address with
  | .block volumeOffset number => Location.ofBlock? volumeOffset number r.blockSize
  | .absolute offset => some ⟨offset, r.blockSize⟩

/-- What the items of a command line have given so far. -/
structure Given where
  image : Option String := none
  volumeOffset : Option UInt64 := none
  block : Option UInt64 := none
  nodeOffset : Option UInt64 := none
  blockSize : Option UInt32 := none
  verifyChecksum : Bool := false
  hexdump : Bool := false
  verbosity : UInt8 := 0
deriving DecidableEq, Repr

namespace Given

def readWord (text : String) : Except UsageError UInt64 :=
  match Numeral.read (UInt64.size - 1) text with
  | .ok n => .ok (.ofNat n)
  | .error _ => .error .invalidValue

def readBlockSize (text : String) : Except UsageError UInt32 :=
  match BlockSize.read text with
  | .ok n => .ok n
  | .error _ => .error .invalidValue

/-- Refuses what is given a second time. -/
def once (given : Bool) : Except UsageError Unit :=
  if given then .error .conflict else .ok ()

def set (g : Given) (text : String) : Setting → Except UsageError Given
  | .volumeOffset => do
    once g.volumeOffset.isSome
    return { g with volumeOffset := some (← readWord text) }
  | .block => do
    once g.block.isSome
    return { g with block := some (← readWord text) }
  | .nodeOffset => do
    once g.nodeOffset.isSome
    return { g with nodeOffset := some (← readWord text) }
  | .blockSize => do
    once g.blockSize.isSome
    return { g with blockSize := some (← readBlockSize text) }

def raise (g : Given) : Flag → Except UsageError Given
  | .verifyChecksum => do
    once g.verifyChecksum
    return { g with verifyChecksum := true }
  | .hexdump => do
    once g.hexdump
    return { g with hexdump := true }
  | .verbose => return { g with verbosity := if g.verbosity = 255 then 255 else g.verbosity + 1 }
  | .help => throw .helpRequested

def apply (g : Given) : Item → Except UsageError Given
  | .image text => if text = "" then .error .missingValue else .ok { g with image := some text }
  | .attached setting text | .separate setting (some text) => g.set text setting
  | .separate _ none => .error .missingValue
  | .flag flag => g.raise flag
  | .refused error => .error error

/-- Applies items from left to right. A refused item comes before an error in the item in front
of it that is looked at only then. -/
def accept (g : Given) : List Item → Except UsageError Given
  | [] => .ok g
  | item :: items =>
    match item.isDeferred, items with
    | true, .refused error :: _ => .error error
    | _, _ => do (← g.apply item).accept items

/-- The request for a node of an image, with everything else as given or else as usual. -/
def requestAt (g : Given) (image : String) (address : Address) : Request where
  image := image
  address := address
  blockSize := g.blockSize.getD BlockSize.standard
  verifyChecksum := g.verifyChecksum
  hexdump := g.hexdump
  verbosity := g.verbosity

/-- Judges a command line as a whole. -/
def request (g : Given) : Except UsageError Request := do
  if g = {} then throw .nothingGiven
  if g.nodeOffset.isSome ∧ (g.block.isSome ∨ g.volumeOffset.isSome) then throw .conflict
  match g.image, g.block, g.nodeOffset with
  | some image, some number, none =>
    return g.requestAt image (.block (g.volumeOffset.getD 0) number)
  | some image, none, some offset => return g.requestAt image (.absolute offset)
  | _, _, _ => throw .missingArgument

end Given

/-- The request that the words of a command line make. -/
def parse (words : List String) : Except UsageError Request := do
  (← Given.accept {} (Item.ofWords words)).request

end Apfs.Arguments
