import Apfs.Block
import Apfs.FetchError

/-!
# Sources

A source is a byte string with a position, which can be moved to any offset within its reach and
from which bytes are read in pieces. Real sources hand out fewer bytes than they are asked for,
and fail now and then. Such behaviour is scripted: each call takes the next element of its script
as long as there is one, and goes without incident once the script is used up.
-/

namespace Apfs

/-- What happens to a call of `Source.read`. -/
inductive ReadEvent
  /-- At most `n` bytes are handed out. -/
  | limit (n : Nat)
  /-- The call fails without moving the position. -/
  | fail (fault : Fault)
deriving DecidableEq, Repr

structure Source where
  bytes : ByteArray
  position : Nat
  /-- The script of the coming reads. -/
  reads : List ReadEvent
  /-- The script of the coming seeks, each with the fault that it meets, if any. -/
  seeks : List (Option Fault)
  /-- The offset from which on no position is possible. -/
  reach : Nat
deriving DecidableEq

namespace Source

/-- A source in memory, which can be positioned at every offset. -/
def ofBytes (bytes : ByteArray) : Source := ⟨bytes, 0, [], [], UInt64.size⟩

/-- A file, which can be positioned at the lower half of all offsets only. -/
def ofFile (bytes : ByteArray) : Source := ⟨bytes, 0, [], [], UInt64.size / 2⟩

/-- A directory, which can be opened and positioned like a file, but not read. -/
def ofDirectory : Source := ⟨.empty, 0, [.fail .isDirectory], [], UInt64.size / 2⟩

/-- Moves to an offset that need not be within the bytes. -/
def moveTo (s : Source) (offset : UInt64) : Except Fault Unit × Source :=
  if offset.toNat < s.reach then (.ok (), { s with position := offset.toNat })
  else (.error .invalidPosition, s)

def seek (s : Source) (offset : UInt64) : Except Fault Unit × Source :=
  match s.seeks with
  | [] => s.moveTo offset
  | none :: seeks => { s with seeks }.moveTo offset
  | some fault :: seeks => (.error fault, { s with seeks })

/-- Hands out the bytes at the position, `n` of them unless the bytes end before. -/
def advance (s : Source) (n : Nat) : ByteArray × Source :=
  let chunk := s.bytes.extract s.position (s.position + n)
  (chunk, { s with position := s.position + chunk.size })

def read (s : Source) (n : Nat) : Except Fault ByteArray × Source :=
  match s.reads with
  | [] => (s.advance n).map .ok id
  | .limit m :: reads => ({ s with reads }.advance (min m n)).map .ok id
  | .fail fault :: reads => (.error fault, { s with reads })

/-- Overwrites the bytes from an offset on, without moving the position. -/
def write (s : Source) (offset : Nat) (bytes : ByteArray) : Source :=
  { s with
    bytes := s.bytes.extract 0 offset ++ bytes
      ++ s.bytes.extract (offset + bytes.size) s.bytes.size }

end Source

end Apfs
