import Apfs.LocatedNode
import Apfs.Source.Fetch

/-!
# Reading nodes from a source

Blocks and nodes are read by location, and every failure is reported with that location.
-/

namespace Apfs.Source

/-- The block at a location, whatever it holds. -/
def readBlock (s : Source) (location : Location) : Except NodeError Block × Source :=
  (s.fetch location.offset location.blockSize).map (Except.mapError (.fetch location)) id

/-- The node at a location. -/
def readNode (s : Source) (location : Location) (verify : Bool) :
    Except NodeError LocatedNode × Source :=
  (s.readBlock location).map (· >>= (LocatedNode.decode location · verify)) id

end Apfs.Source
