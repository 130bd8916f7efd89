import Apfs.Node.Decode
import Apfs.NodeError
import Apfs.ObjectChecksum

/-!
# Located nodes

A located node is what remains of a node once its block is let go: where it was read, its headers
and footer, and its entries with their bytes. `decode` makes one of a block, on demand only after
the block has proved to match its checksum.
-/

namespace Apfs

structure LocatedNode where
  location : Location
  object : ObjectHeader
  header : NodeHeader
  footer : NodeFooter
  /-- Where each record is within the block. -/
  entries : List Entry
  records : List KeyValue
deriving DecidableEq

namespace LocatedNode

def ofNode (location : Location) (n : Node) : LocatedNode where
  location := location
  object := n.object
  header := n.header
  footer := n.footer
  entries := n.entries
  records := n.records

/-- Decodes the block at a location. The location is for the record only: nothing in the block
has to agree with it. -/
def decode (location : Location) (b : Block) (verify : Bool) : Except NodeError LocatedNode :=
  Except.mapError (NodeError.decode location) do
    if verify then b.verifyChecksum
    let node ← Node.decode b
    return ofNode location node

end LocatedNode

end Apfs
