import Apfs.Source.Node

/-!
# Sessions

A session is a series of steps on one source: blocks and nodes are read from it, and its bytes
are overwritten in between. Each step leaves the source behind for the next.
-/

namespace Apfs

inductive Step
  | fetch (offset : UInt64) (blockSize : UInt32)
  | readBlock (location : Location)
  | readNode (location : Location) (verify : Bool)
  /-- Reads the node in a numbered block of a volume. -/
  | readNumbered (volumeOffset number : UInt64) (blockSize : UInt32) (verify : Bool)
  | write (offset : Nat) (bytes : ByteArray)
deriving DecidableEq

namespace Step

inductive Answer
  | fetched (result : Except FetchError Block)
  | block (result : Except NodeError Block)
  | node (result : Except NodeError LocatedNode)
  /-- The numbered block has no location. -/
  | nowhere
  | written

def run (s : Source) : Step → Answer × Source
  | fetch offset blockSize => (s.fetch offset blockSize).map .fetched id
  | readBlock location => (s.readBlock location).map .block id
  | readNode location verify => (s.readNode location verify).map .node id
  | readNumbered volumeOffset number blockSize verify =>
    match Location.ofBlock? volumeOffset number blockSize with
    | none => (.nowhere, s)
    | some location => (s.readNode location verify).map .node id
  | write offset bytes => (.written, s.write offset bytes)

end Step

/-- The answers of the steps of a session, each with the source as the step leaves it. -/
def session (s : Source) : List Step → List (Step.Answer × Source)
  | [] => []
  | step :: steps => step.run s :: session (step.run s).2 steps

end Apfs
