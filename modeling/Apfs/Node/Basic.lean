import Apfs.Block
import Apfs.Record.NodeFooter
import Apfs.Record.NodeHeader
import Apfs.Record.ObjectHeader

/-!
# Nodes

A node of a file-system tree is one block, laid out as

```text
object header | node header | entry table | keys ... free ... values | footer
```

with keys and values growing toward each other. A decoded node keeps its block and knows of each
entry where its key and value are. Both lie inside the block by type, so the bytes of all entries
can be had without a further check.
-/

namespace Apfs

/-- Where the key and the value of an entry are. -/
structure Entry where
  key : Span
  value : Span
deriving DecidableEq

def Entry.Fits (e : Entry) (size : UInt64) : Prop :=
  e.key.stop ≤ size ∧ e.value.stop ≤ size

/-- The bytes of an entry. -/
structure KeyValue where
  key : ByteArray
  value : ByteArray
deriving DecidableEq

structure Node where
  block : Block
  object : ObjectHeader
  header : NodeHeader
  footer : NodeFooter
  /-- The entries in the order of the entry table. -/
  entries : List Entry
  fits : ∀ e ∈ entries, e.Fits block.size

namespace Node

def length (n : Node) : Nat := n.entries.length

def isEmpty (n : Node) : Bool := n.entries.isEmpty

/-- The key bytes of the entry at an index, if there is one. -/
def key? (n : Node) (i : Nat) : Option ByteArray :=
  n.entries[i]?.bind (·.key.extract? n.block.bytes)

/-- The value bytes of the entry at an index, if there is one. -/
def value? (n : Node) (i : Nat) : Option ByteArray :=
  n.entries[i]?.bind (·.value.extract? n.block.bytes)

/-- The bytes of an entry that fits into the block. -/
def record (b : Block) (e : Entry) (h : e.Fits b.size) : KeyValue where
  key := b.cut e.key h.1
  value := b.cut e.value h.2

/-- The bytes of every entry, in the order of the entry table. -/
def records (n : Node) : List KeyValue :=
  n.entries.pmap (record n.block) n.fits

/-- Walks over the entries and takes the key and the value of each, and comes to an end only if all
of them are there. -/
def walk? (n : Node) : Option (List (ByteArray × ByteArray)) :=
  n.entries.mapM fun e => do return (← n.block.take? e.key, ← n.block.take? e.value)

end Node

end Apfs
