import Apfs.Record.Basic

/-!
# Entry slots

Each slot of the entry table tells where one key and its value are. Keys are counted forward from
the end of the table and values backward from the footer.
-/

namespace Apfs

structure EntrySlot where
  keyOffset : UInt16
  keySize : UInt16
  valueOffset : UInt16
  valueSize : UInt16
deriving DecidableEq, Repr

instance : Record EntrySlot where
  name := "entry descriptor"
  size := 8
  ofBlock b i h := {
    keyOffset := b.u16 i (by omega)
    keySize := b.u16 (i + 2) (by omega)
    valueOffset := b.u16 (i + 4) (by omega)
    valueSize := b.u16 (i + 6) (by omega) }
  toBytes r :=
    LittleEndian.bytes 2 r.keyOffset.toNat ++ LittleEndian.bytes 2 r.keySize.toNat ++
    LittleEndian.bytes 2 r.valueOffset.toNat ++ LittleEndian.bytes 2 r.valueSize.toNat

end Apfs
