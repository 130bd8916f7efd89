import Apfs.Hexdump
import Apfs.Proofs.Hex

/-!
# Dumps are read back

A dump has a row for every sixteen bytes, and one for what is left. Each row is read back from its
line: the offset, which ends at the first space, and the bytes behind it, each behind a space of its
own. The bytes of the rows put together are the byte string, so no two byte strings have one dump.
-/

namespace Apfs.Hexdump

/-! ## Rows -/

/-- Rows that show a byte string: as many as it takes, in order, all of them full except that the
last may be shorter, and with all of the bytes. -/
structure Shows (l : List Row) (bytes : List UInt8) : Prop where
  length : l.length = (bytes.length + 15) / 16
  offset (i : Nat) (r : Row) : l[i]? = some r → r.offset = 16 * i
  inhabited (i : Nat) (r : Row) : l[i]? = some r → 1 ≤ r.bytes.length ∧ r.bytes.length ≤ 16
  full (i : Nat) (r : Row) : l[i]? = some r → i + 1 < l.length → r.bytes.length = 16
  bytes : l.flatMap Row.bytes = bytes

/-- The rows of a byte string, by their numbers. -/
theorem rows_eq_map_range (offset : Nat) (bytes : List UInt8) :
    rows offset bytes = (List.range ((bytes.length + 15) / 16)).map fun r =>
      ⟨offset + 16 * r, (bytes.drop (16 * r)).take 16⟩ := by
  fun_induction rows offset bytes with
  | case1 => rfl
  | case2 offset b bytes ih =>
    have count : ((b :: bytes).length + 15) / 16 = ((bytes.drop 15).length + 15) / 16 + 1 := by
      simp only [List.length_cons, List.length_drop]
      omega
    rw [ih, count, List.range_succ_eq_map, List.map_cons, List.map_map]
    congr 1
    refine List.map_congr_left fun r _ => ?_
    simp only [Function.comp_apply, Row.mk.injEq, List.drop_drop]
    refine ⟨by omega, ?_⟩
    rw [show 16 * r.succ = 15 + 16 * r + 1 by omega, List.drop_succ_cons]

theorem flatMap_rows (offset : Nat) (bytes : List UInt8) :
    (rows offset bytes).flatMap Row.bytes = bytes := by
  fun_induction rows offset bytes with
  | case1 => rfl
  | case2 offset b bytes ih =>
    rw [List.flatMap_cons, ih, List.cons_append, List.take_append_drop]

theorem length_rows (offset : Nat) (bytes : List UInt8) :
    (rows offset bytes).length = (bytes.length + 15) / 16 := by
  rw [rows_eq_map_range, List.length_map, List.length_range]

theorem getElem?_rows {offset i : Nat} {bytes : List UInt8} {r : Row}
    (h : (rows offset bytes)[i]? = some r) :
    16 * i < bytes.length ∧ r = ⟨offset + 16 * i, (bytes.drop (16 * i)).take 16⟩ := by
  have bound := (List.getElem?_eq_some_iff.mp h).1
  rw [length_rows] at bound
  rw [rows_eq_map_range, List.getElem?_map, List.getElem?_range bound, Option.map_some] at h
  exact ⟨by omega, (Option.some.inj h).symm⟩

theorem shows_rows (bytes : List UInt8) : Shows (rows 0 bytes) bytes where
  length := length_rows 0 bytes
  offset i r row := by
    obtain ⟨-, rfl⟩ := getElem?_rows row
    simp
  inhabited i r row := by
    obtain ⟨inside, rfl⟩ := getElem?_rows row
    simp only [List.length_take, List.length_drop]
    omega
  full i r row next := by
    obtain ⟨-, rfl⟩ := getElem?_rows row
    rw [length_rows] at next
    simp only [List.length_take, List.length_drop]
    omega
  bytes := flatMap_rows 0 bytes

theorem bytes_ne_nil_of_mem_rows {offset : Nat} {bytes : List UInt8} {r : Row}
    (h : r ∈ rows offset bytes) : r.bytes ≠ [] := by
  obtain ⟨i, row⟩ := List.getElem?_of_mem h
  obtain ⟨inside, rfl⟩ := getElem?_rows row
  simpa using inside

/-! ## Lines -/

/-- Reads bytes, each of two digits behind a space. -/
def spacedBytes? : List Char → Option (List UInt8)
  | [] => some []
  | ' ' :: high :: low :: cs => do
    return (← Hex.decodeChars? [high, low]) ++ (← spacedBytes? cs)
  | _ => none

/-- Reads a line as a row: a tab, an offset of at least eight digits, a space, and bytes. -/
def Row.ofText? (line : String) : Option Row :=
  match line.toList with
  | '\t' :: cs =>
    let offset := cs.takeWhile (· != ' ')
    match cs.dropWhile (· != ' ') with
    | ' ' :: bytes =>
      if 8 ≤ offset.length then do
        return ⟨← Hex.value? offset, ← spacedBytes? bytes⟩
      else none
    | _ => none
  | _ => none

theorem spacedBytes?_flatMap (bytes : List UInt8) :
    spacedBytes? (bytes.flatMap fun b => ' ' :: Hex.digits b) = some bytes := by
  induction bytes with
  | nil => rfl
  | cons b bytes ih =>
    have byte : Hex.decodeChars? (Hex.digits b) = some [b] := by
      rw [← List.append_nil (Hex.digits b), Hex.decodeChars?_digits_append]
      rfl
    rw [List.flatMap_cons]
    simp only [Hex.digits] at byte ih ⊢
    simp [spacedBytes?, byte, ih]

theorem cons_intercalate_digits {bytes : List UInt8} (h : bytes ≠ []) :
    ' ' :: [' '].intercalate (bytes.map Hex.digits)
      = bytes.flatMap fun b => ' ' :: Hex.digits b := by
  induction bytes with
  | nil => exact absurd rfl h
  | cons b bytes ih =>
    cases bytes with
    | nil => simp [List.intercalate]
    | cons b' bytes =>
      rw [List.flatMap_cons, ← ih (List.cons_ne_nil _ _)]
      simp [List.intercalate]

theorem Row.toList_text {r : Row} (h : r.bytes ≠ []) :
    r.text.toList = '\t' :: (Numeral.hexDigits 8 r.offset
      ++ ' ' :: r.bytes.flatMap fun b => ' ' :: Hex.digits b) := by
  rw [← cons_intercalate_digits h]
  simp [text]

theorem Row.ofText?_text {r : Row} (h : r.bytes ≠ []) : ofText? r.text = some r := by
  have digits : ∀ c ∈ Numeral.hexDigits 8 r.offset, (c != ' ') = true := by
    intro c member
    have others : Hex.alphabet.all (· != ' ') := by decide
    exact List.all_eq_true.mp others c (Hex.mem_alphabet_of_mem_hexDigits member)
  simp only [ofText?, toList_text h, List.takeWhile_append_of_pos digits,
    List.dropWhile_append_of_pos digits]
  simp [Hex.le_length_hexDigits, Hex.value?_hexDigits, spacedBytes?_flatMap]

theorem mapM_ofText?_text {l : List Row} (h : ∀ r ∈ l, r.bytes ≠ []) :
    (l.map Row.text).mapM Row.ofText? = some l := by
  induction l with
  | nil => rfl
  | cons r l ih =>
    have first := Row.ofText?_text (h r (List.mem_cons_self ..))
    have rest := ih fun r' member => h r' (List.mem_cons_of_mem r member)
    rw [List.map_cons, List.mapM_cons, first, rest]
    rfl

theorem mapM_ofText?_lines (bytes : List UInt8) :
    (lines bytes).mapM Row.ofText? = some (rows 0 bytes) :=
  mapM_ofText?_text fun _ member => bytes_ne_nil_of_mem_rows member

/-- Byte strings with one dump are one byte string. -/
theorem lines_inj {bytes bytes' : List UInt8} (same : lines bytes = lines bytes') :
    bytes = bytes' := by
  have shown := mapM_ofText?_lines bytes
  rw [same, mapM_ofText?_lines] at shown
  rw [← flatMap_rows 0 bytes, ← Option.some.inj shown, flatMap_rows]

end Apfs.Hexdump
