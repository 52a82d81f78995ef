import Dmn.Model.View
import Dmn.Verification.Cursor.Reading

/-! # The entry buffer

The buffer of a read holds its entries one after the other. Decoding it gives back the
entries, each without the columns that hold no byte. -/

namespace Dmn.View

open Exec Cursor

/-! ## Entries -/

/-- The size of the item table with its values. -/
def tableLength (columns : List (List UInt8)) : ℕ :=
  4 + 2 * columns.length + columns.flatten.length

def lengthBytes (columns : List (List UInt8)) : List UInt8 :=
  columns.flatMap fun column => integerBytes 2 column.length

/-- The note id, the header of the item table, the lengths of the items, and their values. -/
def entryBytes (entry : Entry) : List UInt8 :=
  integerBytes 4 entry.noteid.toNat ++ (integerBytes 2 (tableLength entry.columns) ++
    (integerBytes 2 entry.columns.length ++ (lengthBytes entry.columns ++
      entry.columns.flatten)))

/-- The entry as it reaches the callback. -/
def Entry.withoutEmpty (entry : Entry) : Entry :=
  ⟨entry.noteid, entry.columns.filter (· ≠ [])⟩

@[simp] theorem length_lengthBytes (columns : List (List UInt8)) :
    (lengthBytes columns).length = 2 * columns.length := by
  induction columns with
  | nil => rfl
  | cons column columns ih =>
      simp only [lengthBytes, List.flatMap_cons, List.length_append] at ih ⊢
      rw [ih, length_integerBytes, List.length_cons]
      omega

theorem exec_readLengths {columns : List (List UInt8)} {c : Cursor} {rest : List UInt8}
    (hsize : ∀ column ∈ columns, column.length < 2 ^ 16)
    (h : c.Before (lengthBytes columns ++ rest)) :
    exec (readLengths columns.length) c =
      (.ok (columns.map List.length), c.advanced (2 * columns.length)) := by
  induction columns generalizing c with
  | nil => simp [readLengths]
  | cons column columns ih =>
      have hsplit : lengthBytes (column :: columns) ++ rest =
          integerBytes 2 column.length ++ (lengthBytes columns ++ rest) := by
        simp [lengthBytes]
      rw [hsplit] at h
      have hfirst := exec_readInteger (hsize column List.mem_cons_self) h
      have hrest := ih (fun x hx => hsize x (List.mem_cons_of_mem _ hx))
        (before_integer h)
      rw [List.length_cons, readLengths, exec_bind_of_ok hfirst, exec_bind_of_ok hrest,
        exec_pure, advanced_advanced, List.map_cons]
      congr 2
      omega

theorem exec_readItems {columns : List (List UInt8)} {c : Cursor} {rest : List UInt8}
    (h : c.Before (columns.flatten ++ rest)) :
    exec (readItems (columns.map List.length)) c =
      (.ok (columns.filter (· ≠ [])), c.advanced columns.flatten.length) := by
  induction columns generalizing c with
  | nil => simp [readItems]
  | cons column columns ih =>
      rw [List.flatten_cons, List.append_assoc] at h
      by_cases hempty : column = []
      · subst hempty
        simpa [readItems] using ih h
      · have hlen : column.length ≠ 0 := by simpa using hempty
        have hload := exec_load_of_before h
        have hadvance : exec (advanceOffset (UInt64.ofNat column.length)) c =
            (.ok (), c.advanced column.length) := rfl
        have hrest := ih h.advanced
        rw [List.map_cons, readItems, if_neg hlen, exec_bind_of_ok hload,
          exec_bind_of_ok hadvance, exec_bind_of_ok hrest, exec_pure, advanced_advanced]
        simp [hempty]

theorem length_entryBytes (entry : Entry) :
    (entryBytes entry).length = 4 + tableLength entry.columns := by
  simp only [entryBytes, List.length_append, length_integerBytes, length_lengthBytes,
    tableLength]
  omega

theorem exec_readEntry {entry : Entry} {c : Cursor} {rest : List UInt8}
    (hsize : tableLength entry.columns < 2 ^ 16) (h : c.Before (entryBytes entry ++ rest)) :
    exec readEntry c = (.ok entry.withoutEmpty, c.advanced (entryBytes entry).length) := by
  have hcolumns : ∀ column ∈ entry.columns, column.length < 2 ^ 16 := by
    intro column hcolumn
    have hle := (List.sublist_flatten_of_mem hcolumn).length_le
    unfold tableLength at hsize
    omega
  have hcount : entry.columns.length < 256 ^ 2 := by
    unfold tableLength at hsize
    omega
  simp only [entryBytes, List.append_assoc] at h
  have hnoteid := exec_readInteger entry.noteid.toNat_lt h
  have h₁ := before_integer h
  have hlength := exec_readInteger hsize h₁
  have h₂ := before_integer h₁
  have hitems := exec_readInteger hcount h₂
  have h₃ := before_integer h₂
  have hlengths := exec_readLengths hcolumns h₃
  have h₄ := h₃.advanced
  rw [length_lengthBytes] at h₄
  have hvalues := exec_readItems h₄
  -- the last step goes back to the length in the header, which agrees
  have hoffset (d : Cursor) (hd : d.buffer = c.buffer) :
      exec (setOffset ((c.advanced 4).offset + UInt64.ofNat (tableLength entry.columns))) d =
        (.ok (), c.advanced (entryBytes entry).length) := by
    rw [length_entryBytes, ← advanced_advanced]
    simp only [setOffset, exec_modify, hd]
    rfl
  rw [readEntry, exec_bind_of_ok hnoteid, exec_bind_of_ok (exec_get _),
    exec_bind_of_ok hlength, exec_bind_of_ok hitems, exec_bind_of_ok hlengths,
    exec_bind_of_ok hvalues, exec_bind, hoffset]
  · simp [Entry.withoutEmpty]
  · rfl

end Dmn.View
