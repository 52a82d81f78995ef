import Dmn.Verification.View.Iteration

/-! # Columns of an entry

The callback gets the values of an entry in the order of its item table, without those that hold
no byte. They stand at the positions of their columns exactly when there is a byte in every
one. -/

namespace Dmn.View

open Exec Cursor

variable {Pos Note : Type} (visitor : Visitor Note)

/-- The calls of the callback end as the visits do. -/
theorem calls_delivered (s : State Pos Note) (es : List Entry) :
    (delivered visitor s es).2.calls = (deliver visitor es s.calls).2 := by
  unfold delivered
  rcases deliver visitor es s.calls with ⟨_ | error, calls⟩ <;> rfl

/-- The note of an entry, if it can be opened, with a value at the position of every column. -/
def inPlace (visitor : Visitor Note) (e : Entry) : Option (Note × List (List UInt8)) :=
  (openNote visitor e).map fun note => (note, e.columns)

theorem seen_eq_inPlace_iff (e : Entry) :
    seen visitor e = inPlace visitor e ↔
      (openNote visitor e ≠ none → ∀ column ∈ e.columns, column ≠ []) := by
  unfold seen inPlace
  cases openNote visitor e with
  | none => simp
  | some note => simp [Entry.withoutEmpty, List.filter_eq_self]

/-- Both lists have a value for the same entries, so that they agree only entry by entry. -/
theorem filterMap_seen_eq_iff (es : List Entry) :
    es.filterMap (seen visitor) = es.filterMap (inPlace visitor) ↔
      ∀ e ∈ es, seen visitor e = inPlace visitor e := by
  induction es with
  | nil => simp
  | cons e es ih =>
      rw [List.forall_mem_cons, ← ih, List.filterMap_cons, List.filterMap_cons]
      unfold seen inPlace
      cases openNote visitor e with
      | none => simp
      | some note => simp

/-- The entries of a buffer up to the first one where an exception is thrown. -/
def visited (visitor : Visitor Note) (chunk : List Entry) (s : State Pos Note) : List Entry :=
  chunk.take (visits visitor chunk s.calls)

/-- What the callback gets from a buffer with these entries. -/
structure ColumnsSpec (visitor : Visitor Note) (chunk : List Entry) (s : State Pos Note)
    (calls : List (Note × List (List UInt8))) : Prop where
  calls_eq : calls = s.calls ++ (visited visitor chunk s).filterMap fun e =>
    (openNote visitor e).map fun note => (note, e.columns.filter (· ≠ []))
  in_place_iff : calls = s.calls ++ (visited visitor chunk s).filterMap (inPlace visitor) ↔
    ∀ e ∈ visited visitor chunk s, openNote visitor e ≠ none → ∀ column ∈ e.columns, column ≠ []

/-- Every call gets the values of its entry that are not empty, in the order of the columns. -/
theorem readEntries_columns {chunk : List Entry}
    (hsize : ∀ e ∈ chunk, tableLength e.columns < 2 ^ 16)
    (hsmall : (chunk.flatMap entryBytes).length < 2 ^ 16) (s : State Pos Note) :
    ColumnsSpec visitor chunk s (exec (readEntries visitor chunk.length
      (Cursor.make (some (chunk.flatMap entryBytes)))) s).2.calls := by
  rw [exec_readEntries visitor hsize (before_make hsmall), calls_delivered, deliver_calls]
  refine ⟨rfl, ?_⟩
  unfold visited
  rw [List.append_cancel_left_eq, filterMap_seen_eq_iff]
  exact forall₂_congr fun e _ => seen_eq_inPlace_iff visitor e

/-- An entry with an empty column between two others. -/
def gapped : List Entry := [⟨1, [[0x61], [], [0x62]]⟩]

theorem readEntries_columns_gapped :
    ColumnsSpec idVisitor gapped (⟨(), [], []⟩ : State Unit UInt32)
      (exec (readEntries idVisitor gapped.length
        (Cursor.make (some (gapped.flatMap entryBytes)))) ⟨(), [], []⟩).2.calls :=
  readEntries_columns idVisitor (by decide) (by decide) ⟨(), [], []⟩

/-- The value of the third column is at the second position. -/
theorem not_in_place_gapped :
    (exec (readEntries idVisitor gapped.length
        (Cursor.make (some (gapped.flatMap entryBytes)))) (⟨(), [], []⟩ : State Unit UInt32)).2.calls =
      [(1, [[0x61], [0x62]])] ∧
    ¬ ∀ (visitor : Visitor UInt32) (chunk : List Entry) (s : State Unit UInt32),
      (∀ e ∈ chunk, tableLength e.columns < 2 ^ 16) → (chunk.flatMap entryBytes).length < 2 ^ 16 →
        (exec (readEntries visitor chunk.length
          (Cursor.make (some (chunk.flatMap entryBytes)))) s).2.calls =
            s.calls ++ (visited visitor chunk s).filterMap (inPlace visitor) := by
  refine ⟨by decide, fun h => ?_⟩
  have hgapped := h idVisitor gapped ⟨(), [], []⟩ (by decide) (by decide)
  revert hgapped
  decide

end Dmn.View
