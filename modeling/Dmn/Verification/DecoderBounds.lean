import Dmn.Verification.ValueTypes
import Dmn.Verification.View.Iteration

/-! # Lengths stored in the data

`as_string` and the iteration over view entries check the bounds of the lengths that they read,
and not those of the bytes that these lengths are about. They stay inside the buffer exactly when
each table of lengths that is complete has its values behind it. -/

namespace Dmn.Decoder

open Exec Cursor

/-- The program has not read outside of the buffer. -/
def InBounds {σ α : Type} (result : Except Stop α × σ) : Prop := result.1 ≠ .error .undefined

theorem inBounds_ok {σ α : Type} (a : α) (s : σ) : InBounds (.ok a, s) := nofun

theorem inBounds_throws {σ α : Type} (error : Error) (s : σ) :
    InBounds ((.error (.throws error), s) : Except Stop α × σ) := nofun

theorem not_inBounds {σ α : Type} (s : σ) :
    ¬ InBounds ((.error .undefined, s) : Except Stop α × σ) := fun h => h rfl

/-- A program that goes on after its first part has returned. -/
theorem inBounds_bind {σ α β : Type} {x : Exec Stop σ α} {f : α → Exec Stop σ β} {s : σ}
    (hx : InBounds (exec x s)) (hf : ∀ a t, exec x s = (.ok a, t) → InBounds (exec (f a) t)) :
    InBounds (exec (x >>= f) s) := by
  rw [exec_bind]
  rcases hresult : exec x s with ⟨stop | a, t⟩
  · rw [hresult] at hx
    exact fun h => hx (by cases h; rfl)
  · exact hf a t hresult

theorem inBounds_of_bind {σ α β : Type} {x : Exec Stop σ α} {f : α → Exec Stop σ β} {s : σ}
    (h : InBounds (exec (x >>= f) s)) : InBounds (exec x s) := by
  intro hx
  rcases hresult : exec x s with ⟨stop | a, t⟩ <;> rw [hresult] at hx
  · cases hx
    rw [exec_bind_of_error hresult] at h
    exact h rfl
  · cases hx

theorem inBounds_pure_iff {σ α β : Type} (x : Exec Stop σ α) (g : α → β) (s : σ) :
    InBounds (exec (x >>= fun a => pure (g a)) s) ↔ InBounds (exec x s) :=
  ⟨inBounds_of_bind, fun h => inBounds_bind h fun a t _ => inBounds_ok (g a) t⟩

/-! ## Tables of lengths -/

/-- The lengths in a table at an offset. -/
def lengthsAt (buffer : List UInt8) (offset count : ℕ) : List ℕ :=
  TextList.readLengths count (buffer.drop offset)

/-- A table of lengths at an offset, if it is in the buffer, has all its values there. -/
def TableFits (buffer : List UInt8) (offset count : ℕ) : Prop :=
  offset + 2 * count ≤ buffer.length →
    offset + 2 * count + (lengthsAt buffer offset count).sum ≤ buffer.length

variable {buffer : List UInt8} {offset count : ℕ}

theorem wordAt_lt (buffer : List UInt8) (offset : ℕ) : wordAt buffer offset < 2 ^ 16 := by
  have hlt := littleEndian_lt ((buffer.drop offset).take 2)
  have hle : ((buffer.drop offset).take 2).length ≤ 2 := List.length_take_le _ _
  calc
    wordAt buffer offset < 256 ^ ((buffer.drop offset).take 2).length := hlt
    _ ≤ 256 ^ 2 := Nat.pow_le_pow_right (by decide) hle

theorem sum_lengthsAt_le (buffer : List UInt8) (offset count : ℕ) :
    (lengthsAt buffer offset count).sum ≤ count * 2 ^ 16 := by
  unfold lengthsAt
  induction count generalizing offset with
  | zero => simp [TextList.readLengths]
  | succ count ih =>
      have hword := wordAt_lt buffer offset
      have hrest := ih (offset + 2)
      rw [wordAt] at hword
      rw [TextList.readLengths, List.sum_cons, List.drop_drop, Nat.succ_mul]
      omega

variable (buffer) in
theorem exec_readWord {offset : ℕ} (h : offset + 2 < 2 ^ 64) :
    exec (readInteger 2) (cursorAt buffer offset) =
      if offset + 2 ≤ buffer.length then (.ok (wordAt buffer offset), cursorAt buffer (offset + 2))
      else (.error outOfRange, cursorAt buffer offset) :=
  exec_readInteger_cursorAt (by decide) h

theorem exec_readLengths_of_le (hsmall : offset + 2 * count < 2 ^ 64)
    (h : offset + 2 * count ≤ buffer.length) :
    exec (View.readLengths count) (cursorAt buffer offset) =
      (.ok (lengthsAt buffer offset count), cursorAt buffer (offset + 2 * count)) := by
  induction count generalizing offset with
  | zero => rfl
  | succ count ih =>
      have hfirst := exec_readWord buffer (show offset + 2 < 2 ^ 64 by omega)
      rw [if_pos (by omega)] at hfirst
      have hrest := @ih (offset + 2) (by omega) (by omega)
      rw [View.readLengths, exec_bind_of_ok hfirst, exec_bind_of_ok hrest, exec_pure, lengthsAt,
        lengthsAt, TextList.readLengths, List.drop_drop,
        show offset + 2 + 2 * count = offset + 2 * (count + 1) by omega]
      rfl

theorem exec_readLengths_of_lt (hsmall : offset + 2 * count < 2 ^ 64)
    (hle : offset ≤ buffer.length) (h : buffer.length < offset + 2 * count) :
    ∃ cs, exec (View.readLengths count) (cursorAt buffer offset) = (.error outOfRange, cs) := by
  induction count generalizing offset with
  | zero => omega
  | succ count ih =>
      have hfirst := exec_readWord buffer (show offset + 2 < 2 ^ 64 by omega)
      rw [View.readLengths]
      by_cases hfit : offset + 2 ≤ buffer.length
      · rw [if_pos hfit] at hfirst
        obtain ⟨cs, hrest⟩ := @ih (offset + 2) (by omega) hfit (by omega)
        exact ⟨cs, by rw [exec_bind_of_ok hfirst, exec_bind_of_error hrest]⟩
      · rw [if_neg hfit] at hfirst
        exact ⟨_, exec_bind_of_error hfirst⟩

/-! ## Values behind a table -/

/-- The program reads the bytes up to `stop` if they are in the buffer, and else out of it. -/
def ReadsTo {α : Type} (x : Cursor.M α) (buffer : List UInt8) (offset stop : ℕ) : Prop :=
  (stop ≤ buffer.length ∧ ∃ values,
    exec x (cursorAt buffer offset) = (.ok values, cursorAt buffer stop)) ∨
  (buffer.length < stop ∧ ∃ cs, exec x (cursorAt buffer offset) = (.error .undefined, cs))

/-- Values of these lengths are read one behind the other. -/
def ReadsValues {α : Type} (read : List ℕ → Cursor.M α) : Prop :=
  ∀ (buffer : List UInt8) (lengths : List ℕ) (offset : ℕ), offset ≤ buffer.length →
    offset + lengths.sum < 2 ^ 64 → ReadsTo (read lengths) buffer offset (offset + lengths.sum)

theorem exec_advanceOffset_cursorAt (buffer : List UInt8) (offset n : ℕ) :
    exec (advanceOffset (UInt64.ofNat n)) (cursorAt buffer offset) =
      (.ok (), cursorAt buffer (offset + n)) := by
  rw [← advanced_cursorAt]
  rfl

variable (buffer) in
theorem exec_loadValue {n : ℕ} (hle : offset ≤ buffer.length) (hsmall : offset + n < 2 ^ 64) :
    exec (load n) (cursorAt buffer offset) =
      if offset + n ≤ buffer.length then
        (.ok ((buffer.drop offset).take n), cursorAt buffer offset)
      else (.error .undefined, cursorAt buffer offset) := by
  have hiff : (n = 0 ∨ offset + n ≤ buffer.length) ↔ offset + n ≤ buffer.length := by omega
  rw [exec_load_cursorAt (Nat.lt_of_le_of_lt (Nat.le_add_right offset n) hsmall)]
  simp only [hiff]

/-- A value that is loaded without a check, with what follows. -/
theorem readsTo_value {α β : Type} {rest : Cursor.M α} {n stop : ℕ} (g : List UInt8 → α → β)
    (hle : offset ≤ buffer.length) (hsmall : offset + n < 2 ^ 64) (hstop : offset + n ≤ stop)
    (hrest : offset + n ≤ buffer.length → ReadsTo rest buffer (offset + n) stop) :
    ReadsTo (do
      let value ← load n
      advanceOffset (UInt64.ofNat n)
      let values ← rest
      pure (g value values)) buffer offset stop := by
  have hload := exec_loadValue buffer hle hsmall
  have hadvance := exec_advanceOffset_cursorAt buffer offset n
  unfold ReadsTo
  by_cases hfit : offset + n ≤ buffer.length
  · rw [if_pos hfit] at hload
    rw [exec_bind_of_ok hload, exec_bind_of_ok hadvance]
    rcases hrest hfit with ⟨hend, values, hvalues⟩ | ⟨hend, cs, hvalues⟩
    · exact .inl ⟨hend, _, by rw [exec_bind_of_ok hvalues, exec_pure]⟩
    · exact .inr ⟨hend, cs, exec_bind_of_error hvalues⟩
  · rw [if_neg hfit] at hload
    exact .inr ⟨by omega, _, exec_bind_of_error hload⟩

theorem readsValues_readTexts (env : NoteValue.Env) : ReadsValues (ValueImpl.readTexts env) := by
  intro buffer lengths
  induction lengths with
  | nil => exact fun offset hle _ => .inl ⟨hle, [], rfl⟩
  | cons length lengths ih =>
      intro offset hle hsmall
      rw [List.sum_cons, ← Nat.add_assoc] at hsmall ⊢
      exact readsTo_value _ hle (by omega) (by omega) fun hfit => ih (offset + length) hfit hsmall

theorem readsValues_readItems : ReadsValues View.readItems := by
  intro buffer lengths
  induction lengths with
  | nil => exact fun offset hle _ => .inl ⟨hle, [], rfl⟩
  | cons length lengths ih =>
      intro offset hle hsmall
      rw [List.sum_cons, ← Nat.add_assoc] at hsmall ⊢
      rw [View.readItems]
      by_cases hzero : length = 0
      · subst hzero
        exact ih offset hle hsmall
      · rw [if_neg hzero]
        exact readsTo_value _ hle (by omega) (by omega) fun hfit =>
          ih (offset + length) hfit hsmall

/-! ## Tables with their values -/

section Table

variable {α β : Type} {read : List ℕ → Cursor.M α} (f : α → Cursor.M β)

/-- The sums of the checks do not come round for tables of 16-bit counts. -/
theorem table_small (hoffset : offset < 2 ^ 48) (hcount : count < 2 ^ 16) :
    offset + 2 * count + (lengthsAt buffer offset count).sum < 2 ^ 64 := by
  have hsum := sum_lengthsAt_le buffer offset count
  have hbound : count * 2 ^ 16 ≤ 2 ^ 16 * 2 ^ 16 := Nat.mul_le_mul_right _ (Nat.le_of_lt hcount)
  omega

/-- A table that is not complete. -/
theorem exec_table_of_lt (hoffset : offset < 2 ^ 48) (hcount : count < 2 ^ 16)
    (hle : offset ≤ buffer.length) (h : buffer.length < offset + 2 * count) :
    ∃ cs, exec (View.readLengths count >>= fun lengths => read lengths >>= f)
      (cursorAt buffer offset) = (.error outOfRange, cs) := by
  obtain ⟨cs, hlengths⟩ := exec_readLengths_of_lt (by omega) hle h
  exact ⟨cs, exec_bind_of_error hlengths⟩

/-- A complete table with its values. -/
theorem exec_table_of_fits (hread : ReadsValues read) (hoffset : offset < 2 ^ 48)
    (hcount : count < 2 ^ 16) (h : offset + 2 * count ≤ buffer.length)
    (hfits : TableFits buffer offset count) : ∃ values,
      exec (View.readLengths count >>= fun lengths => read lengths >>= f) (cursorAt buffer offset) =
        exec (f values)
          (cursorAt buffer (offset + 2 * count + (lengthsAt buffer offset count).sum)) := by
  have hsmall := @table_small buffer offset count hoffset hcount
  rcases hread buffer (lengthsAt buffer offset count) (offset + 2 * count) h hsmall with
    ⟨-, values, hvalues⟩ | ⟨hlt, -⟩
  · refine ⟨values, ?_⟩
    rw [exec_bind_of_ok (exec_readLengths_of_le (by omega) h), exec_bind_of_ok hvalues]
  · exact absurd (hfits h) (Nat.not_le_of_lt hlt)

/-- A complete table with values that lie partly behind the buffer. -/
theorem exec_table_of_not_fits (hread : ReadsValues read) (hoffset : offset < 2 ^ 48)
    (hcount : count < 2 ^ 16) (hfits : ¬ TableFits buffer offset count) : ∃ cs,
      exec (View.readLengths count >>= fun lengths => read lengths >>= f) (cursorAt buffer offset) =
        (.error .undefined, cs) := by
  obtain ⟨h, hlt⟩ := Classical.not_imp.mp hfits
  have hsmall := @table_small buffer offset count hoffset hcount
  rcases hread buffer (lengthsAt buffer offset count) (offset + 2 * count) h hsmall with
    ⟨hle, -⟩ | ⟨-, cs, hvalues⟩
  · exact absurd hle hlt
  · refine ⟨cs, ?_⟩
    rw [exec_bind_of_ok (exec_readLengths_of_le (by omega) h), exec_bind_of_error hvalues]

/-- Reading a table stays in the buffer exactly if the table fits there, when what follows does. -/
theorem inBounds_table_iff (hread : ReadsValues read) (hoffset : offset < 2 ^ 48)
    (hcount : count < 2 ^ 16) (hle : offset ≤ buffer.length)
    (hf : ∀ values cs, InBounds (exec (f values) cs)) :
    InBounds (exec (View.readLengths count >>= fun lengths => read lengths >>= f)
      (cursorAt buffer offset)) ↔ TableFits buffer offset count := by
  by_cases hfits : TableFits buffer offset count
  · refine iff_of_true ?_ hfits
    by_cases h : offset + 2 * count ≤ buffer.length
    · obtain ⟨values, hexec⟩ := exec_table_of_fits f hread hoffset hcount h hfits
      rw [hexec]
      exact hf values _
    · obtain ⟨cs, hexec⟩ := @exec_table_of_lt buffer offset count α β read f hoffset hcount hle
        (Nat.lt_of_not_le h)
      rw [hexec]
      exact inBounds_throws _ cs
  · refine iff_of_false ?_ hfits
    obtain ⟨cs, hexec⟩ := exec_table_of_not_fits f hread hoffset hcount hfits
    rw [hexec]
    exact not_inBounds cs

end Table

/-! ## `as_string` -/

section Text

open ValueImpl NoteValue Native

variable (env : Env) (formats : Formats)

/-- The list of texts behind its type word. -/
theorem inBounds_listAsString_iff (content : List UInt8) (h : 4 ≤ content.length) :
    InBounds (exec (listAsString env) (cursorAt content 2)) ↔
      TableFits content 4 (wordAt content 2) := by
  have hcount := exec_readWord content (show 2 + 2 < 2 ^ 64 by decide)
  rw [if_pos h] at hcount
  rw [listAsString, exec_bind_of_ok hcount]
  exact inBounds_table_iff _ (readsValues_readTexts env) (by decide) (wordAt_lt content 2) h
    fun values cs => inBounds_ok _ cs

theorem inBounds_readInteger {n : ℕ} (hn : n < 2 ^ 32) (hsmall : offset + n < 2 ^ 64) :
    InBounds (exec (readInteger n) (cursorAt buffer offset)) := by
  rw [exec_readInteger_cursorAt hn hsmall]
  split
  · exact inBounds_ok _ _
  · exact inBounds_throws _ _

/-- A list of texts with a complete table of lengths has its texts behind it. -/
def TextsFit (content : List UInt8) : Prop :=
  4 ≤ content.length → typeWord content = typeTextList → TableFits content 4 (wordAt content 2)

theorem behindType_eq (word : UInt16) (data : List UInt8) :
    behindType word data = cursorAt (itemBytes word data) 2 := rfl

theorem inBounds_asStringOf_iff (word : UInt16) (data : List UInt8) :
    InBounds (exec (asStringOf env formats) (Cursor.make (some (itemBytes word data)))) ↔
      TextsFit (itemBytes word data) := by
  have hlength := length_itemBytes word data
  have hsize : (behindType word data).buffer.length - 2 = data.length := by
    rw [behindType, hlength, Nat.add_sub_cancel]
  rw [asStringOf, exec_bind_of_ok (exec_readType word data), exec_bind_of_ok (exec_get _)]
  simp only [hsize, UInt16.toNat_inj]
  by_cases hlist : word = typeTextList
  · subst hlist
    rw [if_neg (by decide), if_neg (fun h => absurd h.1 (by decide)),
      if_neg (fun h => absurd h.1 (by decide))]
    simp only [TextsFit, typeWord_itemBytes, true_imp_iff, true_and, hlength]
    by_cases hdata : 2 ≤ data.length
    · rw [if_pos hdata, inBounds_pure_iff, behindType_eq,
        inBounds_listAsString_iff env _ (by omega)]
      exact ⟨fun h _ => h, fun h => h (by omega)⟩
    · rw [if_neg hdata]
      refine iff_of_true (inBounds_ok _ _) fun h => ?_
      omega
  · have hvacuous : TextsFit (itemBytes word data) := by
      intro h hword
      rw [typeWord_itemBytes] at hword
      exact absurd hword hlist
    refine iff_of_true ?_ hvacuous
    by_cases htext : word = typeText
    · subst htext
      have hload := exec_loadData typeText data
      rw [hsize] at hload
      rw [if_pos rfl, exec_bind_of_ok hload]
      exact inBounds_ok _ _
    rw [if_neg htext]
    by_cases hnumber : word = typeNumber ∧ data.length = 8
    · have hread := @inBounds_readInteger (itemBytes word data) 2 8 (by decide) (by decide)
      rw [if_pos hnumber, behindType_eq, inBounds_pure_iff]
      exact hread
    rw [if_neg hnumber]
    by_cases htime : word = typeTime ∧ data.length = 8
    · have hread := exec_readData word (show data.length + 2 < 2 ^ 16 by omega)
      rw [htime.2] at hread
      rw [if_pos htime, exec_bind_of_ok hread]
      exact inBounds_ok _ _
    · rw [if_neg htime, if_neg (fun h => hlist h.1)]
      exact inBounds_ok _ _

theorem inBounds_onCursor_iff {σ α : Type} (c : Cursor) (x : Cursor.M α) (s : Called σ) :
    InBounds (exec (Native.onCursor c x) s) ↔ InBounds (exec x c) := by
  unfold Native.onCursor InBounds
  rcases exec x c with ⟨stop | a, cs⟩
  · simp
  · simp

/-- `as_string` stays in a content that can be locked exactly if its texts are there. -/
theorem inBounds_asString_iff {σ : Type} (content : List UInt8) (s : Called σ) :
    InBounds (exec (asString env formats content) s) ↔
      ((env.native.status s.calls).isError = false → TextsFit content) := by
  rw [asString]
  by_cases hshort : content.length < 2
  · rw [if_pos hshort]
    refine iff_of_true (inBounds_ok _ _) fun _ h => ?_
    omega
  rw [if_neg hshort, lock, exec_bind, exec_bind_of_ok (Native.exec_call _)]
  by_cases hstatus : (env.native.status s.calls).isError = true
  · rw [if_pos hstatus, hstatus]
    exact iff_of_true (inBounds_throws _ _) fun h => absurd h.symm Bool.false_ne_true
  · rw [if_neg hstatus, exec_pure]
    simp only [Bool.not_eq_true] at hstatus
    rw [inBounds_onCursor_iff, ← itemBytes_typeWord (Nat.le_of_not_lt hshort),
      inBounds_asStringOf_iff, hstatus]
    simp

end Text

/-! ## Entries -/

/-- Every entry that the iteration reaches has the values of its item table in the buffer. -/
def EntriesFit (buffer : List UInt8) : ℕ → ℕ → Prop
  | 0, _ => True
  | n + 1, offset =>
      let items := wordAt buffer (offset + 6)
      TableFits buffer (offset + 8) items ∧
        (offset + 8 + 2 * items ≤ buffer.length →
          EntriesFit buffer n (offset + 4 + wordAt buffer (offset + 4)))

theorem exec_readNoteid (h : offset < 2 ^ 48) :
    exec (readInteger 4) (cursorAt buffer offset) =
      if offset + 4 ≤ buffer.length then
        (.ok (littleEndian ((buffer.drop offset).take 4)), cursorAt buffer (offset + 4))
      else (.error outOfRange, cursorAt buffer offset) :=
  exec_readInteger_cursorAt (by decide) (by omega)

/-- What is left of an entry behind its columns. -/
def toNext (buffer : List UInt8) (offset : ℕ) (columns : List (List UInt8)) :
    Cursor.M View.Entry := do
  setOffset (UInt64.ofNat (offset + 4 + wordAt buffer (offset + 4)))
  pure ⟨UInt32.ofNat (littleEndian ((buffer.drop offset).take 4)), columns⟩

/-- An entry with its header in the buffer. -/
theorem exec_readEntry_of_le (hoffset : offset + 8 < 2 ^ 48) (h : offset + 8 ≤ buffer.length) :
    exec View.readEntry (cursorAt buffer offset) =
      exec (View.readLengths (wordAt buffer (offset + 6)) >>= fun lengths =>
        View.readItems lengths >>= toNext buffer offset) (cursorAt buffer (offset + 8)) := by
  have hnoteid := @exec_readNoteid buffer offset (by omega)
  rw [if_pos (by omega)] at hnoteid
  have hlength := exec_readWord buffer (show offset + 4 + 2 < 2 ^ 64 by omega)
  rw [if_pos (by omega)] at hlength
  have hitems := exec_readWord buffer (show offset + 6 + 2 < 2 ^ 64 by omega)
  rw [if_pos (by omega)] at hitems
  have hnext : (cursorAt buffer (offset + 4)).offset + UInt64.ofNat (wordAt buffer (offset + 4)) =
      UInt64.ofNat (offset + 4 + wordAt buffer (offset + 4)) := (UInt64.ofNat_add _ _).symm
  rw [View.readEntry, exec_bind_of_ok hnoteid, exec_bind_of_ok (exec_get _),
    exec_bind_of_ok hlength, exec_bind_of_ok hitems, hnext]
  rfl

/-- An entry with its header partly behind the buffer. -/
theorem exec_readEntry_of_lt (hoffset : offset + 8 < 2 ^ 48) (h : buffer.length < offset + 8) :
    ∃ cs, exec View.readEntry (cursorAt buffer offset) = (.error outOfRange, cs) := by
  have hnoteid := @exec_readNoteid buffer offset (by omega)
  have hlength := exec_readWord buffer (show offset + 4 + 2 < 2 ^ 64 by omega)
  have hitems := exec_readWord buffer (show offset + 6 + 2 < 2 ^ 64 by omega)
  rw [if_neg (by omega)] at hitems
  rw [View.readEntry]
  by_cases h4 : offset + 4 ≤ buffer.length
  · rw [if_pos h4] at hnoteid
    rw [exec_bind_of_ok hnoteid, exec_bind_of_ok (exec_get _)]
    by_cases h6 : offset + 4 + 2 ≤ buffer.length
    · rw [if_pos h6] at hlength
      exact ⟨_, by rw [exec_bind_of_ok hlength, exec_bind_of_error hitems]⟩
    · rw [if_neg h6] at hlength
      exact ⟨_, exec_bind_of_error hlength⟩
  · rw [if_neg h4] at hnoteid
    exact ⟨_, exec_bind_of_error hnoteid⟩

variable (buffer offset) in
/-- An entry throws, is read with the next one found by its length, or leaves the buffer. -/
theorem exec_readEntry_cases (hoffset : offset + 8 < 2 ^ 48) :
    (buffer.length < offset + 8 + 2 * wordAt buffer (offset + 6) ∧ ∃ cs,
      exec View.readEntry (cursorAt buffer offset) = (.error outOfRange, cs)) ∨
    (offset + 8 + 2 * wordAt buffer (offset + 6) ≤ buffer.length ∧
      TableFits buffer (offset + 8) (wordAt buffer (offset + 6)) ∧ ∃ entry,
        exec View.readEntry (cursorAt buffer offset) =
          (.ok entry, cursorAt buffer (offset + 4 + wordAt buffer (offset + 4)))) ∨
    (¬ TableFits buffer (offset + 8) (wordAt buffer (offset + 6)) ∧ ∃ cs,
      exec View.readEntry (cursorAt buffer offset) = (.error .undefined, cs)) := by
  have hcount := wordAt_lt buffer (offset + 6)
  by_cases hheader : offset + 8 ≤ buffer.length
  · rw [exec_readEntry_of_le hoffset hheader]
    by_cases hfits : TableFits buffer (offset + 8) (wordAt buffer (offset + 6))
    · by_cases htable : offset + 8 + 2 * wordAt buffer (offset + 6) ≤ buffer.length
      · obtain ⟨columns, hexec⟩ := exec_table_of_fits (toNext buffer offset)
          readsValues_readItems hoffset hcount htable hfits
        exact .inr (.inl ⟨htable, hfits, _, hexec⟩)
      · obtain ⟨cs, hexec⟩ := exec_table_of_lt (toNext buffer offset) hoffset hcount
          hheader (Nat.lt_of_not_le htable)
        exact .inl ⟨Nat.lt_of_not_le htable, cs, hexec⟩
    · obtain ⟨cs, hexec⟩ := exec_table_of_not_fits (toNext buffer offset)
        readsValues_readItems hoffset hcount hfits
      exact .inr (.inr ⟨hfits, cs, hexec⟩)
  · have hlt : buffer.length < offset + 8 := Nat.lt_of_not_le hheader
    exact .inl ⟨by omega, exec_readEntry_of_lt hoffset hlt⟩

section Entries

variable {Pos Note : Type} (visitor : View.Visitor Note)

theorem inBounds_visit (entry : View.Entry) (s : View.State Pos Note) :
    InBounds (exec (View.visit visitor entry) s) := by
  unfold View.visit
  rcases visitor.getNote entry.noteid with error | note
  · exact inBounds_throws _ _
  cases note with
  | none => exact inBounds_ok _ _
  | some note =>
      simp only [exec_bind, exec_modify, exec_get]
      split
      · exact inBounds_throws _ _
      · exact inBounds_ok _ _

theorem inBounds_readEntries (hsmall : buffer.length < 2 ^ 16) {n : ℕ}
    (hoffset : offset < 2 ^ 17) (h : EntriesFit buffer n offset) (s : View.State Pos Note) :
    InBounds (exec (View.readEntries visitor n (cursorAt buffer offset)) s) := by
  induction n generalizing offset s with
  | zero => exact inBounds_ok _ _
  | succ n ih =>
      have hlength := wordAt_lt buffer (offset + 4)
      rw [View.readEntries]
      rcases exec_readEntry_cases buffer offset (by omega) with
        ⟨-, cs, hread⟩ | ⟨htable, -, entry, hread⟩ | ⟨hfits, -⟩
      · rw [hread]
        exact inBounds_throws _ _
      · rw [hread]
        exact inBounds_bind (inBounds_visit visitor entry s) fun _ t _ =>
          ih (by omega) (h.2 htable) t
      · exact absurd h.1 hfits

/-- A callback that is never called. -/
def noNotes (Note : Type) : View.Visitor Note := ⟨fun _ => .ok none, fun _ => none⟩

theorem entriesFit_of_inBounds (hsmall : buffer.length < 2 ^ 16) {n : ℕ}
    (hoffset : offset < 2 ^ 17) {s : View.State Pos Note}
    (h : InBounds (exec (View.readEntries (noNotes Note) n (cursorAt buffer offset)) s)) :
    EntriesFit buffer n offset := by
  induction n generalizing offset s with
  | zero => trivial
  | succ n ih =>
      have hlength := wordAt_lt buffer (offset + 4)
      rw [View.readEntries] at h
      rcases exec_readEntry_cases buffer offset (by omega) with
        ⟨hlt, -⟩ | ⟨htable, hfits, entry, hread⟩ | ⟨-, cs, hread⟩
      · exact ⟨fun hle => by omega, fun hle => by omega⟩
      · rw [hread] at h
        exact ⟨hfits, fun _ => ih (by omega) h⟩
      · rw [hread] at h
        exact absurd h (not_inBounds s)

/-! ## Iteration -/

variable {nif : View.Nif Pos}

/-- A request that the iteration makes: it does not run past the largest entry number. -/
def Requestable (request : View.Request Pos) : Prop :=
  request.count ≠ 0 ∧ request.skip.toNat + request.count.toNat ≤ 2 ^ 32

/-- The entries of an answer have their values in its buffer. -/
def AnswerFits (answer : View.Answer Pos) : Prop :=
  answer.status.isError = false → ∀ bytes, answer.buffer = some bytes →
    EntriesFit bytes answer.entriesLength.toNat 0

/-- The size of a buffer is a 16-bit word. -/
def Buffers (nif : View.Nif Pos) : Prop :=
  ∀ previous request bytes, (nif.readEntries previous request).buffer = some bytes →
    bytes.length < 2 ^ 16

theorem exec_lock_cases (buffer : Option (List UInt8)) (s : View.State Pos Note) :
    InBounds (exec (View.lock buffer) s) ∧ ∀ c t, exec (View.lock buffer) s = (.ok c, t) →
      ∃ bytes, buffer = some bytes ∧ c = cursorAt bytes 0 := by
  cases buffer with
  | none => exact ⟨nofun, nofun⟩
  | some bytes =>
      refine ⟨inBounds_ok _ _, fun c t h => ⟨bytes, rfl, ?_⟩⟩
      cases h
      rfl

theorem inBounds_readLoop (hbuffers : Buffers nif)
    (hfits : ∀ previous request, Requestable request →
      AnswerFits (nif.readEntries previous request))
    (remaining skip : UInt32) (hskip : skip.toNat + remaining.toNat ≤ 2 ^ 32)
    (s : View.State Pos Note) :
    InBounds (exec (View.readLoop nif visitor remaining skip) s) := by
  induction hn : remaining.toNat using Nat.strong_induction_on generalizing remaining skip s with
  | _ n ih =>
      subst hn
      unfold View.readLoop
      by_cases hzero : remaining = 0
      · rw [if_pos hzero]
        exact inBounds_ok _ _
      rw [if_neg hzero]
      obtain ⟨s', hnif, -, -⟩ := View.exec_nifReadEntries nif skip remaining s
      have hanswer := hfits s.requests ⟨s.position, skip, remaining⟩ ⟨hzero, hskip⟩
      have hsmall := hbuffers s.requests ⟨s.position, skip, remaining⟩
      rw [exec_bind_of_ok hnif]
      generalize nif.readEntries s.requests ⟨s.position, skip, remaining⟩ = answer
        at hanswer hsmall
      by_cases hstatus : answer.status.isError = true
      · rw [exec_bind, Status.exec_throwIfError, if_pos hstatus]
        exact inBounds_throws _ _
      rw [exec_bind, Status.exec_throwIfError, if_neg hstatus]
      have hok : answer.status.isError = false := by simpa using hstatus
      have hlock := exec_lock_cases answer.buffer s'
      refine inBounds_bind hlock.1 fun c t hc => ?_
      obtain ⟨bytes, hbuffer, rfl⟩ := hlock.2 c t hc
      have hentries := hanswer hok bytes hbuffer
      by_cases hempty : answer.entriesLength = 0
      · rw [dif_pos hempty]
        exact inBounds_ok _ _
      rw [dif_neg hempty]
      refine inBounds_bind (inBounds_readEntries visitor (hsmall bytes hbuffer) (by decide)
        hentries t) fun _ u _ => ?_
      by_cases hdone : remaining ≤ answer.entriesLength
      · rw [dif_pos hdone]
        exact inBounds_ok _ _
      rw [dif_neg hdone]
      by_cases hmore : answer.more
      · have hlt : answer.entriesLength.toNat < remaining.toNat := UInt32.not_le.mp hdone
        have hpos := View.toNat_ne_zero hempty
        have hsub := View.toNat_sub_of_not_le hdone
        have hmax := remaining.toNat_lt
        rw [if_pos hmore]
        refine ih _ (by omega) _ 0 ?_ u rfl
        rw [hsub]
        simp only [UInt32.toNat_zero]
        omega
      · rw [if_neg hmore]
        exact inBounds_ok _ _

variable (nif)

/-- What `iterate_entries` starts the loop with. -/
theorem exec_iterateEntries (opts : View.QueryOptions) (available : UInt32)
    (s : View.State Pos Note) :
    exec (View.iterateEntries nif visitor opts available) s = (.ok (), s) ∨
      ∃ remaining skip : UInt32, skip.toNat + remaining.toNat ≤ 2 ^ 32 ∧
        exec (View.iterateEntries nif visitor opts available) s =
          exec (View.readLoop nif visitor remaining skip) s := by
  unfold View.iterateEntries
  by_cases hle : available ≤ opts.offset
  · rw [if_pos hle]
    exact .inl rfl
  · have hlt : opts.offset.toNat < available.toNat := UInt32.not_le.mp hle
    have hsub := View.toNat_sub_of_not_le hle
    have hmin : (min opts.count (available - opts.offset)).toNat ≤
        available.toNat - opts.offset.toNat := by
      rw [View.toNat_min, hsub]
      exact Nat.min_le_right _ _
    have hmax := available.toNat_lt
    rw [if_neg hle]
    refine .inr ⟨_, _, ?_, rfl⟩
    split
    · have hadd : (opts.offset + 1).toNat ≤ opts.offset.toNat + 1 := by
        rw [UInt32.toNat_add]
        exact Nat.mod_le _ _
      omega
    · omega

/-- For every request that the iteration can make, there are options that make it the first. -/
theorem exists_options (request : View.Request Pos) (h : Requestable request) :
    ∃ (opts : View.QueryOptions) (available : UInt32), ∀ s : View.State Pos Note,
      exec (View.iterateEntries nif visitor opts available) s =
        exec (View.readLoop nif visitor request.count request.skip) s := by
  obtain ⟨hcount, hsum⟩ := h
  have hpos := View.toNat_ne_zero hcount
  by_cases hskip : request.skip = 0
  · -- a key, so that nothing is added to the offset
    refine ⟨⟨some [], request.count, 0⟩, request.count, fun s => ?_⟩
    have hle : ¬ request.count ≤ 0 := fun hle => hpos (Nat.le_zero.mp hle)
    have hmin : min request.count (request.count - 0) = request.count := by
      apply UInt32.toNat_inj.mp
      rw [View.toNat_min, UInt32.sub_zero, Nat.min_self]
    unfold View.iterateEntries
    simp only [Option.isNone_some, Bool.false_eq_true, false_and, if_false, if_neg hle, hmin,
      hskip]
  · -- no key, so that one is added to it
    have hne := View.toNat_ne_zero hskip
    have hone : (1 : UInt32) ≤ request.skip := Nat.one_le_iff_ne_zero.mpr hne
    have hoffset : (request.skip - 1).toNat = request.skip.toNat - 1 :=
      UInt32.toNat_sub_of_le _ _ hone
    have hskipMax := request.skip.toNat_lt
    have hadd : (request.skip - 1 + request.count).toNat =
        request.skip.toNat - 1 + request.count.toNat := by
      rw [UInt32.toNat_add, hoffset]
      omega
    refine ⟨⟨none, request.count, request.skip - 1⟩, request.skip - 1 + request.count,
      fun s => ?_⟩
    have hle : ¬ request.skip - 1 + request.count ≤ request.skip - 1 := by
      rw [UInt32.le_iff_toNat_le, hadd, hoffset]
      omega
    have hmin : min request.count (request.skip - 1 + request.count - (request.skip - 1)) =
        request.count := by
      rw [UInt32.add_comm, UInt32.add_sub_cancel]
      apply UInt32.toNat_inj.mp
      rw [View.toNat_min, Nat.min_self]
    have hlargest : request.skip - 1 ≠ 0xFFFFFFFF := by
      intro heq
      rw [heq] at hoffset
      simp at hoffset
      omega
    unfold View.iterateEntries
    simp only [Option.isNone_none, true_and, if_neg hle, hmin, if_pos hlargest,
      UInt32.sub_add_cancel]

variable {nif}

theorem answerFits_of_inBounds (hbuffers : Buffers nif) (previous : List (View.Request Pos))
    {request : View.Request Pos} (hcount : request.count ≠ 0)
    (h : InBounds (exec (View.readLoop nif (noNotes Note) request.count request.skip)
      ⟨request.position, previous, []⟩)) : AnswerFits (nif.readEntries previous request) := by
  intro hok bytes hbuffer
  have hsmall := hbuffers previous request bytes hbuffer
  unfold View.readLoop at h
  obtain ⟨s', hnif, -, -⟩ := View.exec_nifReadEntries nif request.skip request.count
    (⟨request.position, previous, []⟩ : View.State Pos Note)
  rw [if_neg hcount, exec_bind_of_ok hnif] at h
  generalize nif.readEntries previous request = answer at h hok hbuffer
  have hstatus : exec (answer.status.throwIfError "Failed to read entries" :
      View.M Pos Note Unit) s' = (.ok (), s') := by
    rw [Status.exec_throwIfError, hok]
    rfl
  rw [exec_bind_of_ok hstatus, hbuffer, exec_bind_of_ok (View.exec_lock_some bytes s')] at h
  by_cases hempty : answer.entriesLength = 0
  · rw [hempty]
    trivial
  · rw [dif_neg hempty] at h
    exact entriesFit_of_inBounds hsmall (by decide) (inBounds_of_bind h)

/-- The iteration stays in the buffers exactly if all answers that it may get fit into theirs. -/
theorem inBounds_iterateEntries_iff (hbuffers : Buffers nif) :
    (∀ (visitor : View.Visitor Note) opts available s,
        InBounds (exec (View.iterateEntries nif visitor opts available) s)) ↔
      ∀ previous request, Requestable request → AnswerFits (nif.readEntries previous request) := by
  constructor
  · intro h previous request hrequest
    obtain ⟨opts, available, hexec⟩ := exists_options (noNotes Note) nif request hrequest
    have hrun := h (noNotes Note) opts available ⟨request.position, previous, []⟩
    rw [hexec] at hrun
    exact answerFits_of_inBounds hbuffers previous hrequest.1 hrun
  · intro hfits visitor opts available s
    rcases exec_iterateEntries visitor nif opts available s with
      hexec | ⟨remaining, skip, hskip, hexec⟩
    · rw [hexec]
      exact inBounds_ok _ _
    · rw [hexec]
      exact inBounds_readLoop visitor hbuffers hfits remaining skip hskip s

end Entries

/-! ## Both decoders -/

/-- `as_string` and the iteration over entries read only bytes of the buffer exactly if the
lengths that are stored there do not reach behind it. -/
theorem inBounds_iff {σ Pos Note : Type} (env : NoteValue.Env) (formats : ValueImpl.Formats)
    (content : List UInt8) (s : Called σ) {nif : View.Nif Pos} (hbuffers : Buffers nif) :
    (InBounds (exec (ValueImpl.asString env formats content) s) ↔
      ((env.native.status s.calls).isError = false → TextsFit content)) ∧
    ((∀ (visitor : View.Visitor Note) opts available t,
        InBounds (exec (View.iterateEntries nif visitor opts available) t)) ↔
      ∀ previous request, Requestable request → AnswerFits (nif.readEntries previous request)) :=
  ⟨inBounds_asString_iff env formats content s, inBounds_iterateEntries_iff hbuffers⟩

/-- NIF that has one entry to return in these bytes. -/
def answering (bytes : List UInt8) : View.Nif Unit where
  start := ()
  readEntries _ _ := ⟨.noError, (), some bytes, 1, 0⟩
  findByName _ := ⟨.notFound, (), 0⟩

theorem buffers_answering {bytes : List UInt8} (h : bytes.length < 2 ^ 16) :
    Buffers (answering bytes) := by
  intro previous request buffer hbuffer
  cases hbuffer
  exact h

def sampleFormats : ValueImpl.Formats := ⟨fun _ => none, fun _ => none⟩

theorem inBounds_iff_sample :
    (InBounds (exec (ValueImpl.asString NoteValue.sampleEnv sampleFormats
        [0x01, 0x05, 1, 0, 1, 0, 0x61]) (⟨0, ()⟩ : Called Unit)) ↔
      ((NoteValue.sampleEnv.native.status 0).isError = false →
        TextsFit [0x01, 0x05, 1, 0, 1, 0, 0x61])) ∧
    ((∀ (visitor : View.Visitor UInt32) opts available t, InBounds (exec
        (View.iterateEntries (answering [1, 0, 0, 0, 7, 0, 1, 0, 1, 0, 0x61]) visitor opts
          available) t)) ↔
      ∀ previous request, Requestable request → AnswerFits
        ((answering [1, 0, 0, 0, 7, 0, 1, 0, 1, 0, 0x61]).readEntries previous request)) :=
  inBounds_iff NoteValue.sampleEnv sampleFormats [0x01, 0x05, 1, 0, 1, 0, 0x61]
    (⟨0, ()⟩ : Called Unit) (buffers_answering (by decide))

/-- A text and an item whose lengths are five, with one byte of each. -/
theorem not_inBounds_of_long_lengths :
    ¬ InBounds (exec (ValueImpl.asString NoteValue.sampleEnv sampleFormats
        [0x01, 0x05, 1, 0, 5, 0, 0x61]) (⟨0, ()⟩ : Called Unit)) ∧
    ¬ InBounds (exec (View.iterateEntries (answering [1, 0, 0, 0, 11, 0, 1, 0, 5, 0, 0x61])
        View.idVisitor {} 1) ⟨(), [], []⟩) := by
  refine ⟨fun h => h rfl, fun h => h ?_⟩
  unfold View.iterateEntries View.readLoop
  rfl

end Dmn.Decoder
