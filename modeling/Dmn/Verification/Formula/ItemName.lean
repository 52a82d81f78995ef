import Dmn.Model.Formula
import Dmn.Verification.Cursor.Correctness
import Dmn.Verification.Native

/-! # Item names of formulas

Adding an item name sets the flags word of the header, and a formula with that word set
takes no further name. -/

namespace Dmn.Formula

open Exec Cursor

variable {native : Native} {engine : Engine}

/-! ## Reading -/

theorem reads_size : Native.Reads (size native engine) :=
  .bind .call fun _ => .bind (.throwIfError _ _) fun _ => .bind .value fun _ => .pure _

theorem reads_getCursor : Native.Reads (getCursor native engine) := by
  refine .bind reads_size fun _ => .bind .value fun memory => ?_
  split
  · exact .throw _
  · exact .pure _

theorem exec_size_eq_ok {s t : Called (List UInt8)} {n : Nat}
    (h : exec (size native engine) s = (.ok n, t)) : n = (engine.getSize s.value).toNat := by
  obtain ⟨status, t₁, hcall, h⟩ := exec_bind_eq_ok h
  cases hcall
  obtain ⟨_, t₂, hthrow, h⟩ := exec_bind_eq_ok h
  have ht₂ := Native.Reads.throwIfError (native.status s.calls) "Failed to get formula size"
    (⟨s.calls + 1, s.value⟩ : Called (List UInt8))
  rw [hthrow] at ht₂
  cases h
  rw [ht₂]

/-- A cursor on the formula views the bytes that the formula's size covers. -/
theorem exec_getCursor_eq_ok {s t : Called (List UInt8)} {cursor : Cursor}
    (h : exec (getCursor native engine) s = (.ok cursor, t)) :
    (engine.getSize s.value).toNat ≤ s.value.length ∧
      cursor = Cursor.make (some (s.value.take (engine.getSize s.value).toNat)) := by
  obtain ⟨n, s₁, hsize, hrest⟩ := exec_bind_eq_ok h
  have hvalue : s₁.value = s.value := reads_size.of_ok hsize
  have hn := exec_size_eq_ok hsize
  obtain ⟨memory, t₁, hmemory, hrest⟩ := exec_bind_eq_ok hrest
  cases hmemory
  split at hrest
  · cases hrest
  · rename_i hfit
    cases hrest
    rw [hvalue] at hfit ⊢
    subst hn
    exact ⟨Nat.le_of_not_lt hfit, rfl⟩

theorem delivers_size (formula : List UInt8) :
    Native.Delivers native (size native engine) formula (engine.getSize formula).toNat formula :=
  .call_bind (.bind (.value formula) (.pure formula _))

theorem delivers_getCursor {formula : List UInt8}
    (hfit : (engine.getSize formula).toNat ≤ formula.length) :
    Native.Delivers native (getCursor native engine) formula
      (Cursor.make (some (formula.take (engine.getSize formula).toNat))) formula := by
  refine .bind (delivers_size formula) (.bind (.value formula) ?_)
  rw [if_neg (Nat.not_lt_of_le hfit)]
  exact .pure formula _

theorem exec_through {α : Type} (cursor : Cursor) (x : Cursor.M α) (s : Called (List UInt8)) :
    exec (through cursor x) s =
      let c := { cursor with buffer := s.value.take cursor.buffer.length }
      ((exec x c).1, ⟨s.calls, (exec x c).2.buffer ++ s.value.drop cursor.buffer.length⟩) := by
  rw [through, exec_bind_of_ok (Native.exec_value _)]
  simp only
  generalize exec x { cursor with buffer := s.value.take cursor.buffer.length } = result
  rcases result with ⟨_ | a, c⟩ <;> rfl

theorem exec_through_eq_ok {α : Type} {cursor : Cursor} {x : Cursor.M α} {a : α}
    {s t : Called (List UInt8)} (h : exec (through cursor x) s = (.ok a, t)) :
    ∃ c, exec x { cursor with buffer := s.value.take cursor.buffer.length } = (.ok a, c) ∧
      t.value = c.buffer ++ s.value.drop cursor.buffer.length := by
  rw [exec_through] at h
  obtain ⟨hresult, rfl⟩ := Prod.mk.inj h
  exact ⟨_, Prod.ext hresult rfl, rfl⟩

theorem delivers_through {α : Type} {cursor c : Cursor} {x : Cursor.M α} {a : α}
    {memory : List UInt8}
    (h : exec x { cursor with buffer := memory.take cursor.buffer.length } = (.ok a, c)) :
    Native.Delivers native (through cursor x) memory a
      (c.buffer ++ memory.drop cursor.buffer.length) := by
  intro n
  refine .inl ⟨n, Nat.le_refl n, ?_⟩
  rw [exec_through]
  simp only [h]

/-! ## The flags word -/

/-- The flags word of the header is set. -/
def Flagged (memory : List UInt8) : Prop :=
  (Header.ofBytes (memory.take headerSize)).flags ≠ 0

theorem exec_readHeader_eq_ok {s t : Called (List UInt8)} {hdr : Header}
    (h : exec (readHeader native engine) s = (.ok hdr, t)) :
    hdr = Header.ofBytes (s.value.take headerSize) := by
  obtain ⟨cursor, s₁, hcursor, hrest⟩ := exec_bind_eq_ok h
  obtain ⟨bytes, s₂, hread, hrest⟩ := exec_bind_eq_ok hrest
  cases hrest
  have hvalue : s₁.value = s.value := reads_getCursor.of_ok hcursor
  obtain ⟨hfit, rfl⟩ := exec_getCursor_eq_ok hcursor
  obtain ⟨c, hread, _⟩ := exec_through_eq_ok hread
  obtain ⟨rfl, _, hsize⟩ := exec_read_eq_ok hread
  simp only [Cursor.make, Option.getD_some, hvalue, List.length_take, Nat.min_eq_left hfit,
    UInt64.toNat_zero, List.drop_zero, List.take_take] at hsize ⊢
  rw [Nat.min_eq_left]
  rcases hsize with hzero | hsize
  · cases hzero
  · omega

/-- A formula that has an item name does not take another one. -/
theorem addItemName_of_flagged {s t : Called (List UInt8)} {itemName : List UInt8}
    (h : Flagged s.value) : exec (addItemName native engine itemName) s ≠ (.ok (), t) := by
  intro hok
  obtain ⟨hdr, s₁, hread, hrest⟩ := exec_bind_eq_ok hok
  obtain rfl := exec_readHeader_eq_ok hread
  rw [if_pos] at hrest
  · cases hrest
  · exact h

/-! ## The header of the result -/

theorem Header.length_bytes (hdr : Header) : hdr.bytes.length = headerSize := by
  simp [Header.bytes, headerSize]

theorem Header.ofBytes_bytes (hdr : Header) : Header.ofBytes hdr.bytes = hdr := by
  have hword : ∀ word : UInt16,
      UInt16.ofNat (littleEndian (integerBytes 2 word.toNat)) = word := by
    intro word
    have hlt : word.toNat < 256 ^ 2 := word.toNat_lt
    rw [littleEndian_integerBytes, Nat.mod_eq_of_lt hlt, UInt16.ofNat_toNat]
  have hdrop : ∀ n, (integerBytes 2 n).drop 4 = [] := by
    intro n
    exact List.drop_eq_nil_of_le (by simp)
  have htake : ∀ n, (integerBytes 2 n).take 2 = integerBytes 2 n := by
    intro n
    exact List.take_of_length_le (by simp)
  cases hdr with
  | mk length flags offset =>
      simp [Header.bytes, Header.ofBytes, List.drop_append, hword, hdrop, htake]

/-- The block starts with this header, and the offset lies behind it. -/
def HeaderKept (hdr : Header) (c : Cursor) : Prop :=
  c.buffer.take headerSize = hdr.bytes ∧ headerSize ≤ c.offset.toNat ∧
    c.offset.toNat ≤ c.buffer.length ∧ c.buffer.length < 2 ^ 16

theorem length_overwritten {c : Cursor} {bytes : List UInt8}
    (h : c.offset.toNat + bytes.length ≤ c.buffer.length) :
    (c.overwritten bytes).length = c.buffer.length := by
  simp only [Cursor.overwritten, List.length_append, List.length_take, List.length_drop]
  omega

theorem toNat_offset_add {c : Cursor} {n : Nat} (h : c.offset.toNat + n < 2 ^ 16) :
    (c.offset + UInt64.ofNat n).toNat = c.offset.toNat + n := by
  rw [UInt64.toNat_add, UInt64.toNat_ofNat']
  omega

theorem keeps_write_header (hdr : Header) (bytes : List UInt8) :
    Keeps (HeaderKept hdr) (Cursor.write bytes) := by
  intro c hkept
  obtain ⟨hheader, hbehind, hinside, hlength⟩ := hkept
  rcases exec_write_cases c bytes with ⟨stop, herror⟩ | ⟨hfit, hok⟩
  · rw [herror]
    exact ⟨hheader, hbehind, hinside, hlength⟩
  · have hfit : c.offset.toNat + bytes.length ≤ c.buffer.length := by omega
    have hoffset := toNat_offset_add (c := c) (Nat.lt_of_le_of_lt hfit hlength)
    rw [hok]
    refine ⟨?_, ?_, ?_, ?_⟩
    · rw [← hheader, Cursor.overwritten, List.append_assoc, List.take_append_of_le_length,
        List.take_take, Nat.min_eq_left hbehind]
      rw [List.length_take]
      omega
    · simp only [hoffset]
      omega
    · simp only [hoffset, length_overwritten hfit]
      exact hfit
    · simp only [length_overwritten hfit]
      exact hlength

/-- Writing a header at the start of the block. -/
theorem headerKept_of_write {hdr : Header} {c c' : Cursor} (hlength : c.buffer.length < 2 ^ 16)
    (hoffset : c.offset = 0) (h : exec (Cursor.write hdr.bytes) c = (.ok (), c')) :
    HeaderKept hdr c' := by
  have hsize := hdr.length_bytes
  rcases exec_write_cases c hdr.bytes with ⟨stop, herror⟩ | ⟨hfit, hok⟩
  · rw [h] at herror
    cases herror
  · rw [h] at hok
    cases hok
    have hfit : c.offset.toNat + hdr.bytes.length ≤ c.buffer.length := by
      simp only [headerSize] at hsize
      omega
    have hend := toNat_offset_add (c := c) (Nat.lt_of_le_of_lt hfit hlength)
    refine ⟨?_, ?_, ?_, ?_⟩
    · rw [Cursor.overwritten, hoffset, UInt64.toNat_zero, List.take_zero, List.nil_append,
        List.take_append_of_le_length (Nat.le_of_eq hsize.symm), ← hsize, List.take_length]
    · simp only [hend]
      omega
    · simp only [hend, length_overwritten hfit]
      exact hfit
    · simp only [length_overwritten hfit]
      exact hlength

/-- What is written behind the header leaves it. -/
theorem keeps_writeBehind (hdr : Header) (nameSize : UInt16) (itemName : List UInt8)
    (padding : Nat) : Keeps (HeaderKept hdr) (do
      Cursor.writeInteger 2 nameSize.toNat
      Cursor.write (itemName.take nameSize.toNat)
      if padding ≠ 0 then Cursor.write [0]) := by
  refine .bind (keeps_write_header hdr _) fun _ => .bind (keeps_write_header hdr _) fun _ => ?_
  split
  · exact keeps_write_header hdr _
  · exact .pure _

theorem exec_writeItemName_eq_ok {hdr : Header} {nameSize : UInt16} {itemName : List UInt8}
    {padding : Nat} {c c' : Cursor} (hlength : c.buffer.length < 2 ^ 16)
    (h : exec (writeItemName hdr nameSize itemName padding) c = (.ok (), c')) :
    HeaderKept hdr c' := by
  obtain ⟨_, c₁, hset, hrest⟩ := exec_bind_eq_ok h
  cases hset
  obtain ⟨_, c₂, hheader, hrest⟩ := exec_bind_eq_ok hrest
  have hkept : HeaderKept hdr c₂ := headerKept_of_write (c := { c with offset := 0 }) hlength rfl hheader
  have hc' := keeps_writeBehind hdr nameSize itemName padding c₂ hkept
  rw [hrest] at hc'
  exact hc'

/-- Where the header fits, it is written, whatever happens behind it. -/
theorem headerKept_of_headerSize_le {hdr : Header} {nameSize : UInt16} {itemName : List UInt8}
    {padding : Nat} {c : Cursor} (hheader : headerSize ≤ c.buffer.length)
    (hlength : c.buffer.length < 2 ^ 16) :
    HeaderKept hdr (exec (writeItemName hdr nameSize itemName padding) c).2 := by
  have hstart : exec (setOffset 0) c = (.ok (), filled [] c.buffer) := rfl
  have hwrite : exec (Cursor.write hdr.bytes) (filled [] c.buffer) = _ :=
    exec_write_filled (by rw [hdr.length_bytes]; exact hheader) (by simp only [List.length_nil]; omega)
  rw [writeItemName, exec_bind_of_ok hstart, exec_bind_of_ok hwrite]
  exact keeps_writeBehind hdr nameSize itemName padding _
    (headerKept_of_write (c := filled [] c.buffer) hlength rfl hwrite)

/-- The length of an item name fits in its size word. -/
theorem addItemName_length {s t : Called (List UInt8)} {itemName : List UInt8}
    (h : exec (addItemName native engine itemName) s = (.ok (), t)) :
    itemName.length < 2 ^ 16 := by
  obtain ⟨hdr, s₁, _, h⟩ := exec_bind_eq_ok h
  split at h
  · cases h
  · obtain ⟨nameSize, s₂, hcast, _⟩ := exec_bind_eq_ok h
    unfold checkedCast at hcast
    split at hcast
    · assumption
    · cases hcast

/-- Adding an item name sets the flags word. -/
theorem addItemName_flagged {s t : Called (List UInt8)} {itemName : List UInt8}
    (h : exec (addItemName native engine itemName) s = (.ok (), t)) : Flagged t.value := by
  obtain ⟨hdr, s₁, _, h⟩ := exec_bind_eq_ok h
  split at h
  · cases h
  · obtain ⟨nameSize, s₂, _, h⟩ := exec_bind_eq_ok h
    obtain ⟨paddedSize, s₃, _, h⟩ := exec_bind_eq_ok h
    obtain ⟨newLength, s₄, _, h⟩ := exec_bind_eq_ok h
    obtain ⟨newOffset, s₅, _, h⟩ := exec_bind_eq_ok h
    obtain ⟨_, s₆, _, h⟩ := exec_bind_eq_ok h
    obtain ⟨cursor, s₇, hcursor, h⟩ := exec_bind_eq_ok h
    split at h
    · cases h
    · obtain ⟨_, s₈, _, h⟩ := exec_bind_eq_ok h
      obtain ⟨_, rfl⟩ := exec_getCursor_eq_ok hcursor
      obtain ⟨c, hwritten, hvalue⟩ := exec_through_eq_ok h
      obtain ⟨hheader, hbehind, hinside, _⟩ := exec_writeItemName_eq_ok (by
        simp only [Cursor.make, Option.getD_some, List.length_take]
        have := (engine.getSize s₆.value).toNat_lt
        omega) hwritten
      have hstart : headerSize ≤ c.buffer.length := Nat.le_trans hbehind hinside
      rw [Flagged, hvalue, List.take_append_of_le_length hstart, hheader, Header.ofBytes_bytes]
      exact (by decide : (2 : UInt16) ≠ 0)

end Dmn.Formula
