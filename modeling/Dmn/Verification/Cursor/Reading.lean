import Dmn.Verification.Cursor.Correctness

/-! # Reading known bytes

A cursor that stands in front of known bytes reads them one piece after the other. -/

namespace Dmn.Cursor

open Exec

def advanced (c : Cursor) (n : ℕ) : Cursor := { c with offset := c.offset + UInt64.ofNat n }

@[simp] theorem buffer_advanced (c : Cursor) (n : ℕ) : (c.advanced n).buffer = c.buffer := rfl

@[simp] theorem advanced_zero (c : Cursor) : c.advanced 0 = c := by
  simp [advanced]

@[simp] theorem advanced_advanced (c : Cursor) (m n : ℕ) :
    (c.advanced m).advanced n = c.advanced (m + n) := by
  simp [advanced, UInt64.add_assoc, UInt64.ofNat_add]

/-- The cursor stands in front of `bytes`, in a block of less than `2 ^ 16` bytes. -/
structure Before (c : Cursor) (bytes : List UInt8) : Prop where
  drop_eq : c.buffer.drop c.offset.toNat = bytes
  offset_le : c.offset.toNat ≤ c.buffer.length
  small : c.buffer.length < 2 ^ 16

theorem before_make {bytes : List UInt8} (h : bytes.length < 2 ^ 16) :
    (make (some bytes)).Before bytes := ⟨rfl, Nat.zero_le _, h⟩

theorem Before.length {c : Cursor} {bytes : List UInt8} (h : c.Before bytes) :
    c.offset.toNat + bytes.length = c.buffer.length := by
  rw [← h.drop_eq, List.length_drop]
  have := h.offset_le
  omega

theorem Before.toNat_advanced {c : Cursor} {first rest : List UInt8}
    (h : c.Before (first ++ rest)) :
    (c.advanced first.length).offset.toNat = c.offset.toNat + first.length := by
  have hlength := h.length
  have hsmall := h.small
  rw [List.length_append] at hlength
  simp only [advanced, UInt64.toNat_add, UInt64.toNat_ofNat']
  omega

theorem Before.advanced {c : Cursor} {first rest : List UInt8} (h : c.Before (first ++ rest)) :
    (c.advanced first.length).Before rest := by
  refine ⟨?_, ?_, h.small⟩
  · rw [h.toNat_advanced, buffer_advanced, ← List.drop_drop, h.drop_eq, List.drop_left]
  · have hlength := h.length
    rw [List.length_append] at hlength
    rw [h.toNat_advanced, buffer_advanced]
    omega

theorem exec_load_of_before {c : Cursor} {first rest : List UInt8}
    (h : c.Before (first ++ rest)) : exec (load first.length) c = (.ok first, c) := by
  have hlength := h.length
  rw [List.length_append] at hlength
  rw [exec_load, if_pos (by omega), h.drop_eq, List.take_left]

theorem exec_read_of_before {c : Cursor} {first rest : List UInt8}
    (h : c.Before (first ++ rest)) :
    exec (read first.length) c = (.ok first, c.advanced first.length) := by
  have hlength := h.length
  have hsmall := h.small
  rw [List.length_append] at hlength
  have hcheck : ¬ c.buffer.length < checkedEnd c first.length := by
    unfold checkedEnd
    omega
  rw [read, exec_bind, exec_ensureBounds, if_neg hcheck]
  simp only
  rw [exec_bind, exec_load_of_before h]
  rfl

/-! ## Integers -/

theorem exec_readInteger {c : Cursor} {k n : ℕ} {rest : List UInt8} (hn : n < 256 ^ k)
    (h : c.Before (integerBytes k n ++ rest)) :
    exec (readInteger k) c = (.ok n, c.advanced k) := by
  have hread := exec_read_of_before h
  rw [length_integerBytes] at hread
  rw [readInteger, exec_bind_of_ok hread, exec_pure, littleEndian_integerBytes,
    Nat.mod_eq_of_lt hn]

theorem before_integer {c : Cursor} {k n : ℕ} {rest : List UInt8}
    (h : c.Before (integerBytes k n ++ rest)) : (c.advanced k).Before rest := by
  have hrest := h.advanced
  rwa [length_integerBytes] at hrest

/-! ## Reading anywhere

A cursor at an offset of any block, where the 64-bit sums of the checks do not come round. -/

def outOfRange : Stop := .throws (.outOfRange "Memory read out of range")

def cursorAt (buffer : List UInt8) (offset : ℕ) : Cursor := ⟨buffer, UInt64.ofNat offset⟩

/-- The 16-bit word at an offset. -/
def wordAt (buffer : List UInt8) (offset : ℕ) : ℕ := littleEndian ((buffer.drop offset).take 2)

variable {buffer : List UInt8} {offset n : ℕ}

theorem toNat_cursorAt (h : offset < 2 ^ 64) : (cursorAt buffer offset).offset.toNat = offset :=
  UInt64.toNat_ofNat_of_lt' h

@[simp] theorem advanced_cursorAt (buffer : List UInt8) (offset n : ℕ) :
    (cursorAt buffer offset).advanced n = cursorAt buffer (offset + n) := by
  simp [cursorAt, advanced, UInt64.ofNat_add]

theorem exec_load_cursorAt (h : offset < 2 ^ 64) :
    exec (load n) (cursorAt buffer offset) =
      if n = 0 ∨ offset + n ≤ buffer.length then
        (.ok ((buffer.drop offset).take n), cursorAt buffer offset)
      else (.error .undefined, cursorAt buffer offset) := by
  rw [exec_load, toNat_cursorAt h]
  rfl

theorem exec_readInteger_cursorAt (hn : n < 2 ^ 32) (h : offset + n < 2 ^ 64) :
    exec (readInteger n) (cursorAt buffer offset) =
      if offset + n ≤ buffer.length then
        (.ok (littleEndian ((buffer.drop offset).take n)), cursorAt buffer (offset + n))
      else (.error outOfRange, cursorAt buffer offset) := by
  have hoffset : offset < 2 ^ 64 := by omega
  have hend : checkedEnd (cursorAt buffer offset) n = offset + n := by
    rw [checkedEnd, toNat_cursorAt hoffset, Nat.mod_eq_of_lt hn, Nat.mod_eq_of_lt h]
  have hlength : (cursorAt buffer offset).buffer.length = buffer.length := rfl
  rw [readInteger, read, exec_bind, exec_bind, exec_ensureBounds, hend, hlength]
  by_cases hfit : offset + n ≤ buffer.length
  · rw [if_pos hfit, if_neg (Nat.not_lt_of_le hfit)]
    simp only
    rw [exec_bind, exec_load_cursorAt hoffset, if_pos (.inr hfit), ← advanced_cursorAt]
    rfl
  · rw [if_neg hfit, if_pos (Nat.lt_of_not_le hfit)]
    rfl

end Dmn.Cursor
