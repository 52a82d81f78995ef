/-! # Words of flags

A mask selects some bits of a word. -/

namespace Dmn.FlagWord

/-! ## Selection by masks -/

theorem and_or (w a b : UInt16) : w &&& (a ||| b) = (w &&& a) ||| (w &&& b) := by
  apply UInt16.toBitVec_inj.mp
  simp only [UInt16.toBitVec_and, UInt16.toBitVec_or]
  exact BitVec.and_or_distrib_left

theorem or_and (a b m : UInt16) : (a ||| b) &&& m = (a &&& m) ||| (b &&& m) := by
  rw [UInt16.and_comm, and_or, UInt16.and_comm m a, UInt16.and_comm m b]

/-- A second mask selects from what the first one has left. -/
theorem and_and_of_and_eq (w : UInt16) {a b c : UInt16} (h : a &&& b = c) :
    w &&& a &&& b = w &&& c := by
  rw [UInt16.and_assoc, h]

/-- A word under a mask is the word under a wider mask if the rest of that is not set. -/
theorem and_eq_and_or_iff (w : UInt16) {a b : UInt16} (h : a &&& b = 0) :
    w &&& a = w &&& (a ||| b) ↔ w &&& b = 0 := by
  rw [and_or]
  constructor
  · intro heq
    have hleft := and_and_of_and_eq w h
    have hright := congrArg (· &&& b) heq
    simp only [or_and] at hright
    rw [hleft, UInt16.and_assoc w b b, UInt16.and_self, UInt16.and_zero, UInt16.zero_or]
      at hright
    exact hright.symm
  · intro hzero
    rw [hzero, UInt16.or_zero]

/-- A mask of one bit selects nothing or itself. -/
theorem and_twoPow_cases (w : UInt16) (i : Nat) :
    w &&& UInt16.ofBitVec (BitVec.twoPow 16 i) = 0 ∨
      w &&& UInt16.ofBitVec (BitVec.twoPow 16 i) = UInt16.ofBitVec (BitVec.twoPow 16 i) := by
  have hbit := BitVec.and_twoPow w.toBitVec i
  by_cases h : w.toBitVec.getLsbD i
  · right
    apply UInt16.toBitVec_inj.mp
    rw [UInt16.toBitVec_and, hbit, if_pos h]
  · left
    apply UInt16.toBitVec_inj.mp
    rw [UInt16.toBitVec_and, hbit, if_neg h]
    rfl

end Dmn.FlagWord
