import Mathlib.Algebra.Order.Round
import Mathlib.Tactic.Linarith
import Mathlib.Tactic.Ring

/-! # Rounding to an integer, half to even

The nearest integer, and the even one of two that are as near. It is determined by how far it
is away, so that the results on it follow from distances. -/

namespace Dmn.HalfEven

variable {α : Type*} [Field α] [LinearOrder α]

/-- The integer is the nearest one, or the even one of two. -/
def IsNearest (x : α) (n : ℤ) : Prop :=
  2 * |x - n| < 1 ∨ 2 * |x - n| = 1 ∧ Even n

variable {x y : α} {n m : ℤ}

theorem IsNearest.two_mul_abs_sub_le (h : IsNearest x n) : 2 * |x - n| ≤ 1 :=
  h.elim le_of_lt fun h => le_of_eq h.1

theorem IsNearest.neg (h : IsNearest x n) : IsNearest (-x) (-n) := by
  have habs : |-x - ((-n : ℤ) : α)| = |x - n| := by
    rw [← abs_neg, Int.cast_neg]
    congr 1
    ring
  rw [IsNearest, habs, even_neg]
  exact h

variable [IsStrictOrderedRing α]

/-- The nearest integers are ordered as the numbers are. -/
theorem IsNearest.mono (hx : IsNearest x n) (hy : IsNearest y m) (h : x ≤ y) : n ≤ m := by
  by_contra hlt
  have hgap : (m : α) + 1 ≤ n := by exact_mod_cast Int.not_le.mp hlt
  have hleft := (abs_le.mp (by linarith [hx.two_mul_abs_sub_le] : |x - n| ≤ 1 / 2)).1
  have hright := (abs_le.mp (by linarith [hy.two_mul_abs_sub_le] : |y - m| ≤ 1 / 2)).2
  -- both are half way between two neighbours, and only one of these is even
  have hnext : (n : α) = m + 1 := by linarith
  have hn : 2 * |x - n| = 1 := by
    rw [abs_of_nonpos (by linarith)]
    linarith
  have hm : 2 * |y - m| = 1 := by
    rw [abs_of_nonneg (by linarith)]
    linarith
  have hodd : n = m + 1 := by exact_mod_cast hnext
  have heven : Even n := (hx.resolve_left (by rw [hn]; exact lt_irrefl _)).2
  have heven' : Even m := (hy.resolve_left (by rw [hm]; exact lt_irrefl _)).2
  rw [hodd, Int.even_add_one] at heven
  exact heven heven'

theorem IsNearest.unique (hn : IsNearest x n) (hm : IsNearest x m) : n = m :=
  le_antisymm (hn.mono hm le_rfl) (hm.mono hn le_rfl)

variable [FloorRing α]

def nearest (x : α) : ℤ :=
  if 2 * Int.fract x < 1 ∨ 2 * Int.fract x = 1 ∧ Even ⌊x⌋ then ⌊x⌋ else ⌊x⌋ + 1

theorem isNearest_nearest (x : α) : IsNearest x (nearest x) := by
  have hpos := Int.fract_nonneg x
  have hlt := Int.fract_lt_one x
  have hsub : x - ⌊x⌋ = Int.fract x := rfl
  have hdown : |x - ⌊x⌋| = Int.fract x := by rw [hsub, abs_of_nonneg hpos]
  have hup : |x - ((⌊x⌋ + 1 : ℤ) : α)| = 1 - Int.fract x := by
    rw [abs_of_nonpos] <;> push_cast <;> linarith
  unfold nearest IsNearest
  split_ifs with h
  · rwa [hdown]
  · rw [hup]
    obtain ⟨hhalf, hodd⟩ := not_or.mp h
    rcases lt_or_eq_of_le (not_lt.mp hhalf) with hover | htie
    · left
      linarith
    · right
      refine ⟨by linarith, ?_⟩
      rw [Int.even_add_one]
      exact fun heven => hodd ⟨htie.symm, heven⟩

theorem nearest_eq_iff : nearest x = n ↔ IsNearest x n := by
  constructor
  · rintro rfl
    exact isNearest_nearest x
  · exact (isNearest_nearest x).unique

theorem nearest_mono (h : x ≤ y) : nearest x ≤ nearest y :=
  (isNearest_nearest x).mono (isNearest_nearest y) h

theorem nearest_neg (x : α) : nearest (-x) = -nearest x :=
  nearest_eq_iff.mpr (isNearest_nearest x).neg

/-- Numbers that are more than one apart have different nearest integers. -/
theorem nearest_lt_of_add_one_lt (h : x + 1 < y) : nearest x < nearest y := by
  have hx := abs_le.mp (by linarith [(isNearest_nearest x).two_mul_abs_sub_le] :
    |x - nearest x| ≤ 1 / 2)
  have hy := abs_le.mp (by linarith [(isNearest_nearest y).two_mul_abs_sub_le] :
    |y - nearest y| ≤ 1 / 2)
  have hlt : (nearest x : α) < nearest y := by linarith [hx.1, hy.2]
  exact_mod_cast hlt

/-- A quotient of natural numbers is rounded by its remainder. -/
theorem nearest_natCast_div (a b : ℕ) (hb : 0 < b) : nearest ((a : α) / b) =
    if b < 2 * (a % b) ∨ 2 * (a % b) = b ∧ a / b % 2 = 1 then ((a / b + 1 : ℕ) : ℤ)
    else (a / b : ℕ) := by
  have hbpos : (0 : α) < b := by exact_mod_cast hb
  have hfloor : ⌊(a : α) / b⌋ = (a / b : ℕ) := by
    rw [Int.floor_div_natCast, Int.floor_natCast]
    rfl
  have hscale : 2 * (((a % b : ℕ) : α) / b) = ((2 * (a % b) : ℕ) : α) / b := by
    push_cast
    ring
  have hlt : ((2 * (a % b) : ℕ) : α) / b < 1 ↔ 2 * (a % b) < b := by
    rw [div_lt_one hbpos, Nat.cast_lt]
  have heq : ((2 * (a % b) : ℕ) : α) / b = 1 ↔ 2 * (a % b) = b := by
    rw [div_eq_one_iff_eq hbpos.ne', Nat.cast_inj]
  simp only [nearest, Int.fract_div_natCast_eq_div_natCast_mod, hscale, hlt, heq, hfloor,
    Int.even_coe_nat, Nat.even_iff]
  split_ifs <;> omega

end Dmn.HalfEven
