import Mathlib.Algebra.Order.Ring.Nat

/-! # Rounding to a number of significant bits

A natural number is rounded to the nearest one that has at most `p` significant bits, to the even
one of two that are as near. -/

namespace Dmn.Rounding

/-- How many times `2 ^ k` goes into a number, to the nearest, or to the even one of two. -/
def roundShift (n k : ℕ) : ℕ :=
  if 2 * (n % 2 ^ k) < 2 ^ k ∨ 2 * (n % 2 ^ k) = 2 ^ k ∧ n / 2 ^ k % 2 = 0 then n / 2 ^ k
  else n / 2 ^ k + 1

/-- The bits that are too many. -/
def excess (p n : ℕ) : ℕ := n.log2 + 1 - p

def round (p n : ℕ) : ℕ := roundShift n (excess p n) * 2 ^ excess p n

/-- The number has at most `p` significant bits. -/
def Fits (p n : ℕ) : Prop := ∃ m k, m < 2 ^ p ∧ n = m * 2 ^ k

/-! ## Multiples of a power of two -/

theorem roundShift_mul (m k : ℕ) : roundShift (m * 2 ^ k) k = m := by
  have hpos : 0 < 2 ^ k := Nat.two_pow_pos k
  rw [roundShift, Nat.mul_mod_left, Nat.mul_div_cancel m hpos, if_pos (.inl hpos)]

theorem roundShift_zero (n : ℕ) : roundShift n 0 = n := by
  have h := roundShift_mul n 0
  rwa [Nat.pow_zero, Nat.mul_one] at h

theorem div_le_roundShift (n k : ℕ) : n / 2 ^ k ≤ roundShift n k := by
  unfold roundShift
  split
  · exact Nat.le_refl _
  · exact Nat.le_succ _

theorem roundShift_le (n k : ℕ) : roundShift n k ≤ n / 2 ^ k + 1 := by
  unfold roundShift
  split
  · exact Nat.le_succ _
  · exact Nat.le_refl _

/-- No other multiple is nearer. -/
theorem roundShift_nearest (n k m : ℕ) :
    ((roundShift n k * 2 ^ k : ℕ) - n : ℤ).natAbs ≤ ((m * 2 ^ k : ℕ) - n : ℤ).natAbs := by
  have hdiv := Nat.div_add_mod' n (2 ^ k)
  have hmod : n % 2 ^ k < 2 ^ k := Nat.mod_lt n (Nat.two_pow_pos k)
  have hsucc : (n / 2 ^ k + 1) * 2 ^ k = n / 2 ^ k * 2 ^ k + 2 ^ k := Nat.succ_mul _ _
  have hside : m * 2 ^ k ≤ n / 2 ^ k * 2 ^ k ∨ n / 2 ^ k * 2 ^ k + 2 ^ k ≤ m * 2 ^ k := by
    rcases Nat.lt_or_ge (n / 2 ^ k) m with hlt | hle
    · right
      rw [← hsucc]
      exact Nat.mul_le_mul_right _ hlt
    · exact .inl (Nat.mul_le_mul_right _ hle)
  unfold roundShift
  split
  · omega
  · rw [hsucc]
    omega

/-! ## Significant bits -/

/-- A number that fits and is not too small is a multiple. -/
theorem Fits.exists_mul {p n k : ℕ} (h : Fits p n) (hle : 2 ^ (p + k) ≤ 2 * n) :
    ∃ m, n = m * 2 ^ k := by
  obtain ⟨m, j, hm, rfl⟩ := h
  have hlt : 2 ^ (p + k) < 2 ^ (p + j + 1) := by
    calc
      2 ^ (p + k) ≤ 2 * (m * 2 ^ j) := hle
      _ < 2 * (2 ^ p * 2 ^ j) := by
        have := Nat.mul_lt_mul_of_pos_right hm (Nat.two_pow_pos j)
        omega
      _ = 2 ^ (p + j + 1) := by rw [← Nat.pow_add, Nat.pow_succ, Nat.mul_comm]
  have hkj : k ≤ j := by
    have := (Nat.pow_lt_pow_iff_right (by decide)).mp hlt
    omega
  refine ⟨m * 2 ^ (j - k), ?_⟩
  rw [Nat.mul_assoc, ← Nat.pow_add, Nat.sub_add_cancel hkj]

variable {p : ℕ} (hp : 0 < p)

include hp

theorem pow_le_of_excess {n : ℕ} (h : excess p n ≠ 0) : 2 ^ (p + excess p n) ≤ 2 * n := by
  have hlog : p + excess p n = n.log2 + 1 := by
    unfold excess at h ⊢
    omega
  have hne : n ≠ 0 := by
    rintro rfl
    rw [excess, Nat.log2_zero] at h
    omega
  rw [hlog, Nat.pow_succ, Nat.mul_comm]
  exact Nat.mul_le_mul_left 2 (Nat.log2_self_le hne)

omit hp in
theorem div_excess_lt (p n : ℕ) : n / 2 ^ excess p n < 2 ^ p := by
  rw [Nat.div_lt_iff_lt_mul (Nat.two_pow_pos _), ← Nat.pow_add]
  refine Nat.lt_of_lt_of_le Nat.lt_log2_self (Nat.pow_le_pow_right (by decide) ?_)
  unfold excess
  omega

theorem fits_round (n : ℕ) : Fits p (round p n) := by
  have hle := roundShift_le n (excess p n)
  have hlt := div_excess_lt p n
  rcases Nat.lt_or_eq_of_le (Nat.le_trans hle hlt) with hsmall | hcarry
  · exact ⟨_, _, hsmall, rfl⟩
  · refine ⟨1, p + excess p n, Nat.one_lt_two_pow (Nat.ne_of_gt hp), ?_⟩
    rw [round, hcarry, ← Nat.pow_add, Nat.one_mul]

omit hp in
theorem round_of_excess_eq_zero {n : ℕ} (h : excess p n = 0) : round p n = n := by
  rw [round, h, roundShift_zero, Nat.pow_zero, Nat.mul_one]

/-- The numbers that fit are left alone. -/
theorem round_eq_self_iff (n : ℕ) : round p n = n ↔ Fits p n := by
  constructor
  · intro h
    rw [← h]
    exact fits_round hp n
  · intro h
    by_cases hexcess : excess p n = 0
    · exact round_of_excess_eq_zero hexcess
    · obtain ⟨m, hm⟩ := h.exists_mul (pow_le_of_excess hp hexcess)
      have hshift := roundShift_mul m (excess p n)
      rw [← hm] at hshift
      rw [round, hshift, ← hm]

/-- No number that fits is nearer. -/
theorem round_nearest (n : ℕ) {z : ℕ} (hz : Fits p z) :
    ((round p n : ℕ) - n : ℤ).natAbs ≤ (z - n : ℤ).natAbs := by
  by_cases hexcess : excess p n = 0
  · rw [round_of_excess_eq_zero hexcess, Int.sub_self]
    exact Nat.zero_le _
  · have hn := pow_le_of_excess hp hexcess
    by_cases hle : 2 ^ (p + excess p n) ≤ 2 * z
    · obtain ⟨m, hm⟩ := hz.exists_mul hle
      have hnearest := roundShift_nearest n (excess p n) m
      rwa [← hm] at hnearest
    · -- The least number with as many bits is a multiple between `z` and `n`.
      have hnearest := roundShift_nearest n (excess p n) (2 ^ (p - 1))
      have hpow : 2 * (2 ^ (p - 1) * 2 ^ excess p n) = 2 ^ (p + excess p n) := by
        rw [← Nat.mul_assoc, Nat.mul_comm 2, ← Nat.pow_succ, ← Nat.pow_add,
          Nat.succ_eq_add_one, Nat.sub_add_cancel hp]
      unfold round
      omega

end Dmn.Rounding
