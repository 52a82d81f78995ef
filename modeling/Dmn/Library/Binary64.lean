import Dmn.Library.Rounding

/-! # Integers as 64-bit floating-point numbers

A number is the word of its bits: a sign, 11 bits of exponent and 52 bits of the significand, the
first bit of which is left out. -/

namespace Dmn.Binary64

/-- The significant bits of a number. -/
abbrev precision : ℕ := 53

/-- The word of infinity, without the sign. -/
def infinity : ℕ := 2047 * 2 ^ 52

/-- The first 53 bits, rounded to the nearest, to even. -/
def significand (n : ℕ) : ℕ :=
  if n.log2 ≤ 52 then n * 2 ^ (52 - n.log2) else Rounding.roundShift n (n.log2 - 52)

/-- The word of a natural number. A significand that is rounded up to one bit more adds to the
exponent, as its first bit does. -/
def magnitude (n : ℕ) : ℕ :=
  if n = 0 then 0 else min infinity ((1022 + n.log2) * 2 ^ 52 + significand n)

def ofInt (x : ℤ) : UInt64 :=
  UInt64.ofNat (magnitude x.natAbs + if x < 0 then 2 ^ 63 else 0)

/-- The integral part of a finite word without the sign. -/
def floor (word : ℕ) : ℕ :=
  let exponent := word / 2 ^ 52
  let significand := if exponent = 0 then word % 2 ^ 52 else 2 ^ 52 + word % 2 ^ 52
  if 1075 ≤ exponent then significand * 2 ^ (exponent - 1075)
  else significand / 2 ^ (1075 - max 1 exponent)

/-- The number without its fraction, unless it is infinite or not a number. -/
def truncate (word : UInt64) : Option ℤ :=
  let magnitude := word.toNat % 2 ^ 63
  if infinity ≤ magnitude then none
  else some (if 2 ^ 63 ≤ word.toNat then -(floor magnitude : ℤ) else floor magnitude)

/-- An integer with its magnitude rounded. -/
def roundInt (x : ℤ) : ℤ :=
  if x < 0 then -(Rounding.round precision x.natAbs : ℤ) else Rounding.round precision x.natAbs

/-! ## Natural numbers -/

theorem pow_le_significand {n : ℕ} (h : n ≠ 0) : 2 ^ 52 ≤ significand n := by
  have hlow := Nat.log2_self_le h
  unfold significand
  split
  · calc
      2 ^ 52 = 2 ^ n.log2 * 2 ^ (52 - n.log2) := by
        rw [← Nat.pow_add, Nat.add_sub_cancel' (by assumption)]
      _ ≤ n * 2 ^ (52 - n.log2) := Nat.mul_le_mul_right _ hlow
  · refine Nat.le_trans ?_ (Rounding.div_le_roundShift n _)
    rw [Nat.le_div_iff_mul_le (Nat.two_pow_pos _), ← Nat.pow_add]
    refine Nat.le_trans (Nat.pow_le_pow_right (by decide) ?_) hlow
    omega

theorem significand_lt_of_le {n : ℕ} (h : n.log2 ≤ 52) : significand n < 2 ^ 53 := by
  rw [significand, if_pos h]
  calc
    n * 2 ^ (52 - n.log2) < 2 ^ (n.log2 + 1) * 2 ^ (52 - n.log2) :=
      Nat.mul_lt_mul_of_pos_right Nat.lt_log2_self (Nat.two_pow_pos _)
    _ = 2 ^ 53 := by
      rw [← Nat.pow_add]
      congr 1
      omega

theorem significand_le (n : ℕ) : significand n ≤ 2 ^ 53 := by
  by_cases h : n.log2 ≤ 52
  · exact Nat.le_of_lt (significand_lt_of_le h)
  · rw [significand, if_neg h]
    refine Nat.le_trans (Rounding.roundShift_le n _) ?_
    rw [Nat.succ_le_iff, Nat.div_lt_iff_lt_mul (Nat.two_pow_pos _), ← Nat.pow_add]
    refine Nat.lt_of_lt_of_le Nat.lt_log2_self (Nat.pow_le_pow_right (by decide) ?_)
    omega

/-- The fields of a word that was put together. -/
theorem floor_word {e s : ℕ} (hlow : 2 ^ 52 ≤ s) (hhigh : s < 2 ^ 53 ∨ s = 2 ^ 53 ∧ 52 ≤ e) :
    floor ((1022 + e) * 2 ^ 52 + s) =
      if 52 ≤ e then s * 2 ^ (e - 52) else s / 2 ^ (52 - e) := by
  unfold floor
  rcases hhigh with hlt | ⟨rfl, he⟩
  · have hexponent : ((1022 + e) * 2 ^ 52 + s) / 2 ^ 52 = 1023 + e := by omega
    have hfraction : 2 ^ 52 + ((1022 + e) * 2 ^ 52 + s) % 2 ^ 52 = s := by omega
    have hne : 1023 + e ≠ 0 := by omega
    simp only [hexponent, hfraction, if_neg hne]
    by_cases he : 52 ≤ e
    · rw [if_pos he, if_pos (by omega), show 1023 + e - 1075 = e - 52 by omega]
    · rw [if_neg he, if_neg (by omega), show 1075 - max 1 (1023 + e) = 52 - e by omega]
  · have hexponent : ((1022 + e) * 2 ^ 52 + 2 ^ 53) / 2 ^ 52 = 1024 + e := by omega
    have hfraction : ((1022 + e) * 2 ^ 52 + 2 ^ 53) % 2 ^ 52 = 0 := by omega
    have hne : 1024 + e ≠ 0 := by omega
    simp only [hexponent, hfraction, if_neg hne]
    rw [if_pos he, if_pos (by omega), show 1024 + e - 1075 = e - 52 + 1 by omega, Nat.pow_succ]
    omega

theorem magnitude_eq {n : ℕ} (hne : n ≠ 0) (h : n.log2 < 1023) :
    magnitude n = (1022 + n.log2) * 2 ^ 52 + significand n := by
  have hle := significand_le n
  rw [magnitude, if_neg hne]
  apply Nat.min_eq_right
  unfold infinity
  omega

theorem magnitude_lt {n : ℕ} (h : n.log2 < 1022) : magnitude n < infinity := by
  by_cases hne : n = 0
  · subst hne
    decide
  · have hle := significand_le n
    rw [magnitude_eq hne (Nat.lt_succ_of_lt h), infinity]
    omega

theorem floor_zero : floor 0 = 0 := by
  simp only [floor, Nat.zero_div, Nat.zero_mod, Nat.zero_mul, if_true, ite_self]

theorem floor_magnitude {n : ℕ} (h : n.log2 < 1022) :
    floor (magnitude n) = Rounding.round precision n := by
  by_cases hne : n = 0
  · subst hne
    rw [show magnitude 0 = 0 from rfl, floor_zero]
    rfl
  · have hlow := pow_le_significand hne
    rw [magnitude_eq hne (Nat.lt_succ_of_lt h)]
    by_cases hexact : n.log2 ≤ 52
    · have hexcess : Rounding.excess precision n = 0 := by
        unfold Rounding.excess precision
        omega
      rw [floor_word hlow (.inl (significand_lt_of_le hexact)),
        Rounding.round_of_excess_eq_zero hexcess, significand, if_pos hexact]
      split
      · next hge =>
        have heq : n.log2 = 52 := Nat.le_antisymm hexact hge
        rw [heq, Nat.sub_self, Nat.pow_zero, Nat.mul_one, Nat.mul_one]
      · rw [Nat.mul_div_cancel _ (Nat.two_pow_pos _)]
    · have hge : 52 ≤ n.log2 := Nat.le_of_not_le hexact
      have hexcess : Rounding.excess precision n = n.log2 - 52 := by
        unfold Rounding.excess precision
        omega
      have hhigh := Nat.lt_or_eq_of_le (significand_le n)
      rw [floor_word hlow (hhigh.imp_right fun heq => ⟨heq, hge⟩), if_pos hge, Rounding.round,
        hexcess, significand, if_neg hexact]

/-! ## Integers -/

theorem toNat_ofInt {x : ℤ} (h : x.natAbs.log2 < 1022) :
    (ofInt x).toNat = magnitude x.natAbs + if x < 0 then 2 ^ 63 else 0 := by
  have hlt := magnitude_lt h
  have hsize : magnitude x.natAbs + (if x < 0 then 2 ^ 63 else 0) < 2 ^ 64 := by
    unfold infinity at hlt
    split <;> omega
  rw [ofInt, UInt64.toNat_ofNat_of_lt' hsize]

/-- An integer comes back rounded. -/
theorem truncate_ofInt {x : ℤ} (h : x.natAbs.log2 < 1022) :
    truncate (ofInt x) = some (roundInt x) := by
  have hlt := magnitude_lt h
  have hword := toNat_ofInt h
  have hmagnitude : (ofInt x).toNat % 2 ^ 63 = magnitude x.natAbs := by
    rw [hword]
    unfold infinity at hlt
    split <;> omega
  have hsign : 2 ^ 63 ≤ (ofInt x).toNat ↔ x < 0 := by
    rw [hword]
    unfold infinity at hlt
    split <;> omega
  simp only [truncate, hmagnitude, hsign, floor_magnitude h, if_neg (Nat.not_le_of_lt hlt),
    roundInt]

theorem natAbs_roundInt (x : ℤ) :
    (roundInt x).natAbs = Rounding.round precision x.natAbs := by
  unfold roundInt
  split
  · rw [Int.natAbs_neg, Int.natAbs_natCast]
  · rw [Int.natAbs_natCast]

/-- The integers of at most 53 significant bits are left alone. -/
theorem roundInt_eq_self_iff (x : ℤ) :
    roundInt x = x ↔ Rounding.Fits precision x.natAbs := by
  rw [← Rounding.round_eq_self_iff (by decide)]
  constructor
  · intro h
    rw [← natAbs_roundInt, h]
  · intro h
    rw [roundInt, h]
    split <;> omega

/-- No integer of at most 53 significant bits is nearer. -/
theorem roundInt_nearest (x : ℤ) {z : ℤ} (hz : Rounding.Fits precision z.natAbs) :
    (roundInt x - x).natAbs ≤ (z - x).natAbs := by
  have hnearest := Rounding.round_nearest (p := precision) (by decide) x.natAbs hz
  have hzero := Rounding.round_nearest (p := precision) (by decide) x.natAbs
    (z := 0) ⟨0, 0, by decide, rfl⟩
  unfold roundInt
  split <;> omega

end Dmn.Binary64
