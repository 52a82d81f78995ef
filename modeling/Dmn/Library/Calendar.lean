import Mathlib.Algebra.BigOperators.Group.List.Basic
import Mathlib.Algebra.Order.Ring.Int
import Mathlib.Tactic.Ring

/-! # The Gregorian calendar

Dates as numbers of days, extended to all years before and after the reform. -/

namespace Dmn.Calendar

/-! ## Positions in consecutive blocks -/

/-- The block that a position falls into, and how far into it. -/
def locate : List ℕ → ℕ → ℕ × ℕ
  | [], n => (0, n)
  | length :: lengths, n =>
      if n < length then (0, n)
      else ((locate lengths (n - length)).1 + 1, (locate lengths (n - length)).2)

theorem locate_of_lt {length n : ℕ} (lengths : List ℕ) (h : n < length) :
    locate (length :: lengths) n = (0, n) := if_pos h

theorem locate_of_le {length n : ℕ} (lengths : List ℕ) (h : length ≤ n) :
    locate (length :: lengths) n =
      ((locate lengths (n - length)).1 + 1, (locate lengths (n - length)).2) :=
  if_neg (Nat.not_lt.mpr h)

/-- The blocks in front and the way into the last one add up to the position. -/
theorem sum_take_locate (lengths : List ℕ) (n : ℕ) :
    (lengths.take (locate lengths n).1).sum + (locate lengths n).2 = n := by
  induction lengths generalizing n with
  | nil => simp [locate]
  | cons length lengths ih =>
      rcases Nat.lt_or_ge n length with h | h
      · simp [locate_of_lt lengths h]
      · have hrest := ih (n - length)
        rw [locate_of_le lengths h, List.take_succ_cons, List.sum_cons]
        omega

/-- A position in front of the end falls into a block. -/
theorem locate_lt (lengths : List ℕ) (n : ℕ) (h : n < lengths.sum) :
    ∃ length, lengths[(locate lengths n).1]? = some length ∧ (locate lengths n).2 < length := by
  induction lengths generalizing n with
  | nil => simp at h
  | cons length lengths ih =>
      rcases Nat.lt_or_ge n length with hlt | hle
      · exact ⟨length, by simp [locate_of_lt lengths hlt], by rwa [locate_of_lt lengths hlt]⟩
      · rw [List.sum_cons] at h
        rw [locate_of_le lengths hle, List.getElem?_cons_succ]
        exact ih (n - length) (by omega)

/-! ## Years and months -/

def IsLeap (year : ℤ) : Prop := 4 ∣ year ∧ (100 ∣ year → 400 ∣ year)

instance (year : ℤ) : Decidable (IsLeap year) := inferInstanceAs (Decidable (_ ∧ _))

def monthLengths (year : ℤ) : List ℕ :=
  [31, if IsLeap year then 29 else 28, 31, 30, 31, 30, 31, 31, 30, 31, 30, 31]

/-- The days from the first of January of the year 1. -/
def daysBeforeYear (year : ℤ) : ℤ :=
  365 * (year - 1) + (year - 1) / 4 - (year - 1) / 100 + (year - 1) / 400

theorem sum_monthLengths (year : ℤ) :
    (monthLengths year).sum = if IsLeap year then 366 else 365 := by
  unfold monthLengths
  split <;> rfl

/-! ## The date of a day -/

section Cycles

variable (cycle : ℤ) {century quad year : ℤ}

theorem daysBeforeYear_parts (hcentury : 0 ≤ century ∧ century ≤ 3) (hquad : 0 ≤ quad ∧ quad ≤ 24)
    (hyear : 0 ≤ year ∧ year ≤ 3) :
    daysBeforeYear (400 * cycle + 100 * century + 4 * quad + year + 1) =
      146097 * cycle + 36524 * century + 1461 * quad + 365 * year := by
  have hfour : (400 * cycle + 100 * century + 4 * quad + year) / 4 =
      100 * cycle + 25 * century + quad := by omega
  have hhundred : (400 * cycle + 100 * century + 4 * quad + year) / 100 =
      4 * cycle + century := by omega
  have hcycle : (400 * cycle + 100 * century + 4 * quad + year) / 400 = cycle := by omega
  rw [daysBeforeYear, add_sub_cancel_right, hfour, hhundred, hcycle]
  ring

theorem isLeap_parts (hcentury : 0 ≤ century ∧ century ≤ 3) (hquad : 0 ≤ quad ∧ quad ≤ 24)
    (hyear : 0 ≤ year ∧ year ≤ 3) :
    IsLeap (400 * cycle + 100 * century + 4 * quad + year + 1) ↔
      year = 3 ∧ (quad = 24 → century = 3) := by
  unfold IsLeap
  omega

end Cycles

/-- One of `k + 1` blocks of the given length, of which the last one may be longer. -/
def block (k length n : ℤ) : ℤ := min k (n / length)

theorem block_spec (k length : ℤ) {n : ℤ} (hk : 0 ≤ k) (hlength : 0 < length) (hn : 0 ≤ n) :
    0 ≤ block k length n ∧ block k length n ≤ k ∧ 0 ≤ n - length * block k length n ∧
      (n - length * block k length n < length ∨ block k length n = k) := by
  have hdiv : 0 ≤ n / length := Int.ediv_nonneg hn hlength.le
  have hmul : length * (n / length) ≤ n := Int.mul_ediv_self_le hlength.ne'
  have hlt : n < length * (n / length) + length := Int.lt_mul_ediv_self_add hlength
  unfold block
  rcases le_total k (n / length) with h | h
  · rw [min_eq_left h]
    have := mul_le_mul_of_nonneg_left h hlength.le
    exact ⟨hk, le_refl k, by omega, .inr rfl⟩
  · rw [min_eq_right h]
    exact ⟨hdiv, h, by omega, .inl (by omega)⟩

/-! A day from the first of January of the year 1 falls into four hundred years, of these into a
century, of that into four years and of these into a year. The last of four centuries and the last
of four years are a day longer. -/

def century (n : ℤ) : ℤ := block 3 36524 (n % 146097)

def inCentury (n : ℤ) : ℤ := n % 146097 - 36524 * century n

def quad (n : ℤ) : ℤ := inCentury n / 1461

def inQuad (n : ℤ) : ℤ := inCentury n % 1461

def yearInQuad (n : ℤ) : ℤ := block 3 365 (inQuad n)

def yearOf (n : ℤ) : ℤ := 400 * (n / 146097) + 100 * century n + 4 * quad n + yearInQuad n + 1

def dayInYear (n : ℤ) : ℕ := (inQuad n - 365 * yearInQuad n).toNat

theorem century_spec (n : ℤ) :
    (0 ≤ century n ∧ century n ≤ 3) ∧ 0 ≤ inCentury n ∧
      (inCentury n < 36524 ∨ century n = 3 ∧ inCentury n = 36524) := by
  have hcycle := Int.emod_lt_of_pos n (show (0 : ℤ) < 146097 by decide)
  have hblock := block_spec 3 36524 (by decide) (by decide)
    (Int.emod_nonneg n (show (146097 : ℤ) ≠ 0 by decide))
  unfold inCentury century
  omega

theorem quad_spec (n : ℤ) :
    (0 ≤ quad n ∧ quad n ≤ 24) ∧ inCentury n = 1461 * quad n + inQuad n ∧
      0 ≤ inQuad n ∧ inQuad n < 1461 := by
  have hcentury := century_spec n
  unfold inQuad quad
  omega

theorem yearInQuad_spec (n : ℤ) :
    (0 ≤ yearInQuad n ∧ yearInQuad n ≤ 3) ∧
      inQuad n = 365 * yearInQuad n + dayInYear n ∧
      (dayInYear n < 365 ∨ yearInQuad n = 3 ∧ dayInYear n = 365) := by
  have hquad := quad_spec n
  have hblock := block_spec 3 365 (n := inQuad n) (by decide) (by decide) (by omega)
  unfold dayInYear yearInQuad
  omega

theorem daysBeforeYear_yearOf (n : ℤ) : daysBeforeYear (yearOf n) + dayInYear n = n := by
  have hcentury := century_spec n
  have hquad := quad_spec n
  have hyear := yearInQuad_spec n
  have hdays : inCentury n = n % 146097 - 36524 * century n := rfl
  rw [yearOf, daysBeforeYear_parts _ hcentury.1 hquad.1 hyear.1]
  omega

theorem dayInYear_lt (n : ℤ) : dayInYear n < (monthLengths (yearOf n)).sum := by
  have hcentury := century_spec n
  have hquad := quad_spec n
  have hyear := yearInQuad_spec n
  have hleap := isLeap_parts (n / 146097) hcentury.1 hquad.1 hyear.1
  rw [sum_monthLengths, yearOf]
  split
  · omega
  · rename_i hnot
    rw [hleap] at hnot
    omega

/-! ## Days and dates -/

/-- A date that the calendar has. -/
structure Date where
  year : ℤ
  month : ℕ
  day : ℕ
  month_pos : 0 < month
  day_pos : 0 < day
  day_le : ∃ length, (monthLengths year)[month - 1]? = some length ∧ day ≤ length

/-- The first of January 1970 as a day from the first of January of the year 1. -/
def epoch : ℤ := 719162

/-- The days from the first of January 1970 to a date. -/
def dayNumber (year : ℤ) (month day : ℕ) : ℤ :=
  daysBeforeYear year + ((monthLengths year).take (month - 1)).sum + (day - 1) - epoch

/-- The date that comes this many days after the first of January 1970. -/
def dateOf (n : ℤ) : Date where
  year := yearOf (n + epoch)
  month := (locate (monthLengths (yearOf (n + epoch))) (dayInYear (n + epoch))).1 + 1
  day := (locate (monthLengths (yearOf (n + epoch))) (dayInYear (n + epoch))).2 + 1
  month_pos := Nat.succ_pos _
  day_pos := Nat.succ_pos _
  day_le := locate_lt _ _ (dayInYear_lt (n + epoch))

theorem dayNumber_dateOf (n : ℤ) :
    dayNumber (dateOf n).year (dateOf n).month (dateOf n).day = n := by
  have hmonth := sum_take_locate (monthLengths (yearOf (n + epoch))) (dayInYear (n + epoch))
  have hyear := daysBeforeYear_yearOf (n + epoch)
  simp only [dayNumber, dateOf, Nat.add_sub_cancel]
  omega

end Dmn.Calendar
