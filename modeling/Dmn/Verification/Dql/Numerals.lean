import Mathlib.Data.Rat.Floor
import Mathlib.Tactic.FieldSimp
import Mathlib.Tactic.NormNum
import Dmn.Library.HalfEven
import Dmn.Library.Terminated
import Dmn.Model.Dql

/-! # The number that a numeral denotes

A `double` is rendered with six decimals, less the zeros at the end. The numeral denotes the
number rounded to millionths, so that two numbers that are close may have one numeral. -/

namespace Dmn.Dql

open HalfEven

/-! ## Numerals -/

/-- The digits behind the point. -/
def fraction (digits : List Char) : ℚ := Nat.ofDigitChars 10 digits 0 / 10 ^ digits.length

/-- The number that a numeral without a sign denotes. -/
def unsignedValue (numeral : List Char) : ℚ :=
  Nat.ofDigitChars 10 (numeral.takeWhile (· ≠ '.')) 0 +
    fraction (numeral.dropWhile (· ≠ '.')).tail

def numeralValue : List Char → ℚ
  | '-' :: numeral => -unsignedValue numeral
  | numeral => unsignedValue numeral

theorem fraction_nil : fraction [] = 0 := by simp [fraction]

/-- A zero at the end does not count. -/
theorem fraction_append_zero (digits : List Char) : fraction (digits ++ ['0']) = fraction digits := by
  have hvalue : Nat.ofDigitChars 10 (digits ++ ['0']) 0 = 10 * Nat.ofDigitChars 10 digits 0 := by
    rw [Nat.ofDigitChars_append, Nat.ofDigitChars_cons, Nat.ofDigitChars_nil]
    rfl
  rw [fraction, fraction, hvalue, List.length_append, List.length_singleton, pow_succ]
  push_cast
  field_simp

theorem unsignedValue_whole {whole : List Char} (h : '.' ∉ whole) :
    unsignedValue whole = Nat.ofDigitChars 10 whole 0 := by
  have hall := Terminated.forall_ne h
  rw [unsignedValue, List.takeWhile_eq_self_iff.mpr hall, List.dropWhile_eq_nil_iff.mpr hall,
    List.tail_nil, fraction_nil, add_zero]

theorem unsignedValue_point {whole : List Char} (h : '.' ∉ whole) (digits : List Char) :
    unsignedValue (whole ++ '.' :: digits) =
      Nat.ofDigitChars 10 whole 0 + fraction digits := by
  rw [unsignedValue, Terminated.takeWhile_append_cons h, Terminated.dropWhile_append_cons h,
    List.tail_cons]

/-! ## Zeros at the end -/

/-- The zeros behind the last other digit are dropped, and the fraction stays. -/
theorem rdropWhile_zero (front digits : List Char) :
    ∃ kept, (front ++ '.' :: digits).rdropWhile (· = '0') = front ++ '.' :: kept ∧
      kept <+: digits ∧ fraction kept = fraction digits := by
  induction digits using List.reverseRecOn with
  | nil => exact ⟨[], by simp, List.prefix_rfl, rfl⟩
  | append_singleton digits c ih =>
      obtain ⟨kept, hdrop, hprefix, hfraction⟩ := ih
      have hassoc : front ++ '.' :: (digits ++ [c]) = (front ++ '.' :: digits) ++ [c] := by simp
      rw [hassoc]
      by_cases hc : c = '0'
      · refine ⟨kept, ?_, hprefix.trans (List.prefix_append _ _), ?_⟩
        · rw [List.rdropWhile_concat_pos _ _ _ (by simpa using hc), hdrop]
        · rw [hfraction, hc, fraction_append_zero]
      · refine ⟨digits ++ [c], ?_, List.prefix_rfl, rfl⟩
        rw [List.rdropWhile_concat_neg _ _ _ (by simpa using hc), hassoc]

/-- What `renderDouble` does to a text with a point. -/
def strip (text : List Char) : List Char :=
  let out := text.rdropWhile (· = '0')
  if out.getLast? = some '.' then out.dropLast else out

theorem strip_point (front : List Char) {digits : List Char} (h : '.' ∉ digits) :
    ∃ kept, fraction kept = fraction digits ∧
      strip (front ++ '.' :: digits) = front ++ if kept = [] then [] else '.' :: kept := by
  obtain ⟨kept, hdrop, hprefix, hfraction⟩ := rdropWhile_zero front digits
  refine ⟨kept, hfraction, ?_⟩
  rw [strip, hdrop]
  by_cases hkept : kept = []
  · simp [hkept]
  · obtain ⟨init, last, hlast⟩ := (List.eq_nil_or_concat' kept).resolve_left hkept
    have hmem : last ∈ digits := hprefix.subset (by rw [hlast]; simp)
    have hne : (front ++ '.' :: kept).getLast? ≠ some '.' := by
      have hassoc : front ++ '.' :: kept = (front ++ '.' :: init) ++ [last] := by simp [hlast]
      rw [hassoc, List.getLast?_concat]
      rintro ⟨⟩
      exact h hmem
    rw [if_neg hne, if_neg hkept]

/-- The numeral denotes the same number before and after. -/
theorem unsignedValue_strip {whole digits : List Char} (hwhole : '.' ∉ whole)
    (hdigits : '.' ∉ digits) (sign : List Char) :
    ∃ numeral, strip (sign ++ (whole ++ '.' :: digits)) = sign ++ numeral ∧
      (∃ rest, numeral = whole ++ rest) ∧
      unsignedValue numeral = Nat.ofDigitChars 10 whole 0 + fraction digits := by
  obtain ⟨kept, hfraction, hstrip⟩ := strip_point (sign ++ whole) hdigits
  rw [List.append_assoc] at hstrip
  refine ⟨whole ++ if kept = [] then [] else '.' :: kept, ?_, ⟨_, rfl⟩, ?_⟩
  · rw [hstrip, List.append_assoc]
  · rw [← hfraction]
    split_ifs with hkept
    · rw [hkept, List.append_nil, unsignedValue_whole hwhole, fraction_nil, add_zero]
    · exact unsignedValue_point hwhole kept

/-! ## Digits -/

theorem point_notMem_toDigits (n : ℕ) : '.' ∉ Nat.toDigits 10 n := by
  intro h
  have hdigit := Nat.isDigit_of_mem_toDigits (by decide) (by decide) h
  revert hdigit
  decide

theorem point_notMem_leftpad (n : ℕ) : '.' ∉ (Nat.toDigits 10 n).leftpad 6 '0' := by
  intro h
  rcases List.mem_append.mp h with h | h
  · exact absurd (List.eq_of_mem_replicate h) (by decide)
  · exact point_notMem_toDigits n h

theorem fraction_leftpad {n : ℕ} (h : n < 10 ^ 6) :
    fraction ((Nat.toDigits 10 n).leftpad 6 '0') = n / 10 ^ 6 := by
  have hlength : ((Nat.toDigits 10 n).leftpad 6 '0').length = 6 := by
    rw [List.length_leftpad]
    exact Nat.max_eq_left ((Nat.length_toDigits_le_iff (by decide) (by decide)).mpr h)
  have hvalue : Nat.ofDigitChars 10 ((Nat.toDigits 10 n).leftpad 6 '0') 0 = n := by
    rw [List.leftpad, Nat.ofDigitChars_append, Nat.ofDigitChars_replicate_zero, Nat.mul_zero,
      Nat.ofDigitChars_ten_toDigits]
  rw [fraction, hlength, hvalue]

theorem whole_add_fraction (n : ℕ) :
    ((n / 10 ^ 6 : ℕ) : ℚ) + ((n % 10 ^ 6 : ℕ) : ℚ) / 10 ^ 6 = n / 10 ^ 6 := by
  rw [eq_div_iff (by norm_num), add_mul, div_mul_cancel₀ _ (by norm_num)]
  exact_mod_cast Nat.div_add_mod' n (10 ^ 6)

/-- A numeral with a digit in front has no sign. -/
theorem numeralValue_of_digit {n : ℕ} {rest : List Char} :
    numeralValue (Nat.toDigits 10 n ++ rest) = unsignedValue (Nat.toDigits 10 n ++ rest) := by
  rcases hdigits : Nat.toDigits 10 n with _ | ⟨c, digits⟩
  · exact absurd hdigits Nat.toDigits_ne_nil
  · have hc : c ∈ Nat.toDigits 10 n := by rw [hdigits]; exact List.mem_cons_self
    have hdigit := Nat.isDigit_of_mem_toDigits (by decide) (by decide) hc
    have hne : c ≠ '-' := by
      rintro rfl
      revert hdigit
      decide
    rw [List.cons_append, numeralValue.eq_2]
    intro numeral heq
    exact hne (List.cons.inj heq).1

/-! ## Doubles -/

def magnitude (mantissa : ℕ) (exponent : ℤ) : ℚ := mantissa * 2 ^ exponent

/-- The number that a double is. -/
def rational : Double → Option ℚ
  | .finite negative mantissa exponent =>
      some (if negative then -magnitude mantissa exponent else magnitude mantissa exponent)
  | .infinity _ => none
  | .nan _ => none

/-- A number rounded to six decimals, half to even. -/
def sixDecimals (x : ℚ) : ℚ := nearest (10 ^ 6 * x) / 10 ^ 6

theorem millionths_eq (mantissa : ℕ) (exponent : ℤ) :
    (millionths mantissa exponent : ℤ) = nearest (10 ^ 6 * magnitude mantissa exponent) := by
  have hpow : (2 : ℚ) ^ exponent =
      ((2 ^ exponent.toNat : ℕ) : ℚ) / ((2 ^ (-exponent).toNat : ℕ) : ℚ) := by
    rcases Int.le_total 0 exponent with hpos | hneg
    · obtain ⟨n, rfl⟩ := Int.eq_ofNat_of_zero_le hpos
      have hzero : (-(n : ℤ)).toNat = 0 := by omega
      rw [hzero, Int.toNat_natCast, zpow_natCast]
      simp
    · obtain ⟨n, hn⟩ := Int.eq_ofNat_of_zero_le (Int.neg_nonneg.mpr hneg)
      obtain rfl : exponent = -n := by omega
      have hzero : (-(n : ℤ)).toNat = 0 := by omega
      rw [hzero, neg_neg, Int.toNat_natCast, zpow_neg, zpow_natCast]
      simp
  have hscaled : 10 ^ 6 * magnitude mantissa exponent =
      ((mantissa * 10 ^ 6 * 2 ^ exponent.toNat : ℕ) : ℚ) / ((2 ^ (-exponent).toNat : ℕ) : ℚ) := by
    rw [magnitude, hpow]
    push_cast
    ring
  rw [hscaled, nearest_natCast_div _ _ (Nat.two_pow_pos _), millionths]
  split_ifs <;> rfl

/-- The numeral of a double denotes the double rounded to six decimals. -/
theorem numeralValue_renderDouble {d : Double} {x : ℚ} (h : rational d = some x) :
    numeralValue (renderDouble d) = sixDecimals x := by
  cases d with
  | infinity negative => cases h
  | nan negative => cases h
  | finite negative mantissa exponent =>
      have hmillionths := millionths_eq mantissa exponent
      obtain ⟨numeral, hstrip, ⟨rest, hrest⟩, hvalue⟩ := unsignedValue_strip
        (point_notMem_toDigits (millionths mantissa exponent / 10 ^ 6))
        (point_notMem_leftpad (millionths mantissa exponent % 10 ^ 6))
        (if negative then ['-'] else [])
      have hnumeral : unsignedValue numeral = millionths mantissa exponent / 10 ^ 6 := by
        rw [hvalue, Nat.ofDigitChars_ten_toDigits,
          fraction_leftpad (Nat.mod_lt _ (by decide))]
        exact whole_add_fraction _
      have hrender : renderDouble (.finite negative mantissa exponent) =
          (if negative then ['-'] else []) ++ numeral := hstrip
      have hround : (millionths mantissa exponent : ℚ) =
          nearest (10 ^ 6 * magnitude mantissa exponent) := by
        rw [← hmillionths, Int.cast_natCast]
      rw [hrender]
      cases negative with
      | false =>
          obtain rfl := Option.some.inj h
          have hunsigned : numeralValue numeral = unsignedValue numeral := by
            rw [hrest]
            exact numeralValue_of_digit
          simp only [Bool.false_eq_true, if_false, List.nil_append]
          rw [hunsigned, hnumeral, sixDecimals, hround]
      | true =>
          obtain rfl := Option.some.inj h
          have hsigned : numeralValue (['-'] ++ numeral) = -unsignedValue numeral := rfl
          simp only [if_true]
          rw [hsigned, hnumeral, sixDecimals, mul_neg, nearest_neg, hround]
          push_cast
          ring

/-! ## Thresholds -/

variable {a b : Double} {x y : ℚ}

/-- The numerals denote the roundings, which are in order, and differ where the numbers are more
than a millionth apart. -/
theorem renderDouble_ordered (hx : rational a = some x) (hy : rational b = some y) (h : x < y) :
    numeralValue (renderDouble a) = sixDecimals x ∧ numeralValue (renderDouble b) = sixDecimals y ∧
      numeralValue (renderDouble a) ≤ numeralValue (renderDouble b) ∧
      (numeralValue (renderDouble a) < numeralValue (renderDouble b) ↔
        sixDecimals x ≠ sixDecimals y) ∧
      (x + 1 / 10 ^ 6 < y → numeralValue (renderDouble a) < numeralValue (renderDouble b)) := by
  rw [numeralValue_renderDouble hx, numeralValue_renderDouble hy]
  have hle : sixDecimals x ≤ sixDecimals y := by
    have hnearest : nearest (10 ^ 6 * x) ≤ nearest (10 ^ 6 * y) := nearest_mono (by linarith)
    unfold sixDecimals
    gcongr
  refine ⟨rfl, rfl, hle, ⟨ne_of_lt, fun hne => lt_of_le_of_ne hle hne⟩, fun hfar => ?_⟩
  have hnearest : nearest (10 ^ 6 * x) < nearest (10 ^ 6 * y) :=
    nearest_lt_of_add_one_lt (by linarith)
  unfold sixDecimals
  gcongr

/-- Zero, and a billionth. -/
theorem rational_zero : rational (.finite false 0 0) = some 0 := by
  simp [rational, magnitude]

theorem rational_tiny : rational (.finite false 1 (-30)) = some (1 / 2 ^ 30) := by
  simp [rational, magnitude]

theorem renderDouble_ordered_tiny :
    numeralValue (renderDouble (.finite false 0 0)) = sixDecimals 0 ∧
      numeralValue (renderDouble (.finite false 1 (-30))) = sixDecimals (1 / 2 ^ 30) ∧
      numeralValue (renderDouble (.finite false 0 0)) ≤
        numeralValue (renderDouble (.finite false 1 (-30))) ∧
      (numeralValue (renderDouble (.finite false 0 0)) <
          numeralValue (renderDouble (.finite false 1 (-30))) ↔
        sixDecimals 0 ≠ sixDecimals (1 / 2 ^ 30)) ∧
      (0 + 1 / 10 ^ 6 < (1 / 2 ^ 30 : ℚ) → numeralValue (renderDouble (.finite false 0 0)) <
        numeralValue (renderDouble (.finite false 1 (-30)))) :=
  renderDouble_ordered rational_zero rational_tiny (by norm_num)

/-- Both are rendered as zero. -/
theorem renderDouble_tiny : rational (.finite false 0 0) = some 0 ∧
    rational (.finite false 1 (-30)) = some (1 / 2 ^ 30) ∧ (0 : ℚ) < 1 / 2 ^ 30 ∧
    renderDouble (.finite false 0 0) = renderDouble (.finite false 1 (-30)) ∧
    ¬ numeralValue (renderDouble (.finite false 0 0)) <
      numeralValue (renderDouble (.finite false 1 (-30))) := by
  have hsame : renderDouble (.finite false 0 0) = renderDouble (.finite false 1 (-30)) := by decide
  refine ⟨rational_zero, rational_tiny, by norm_num, hsame, ?_⟩
  rw [hsame]
  exact lt_irrefl _

end Dmn.Dql
