import Dmn.Model.TimeDate
import Mathlib.Data.Int.Order.Lemmas

/-! # Time points and back

A time point comes back from its TIMEDATE where its distance from 1970 in seconds fits the 32 bits
of the native difference, and nowhere else. -/

namespace Dmn

/-! ## What is assumed of the native functions -/

/-- The fields are those of a moment in UTC. -/
structure Time.Valid (t : Time) : Prop where
  date : ∃ d : Calendar.Date, t.year = d.year ∧ t.month = d.month ∧ t.day = d.day
  hour : 0 ≤ t.hour ∧ t.hour < 24
  minute : 0 ≤ t.minute ∧ t.minute < 60
  second : 0 ≤ t.second ∧ t.second < 60
  hundredth : 0 ≤ t.hundredth ∧ t.hundredth < 100
  utc : t.dst = 0 ∧ t.zone = 0

/-- The hundredths of a second of a day that have passed. -/
def Time.inDay (t : Time) : ℤ :=
  360000 * t.hour + 6000 * t.minute + 100 * t.second + t.hundredth

/-- The hundredths of a second since 1970. -/
def Time.hundredths (t : Time) : ℤ :=
  8640000 * Calendar.dayNumber t.year t.month.toNat t.day.toNat + t.inDay

theorem Time.Valid.inDay {t : Time} (h : t.Valid) : 0 ≤ t.inDay ∧ t.inDay < 8640000 := by
  have hhour := h.hour
  have hminute := h.minute
  have hsecond := h.second
  have hhundredth := h.hundredth
  unfold Time.inDay
  omega

namespace TimeDate

/-- `TimeLocalToGM` converts the fields exactly where it converts them, those of the epoch among
them, and `TimeDateDifference` returns a difference of whole seconds where 32 bits hold it.
`instant` is the moment that a TIMEDATE stands for, in hundredths of a second since 1970. -/
structure Exact (env : Env) (instant : TimeDate → ℤ) : Prop where
  converts : ∀ t gm, t.Valid → env.timeLocalToGm t = (.noError, gm) → instant gm = t.hundredths
  epoch : (env.timeLocalToGm epochTime).1 = .noError
  difference : ∀ a b (n : Int32), instant a - instant b = 100 * n.toInt →
    env.timeDateDifference a b = n

variable {env : Env} {instant : TimeDate → ℤ} {tp n : ℤ} {value : TimeDate}

/-! ## From a time point -/

/-- The fields that `from_time_point` fills. -/
def fields (env : Env) (tp : ℤ) : Time :=
  let hundredths := tp / env.ticks
  let ymd := Calendar.dateOf (hundredths / 8640000)
  { year := ymd.year
    month := ymd.month
    day := ymd.day
    hour := (hundredths - 8640000 * (hundredths / 8640000)) / 360000
    minute := (hundredths - 8640000 * (hundredths / 8640000)) / 6000 % 60
    second := (hundredths - 8640000 * (hundredths / 8640000)) / 100 % 60
    hundredth := (hundredths - 8640000 * (hundredths / 8640000)) % 100 }

theorem valid_fields (env : Env) (tp : ℤ) : (fields env tp).Valid where
  date := ⟨Calendar.dateOf (tp / env.ticks / 8640000), rfl, rfl, rfl⟩
  hour := by
    simp only [fields]
    omega
  minute := by
    simp only [fields]
    omega
  second := by
    simp only [fields]
    omega
  hundredth := by
    simp only [fields]
    omega
  utc := ⟨rfl, rfl⟩

/-- No time is lost but what is less than a hundredth of a second. -/
theorem hundredths_fields (env : Env) (tp : ℤ) : (fields env tp).hundredths = tp / env.ticks := by
  have hday := Calendar.dayNumber_dateOf (tp / env.ticks / 8640000)
  simp only [Time.hundredths, Time.inDay, fields, Int.toNat_natCast, hday]
  omega

theorem fromTimePoint_eq (env : Env) (tp : ℤ) :
    fromTimePoint env tp =
      if !isOk (Calendar.dateOf (tp / env.ticks / 8640000)) then
        .error (.outOfRange "Date is outside the calendar range")
      else if (env.timeLocalToGm (fields env tp)).1.isError then
        .error (.conversionError "Failed to create TIMEDATE from time point")
      else .ok (env.timeLocalToGm (fields env tp)).2 := by
  unfold fromTimePoint
  simp only [fields]
  split
  · rfl
  · split
    · rename_i hstatus
      exact (if_pos hstatus).symm
    · rename_i hstatus
      exact (if_neg hstatus).symm

/-- What is returned is what `TimeLocalToGM` made of the fields. -/
theorem timeLocalToGm_of_fromTimePoint (h : fromTimePoint env tp = .ok value) :
    env.timeLocalToGm (fields env tp) = (.noError, value) := by
  rw [fromTimePoint_eq] at h
  split at h
  · cases h
  · split at h
    · cases h
    · rename_i hstatus
      exact Prod.ext (by simpa [Status.isError] using hstatus) (Except.ok.inj h)

theorem instant_fromTimePoint (hexact : Exact env instant)
    (h : fromTimePoint env tp = .ok value) : instant value = tp / env.ticks := by
  rw [← hundredths_fields]
  exact hexact.converts _ value (valid_fields env tp) (timeLocalToGm_of_fromTimePoint h)

/-- A whole second is a moment of the clock that no rounding changes. -/
theorem instant_seconds (hexact : Exact env instant)
    (h : fromTimePoint env (seconds env n) = .ok value) : instant value = 100 * n := by
  have hticks : (env.ticks : ℤ) ≠ 0 := by
    have := env.ticks_pos
    omega
  rw [instant_fromTimePoint hexact h, seconds, ← mul_assoc, Int.mul_ediv_cancel _ hticks]
  ring

/-! ## To a time point -/

theorem valid_epochTime : epochTime.Valid where
  date := ⟨Calendar.dateOf 0, by decide, by decide, by decide⟩
  hour := by decide
  minute := by decide
  second := by decide
  hundredth := by decide
  utc := by decide

theorem instant_epoch (hexact : Exact env instant) :
    instant (env.timeLocalToGm epochTime).2 = 0 := by
  rw [hexact.converts epochTime _ valid_epochTime (Prod.ext hexact.epoch rfl)]
  decide

/-- The epoch is converted, so that there is always a time point. -/
theorem toTimePoint_eq (hexact : Exact env instant) (value : TimeDate) :
    toTimePoint env value = some (seconds env
      (env.timeDateDifference value (env.timeLocalToGm epochTime).2).toInt) := by
  have hstatus : (env.timeLocalToGm epochTime).1.isError = false := by
    rw [hexact.epoch]
    rfl
  simp [toTimePoint, hstatus]

theorem seconds_injective (env : Env) : Function.Injective (seconds env) := by
  intro m n h
  have hticks := env.ticks_pos
  exact mul_right_cancel₀ (by omega) h

/-! ## Round trip -/

/-- The time points that convert and come back are those that 32 bits count the seconds of. -/
theorem toTimePoint_fromTimePoint_iff (hexact : Exact env instant)
    (h : fromTimePoint env (seconds env n) = .ok value) :
    toTimePoint env value = some (seconds env n) ↔ -2 ^ 31 ≤ n ∧ n < 2 ^ 31 := by
  rw [toTimePoint_eq hexact, Option.some.injEq, (seconds_injective env).eq_iff]
  constructor
  · rintro rfl
    exact ⟨Int32.le_toInt _, Int32.toInt_lt _⟩
  · rintro ⟨hle, hlt⟩
    have hn : (Int32.ofInt n).toInt = n := Int32.toInt_ofInt_of_le (by omega) (by omega)
    have hdifference : instant value - instant (env.timeLocalToGm epochTime).2 =
        100 * (Int32.ofInt n).toInt := by
      rw [instant_seconds hexact h, instant_epoch hexact, hn, sub_zero]
    rw [hexact.difference _ _ _ hdifference, hn]

/-! ## A TIMEDATE as Domino has it -/

/-- The hundredths of a second since 1970: the first word counts those of the day, and the second
one the days, of which 2440588 came before 1970. -/
def nativeInstant (value : TimeDate) : ℤ :=
  8640000 * ((value.second.toNat : ℤ) - 2440588) + value.first.toNat

/-- The days that a TIMEDATE has the bits for are converted, and a difference that does not fit is
cut off. -/
def sampleEnv : Env where
  ticks := 10000000
  ticks_pos := by decide
  timeLocalToGm t :=
    let days := Calendar.dayNumber t.year t.month.toNat t.day.toNat + 2440588
    if 0 ≤ days ∧ days < 2 ^ 24 then
      (.noError, ⟨UInt32.ofNat t.inDay.toNat, UInt32.ofNat days.toNat⟩)
    else (.other 1, ⟨0, 0⟩)
  timeDateDifference a b := Int32.ofInt ((nativeInstant a - nativeInstant b) / 100)

theorem exact_sampleEnv : Exact sampleEnv nativeInstant where
  converts t gm hvalid h := by
    have hinDay := hvalid.inDay
    simp only [sampleEnv] at h
    split at h
    · rename_i hdays
      cases h
      simp only [nativeInstant, Time.hundredths, UInt32.toNat_ofNat']
      omega
    · cases h
  epoch := rfl
  difference a b n h := by
    simp [sampleEnv, h]

/-- The leap day of 2000, and a second in 1901. -/
theorem toTimePoint_fromTimePoint_sample :
    (∃ value, fromTimePoint sampleEnv (seconds sampleEnv 951782400) = .ok value ∧
      (toTimePoint sampleEnv value = some (seconds sampleEnv 951782400) ↔
        -2 ^ 31 ≤ (951782400 : ℤ) ∧ (951782400 : ℤ) < 2 ^ 31)) ∧
    ∃ value, fromTimePoint sampleEnv (seconds sampleEnv (-2147483648)) = .ok value ∧
      (toTimePoint sampleEnv value = some (seconds sampleEnv (-2147483648)) ↔
        -2 ^ 31 ≤ (-2147483648 : ℤ) ∧ (-2147483648 : ℤ) < 2 ^ 31) :=
  ⟨⟨_, rfl, toTimePoint_fromTimePoint_iff exact_sampleEnv rfl⟩,
    ⟨_, rfl, toTimePoint_fromTimePoint_iff exact_sampleEnv rfl⟩⟩

/-- The nineteenth of January 2038 comes back as the thirteenth of December 1901. -/
theorem not_toTimePoint_fromTimePoint_2038 :
    ¬ ∀ (env : Env) (instant : TimeDate → ℤ) (n : ℤ) (value : TimeDate), Exact env instant →
      fromTimePoint env (seconds env n) = .ok value →
        toTimePoint env value = some (seconds env n) := by
  intro h
  have hback := h sampleEnv nativeInstant 2147483648 _ exact_sampleEnv rfl
  exact absurd hback (by decide)

end TimeDate

end Dmn
