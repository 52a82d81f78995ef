import Dmn.Library.Calendar
import Dmn.Model.NoteValue

/-! # `time_date`

Time points of the system clock and the TIMEDATE of Domino. -/

namespace Dmn

/-- `TIME` without the TIMEDATE in it; the weekday is not set. -/
structure Time where
  year : ℤ
  month : ℤ
  day : ℤ
  hour : ℤ := 0
  minute : ℤ := 0
  second : ℤ := 0
  hundredth : ℤ := 0
  dst : ℤ := 0
  zone : ℤ := 0
  deriving DecidableEq, Repr

namespace TimeDate

structure Env where
  /-- The ticks of `system_clock` in a hundredth of a second. -/
  ticks : ℕ
  ticks_pos : 0 < ticks
  /-- `TimeLocalToGM`, with the field `GM` it fills. -/
  timeLocalToGm : Time → Status × TimeDate
  timeDateDifference : TimeDate → TimeDate → Int32

/-- A whole number of seconds as a time point. -/
def seconds (env : Env) (n : ℤ) : ℤ := n * (100 * env.ticks)

/-- `year_month_day::ok` for a date that was made from a day. -/
def isOk (ymd : Calendar.Date) : Bool := -32767 ≤ ymd.year ∧ ymd.year ≤ 32767

def fromTimePoint (env : Env) (tp : ℤ) : Except Error TimeDate := do
  let hundredths := tp / env.ticks
  let dayPoint := hundredths / 8640000
  let ymd := Calendar.dateOf dayPoint
  if !isOk ymd then
    throw (.outOfRange "Date is outside the calendar range")
  let time := hundredths - 8640000 * dayPoint
  let output : Time :=
    { year := ymd.year
      month := ymd.month
      day := ymd.day
      hour := time / 360000
      minute := time / 6000 % 60
      second := time / 100 % 60
      hundredth := time % 100 }
  let result := env.timeLocalToGm output
  if result.1.isError then
    throw (.conversionError "Failed to create TIMEDATE from time point")
  pure result.2

/-- The first of January of `YEAR_EPOCH`. -/
def epochTime : Time := { year := 1970, month := 1, day := 1 }

def toTimePoint (env : Env) (value : TimeDate) : Option ℤ :=
  let t := env.timeLocalToGm epochTime
  if t.1.isError then none
  else some (seconds env (env.timeDateDifference value t.2).toInt)

end TimeDate

end Dmn
