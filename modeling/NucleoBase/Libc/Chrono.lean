/-
  NucleoBase.Libc.Chrono

  The part of `std::chrono` that the adapter uses for time stamps: days since
  1970-01-01 and dates of the proleptic Gregorian calendar.
-/

import Mathlib.Tactic.Common

namespace NucleoBase
namespace Libc

/-- `year_month_day`. -/
structure Date where
  year : Int
  month : Nat
  day : Nat
  deriving DecidableEq, Repr

def isLeap (year : Int) : Bool := year % 4 = 0 ∧ (year % 100 ≠ 0 ∨ year % 400 = 0)

def lastDay (year : Int) (month : Nat) : Nat :=
  if month = 2 then if isLeap year then 29 else 28
  else if month = 4 ∨ month = 6 ∨ month = 9 ∨ month = 11 then 30 else 31

/-- `year_month_day::ok`. -/
def Date.ok (date : Date) : Bool :=
  -32767 ≤ date.year ∧ date.year ≤ 32767 ∧ 1 ≤ date.month ∧ date.month ≤ 12 ∧ 1 ≤ date.day ∧
    date.day ≤ lastDay date.year date.month

/-- `sys_days{ date }`; years start in March here, so that a leap day is the last of its year. -/
def Date.sysDays (date : Date) : Int :=
  let year := if date.month ≤ 2 then date.year - 1 else date.year
  let yearOfEra := year % 400
  let dayOfYear := (153 * ((date.month + 9) % 12) + 2) / 5 + date.day - 1
  year / 400 * 146097 + (yearOfEra * 365 + yearOfEra / 4 - yearOfEra / 100 + dayOfYear) - 719468

/-- `year_month_day{ days }`. -/
def yearMonthDay (days : Int) : Date :=
  let dayOfEra := ((days + 719468) % 146097).toNat
  let yearOfEra := (dayOfEra - dayOfEra / 1460 + dayOfEra / 36524 - dayOfEra / 146096) / 365
  let dayOfYear := dayOfEra - (365 * yearOfEra + yearOfEra / 4 - yearOfEra / 100)
  let marchMonth := (5 * dayOfYear + 2) / 153
  let month := if marchMonth < 10 then marchMonth + 3 else marchMonth - 9
  let year := (yearOfEra : Int) + (days + 719468) / 146097 * 400
  ⟨if month ≤ 2 then year + 1 else year, month, dayOfYear - (153 * marchMonth + 2) / 5 + 1⟩

example : yearMonthDay 0 = ⟨1970, 1, 1⟩ := by decide

example : yearMonthDay (Date.sysDays ⟨2000, 2, 29⟩) = ⟨2000, 2, 29⟩ := by decide

end Libc
end NucleoBase
