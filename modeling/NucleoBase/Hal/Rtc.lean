/-
  NucleoBase.Hal.Rtc

  The real-time clock (stm32/Rtc.cpp): civil dates to days since 1970-01-01,
  and the timestamp that `getTime` makes of the registers.

  The conversion is in `Wrapped`, operation by operation.  What the two HAL
  calls store is the argument of `getTime`.
-/

import NucleoBase.Lib.FixedWidth
import NucleoBase.Lib.Gregorian

namespace NucleoBase
namespace Hal
namespace Rtc

open Lib Gregorian

/-! ## The conversion -/

/-- `is_leap_year`. -/
def isLeapYear (year : Int) : Bool :=
  year.tmod 4 == 0 && (year.tmod 100 != 0 || year.tmod 400 == 0)

/-- `days_in_month`. -/
def daysInMonth (year : Int) (month : Nat) : Nat :=
  match month with
  | 2 => if isLeapYear year then 29 else 28
  | 4 | 6 | 9 | 11 => 30
  | _ => 31

/-- `era`, of a year that begins in March. -/
def eraOf (year : Int) : Wrapped Int := do
  let raised ← if 0 ≤ year then pure year else Wrapped.signed 32 (year - 399)
  pure (raised.tdiv 400)

/-- `year_of_era`. -/
def yearOfEra (year era : Int) : Wrapped Nat := do
  let start ← Wrapped.signed 32 (era * 400)
  let rest ← Wrapped.signed 32 (year - start)
  Wrapped.unsigned 32 rest

/-- `day_of_year`, from `adjusted_month`. -/
def dayOfYear (month day : Nat) : Wrapped Nat := do
  let signedMonth ← Wrapped.signed 32 month
  let adjustedMonth ← Wrapped.signed 32 (signedMonth + if 2 < month then -3 else 9)
  let scaled ← Wrapped.signed 32 (153 * adjustedMonth)
  let raised ← Wrapped.signed 32 (scaled + 2)
  let days ← Wrapped.unsigned 32 (raised.tdiv 5)
  let sum ← Wrapped.add 32 days day
  Wrapped.sub 32 sum 1

/-- `day_of_era`. -/
def dayOfEra (yearOfEra dayOfYear : Nat) : Wrapped Nat := do
  let days ← Wrapped.mul 32 yearOfEra 365
  let leapDays ← Wrapped.add 32 days (yearOfEra / 4)
  let centuries ← Wrapped.sub 32 leapDays (yearOfEra / 100)
  Wrapped.add 32 centuries dayOfYear

/-- `DAYS_PER_ERA`. -/
def daysPerEra : Int := 146097

/-- `DAYS_FROM_CIVIL_EPOCH_OFFSET`. -/
def daysFromCivilEpochOffset : Int := 719468

/-- `days_from_civil`. -/
def daysFromCivil (year : Int) (month day : Nat) : Wrapped Int := do
  let year ← Wrapped.signed 32 (year - if month ≤ 2 then 1 else 0)
  let era ← eraOf year
  let yearOfEra ← yearOfEra year era
  let dayOfYear ← dayOfYear month day
  let dayOfEra ← dayOfEra yearOfEra dayOfYear
  let eraDays ← Wrapped.signed 64 (era * daysPerEra)
  let days ← Wrapped.signed 64 (eraDays + dayOfEra)
  Wrapped.signed 64 (days - daysFromCivilEpochOffset)

/-! ## The registers -/

/-- `RTC_TimeTypeDef`, the fields that `getTime` reads. -/
structure Time where
  hours : UInt8
  minutes : UInt8
  seconds : UInt8
  subSeconds : UInt32
  secondFraction : UInt32
  deriving DecidableEq, Repr

/-- `RTC_DateTypeDef`, the fields that `getTime` reads. -/
structure RegisterDate where
  month : UInt8
  date : UInt8
  year : UInt8
  deriving DecidableEq, Repr

structure Timestamp where
  secondsSinceEpoch : Int
  nanoseconds : Nat
  deriving DecidableEq, Repr

/-- `RTC_EPOCH_YEAR`. -/
def rtcEpochYear : Int := 2000

/-- `NANOSECONDS_PER_SECOND`. -/
def nanosecondsPerSecond : Nat := 1000000000

/-- `year`. -/
def RegisterDate.fullYear (d : RegisterDate) : Int := rtcEpochYear + d.year.toNat

/-- The condition under which `getTime` refuses the content of the registers. -/
def refused (time : Time) (date : RegisterDate) : Prop :=
  date.month.toNat < 1 ∨ 12 < date.month.toNat ∨ date.date.toNat < 1 ∨
    daysInMonth date.fullYear date.month.toNat < date.date.toNat ∨ 24 ≤ time.hours.toNat ∨
    60 ≤ time.minutes.toNat ∨ 60 ≤ time.seconds.toNat ∨ time.secondFraction < time.subSeconds

instance (time : Time) (date : RegisterDate) : Decidable (refused time date) :=
  inferInstanceAs (Decidable (_ ∨ _))

/-- `seconds_since_epoch`. -/
def secondsSinceEpoch (time : Time) (date : RegisterDate) : Wrapped Int := do
  let days ← daysFromCivil date.fullYear date.month.toNat date.date.toNat
  let daySeconds ← Wrapped.signed 64 (days * 86400)
  let hourSeconds ← Wrapped.signed 64 (time.hours.toNat * 3600)
  let hours ← Wrapped.signed 64 (daySeconds + hourSeconds)
  let minuteSeconds ← Wrapped.signed 64 (time.minutes.toNat * 60)
  let minutes ← Wrapped.signed 64 (hours + minuteSeconds)
  Wrapped.signed 64 (minutes + time.seconds.toNat)

/-- `nanoseconds`, cut down to the field of the timestamp. -/
def nanosecondsOf (time : Time) : Wrapped Nat := do
  let ticks ← Wrapped.sub 32 time.secondFraction.toNat time.subSeconds.toNat
  let scaled ← Wrapped.mul 64 ticks nanosecondsPerSecond
  let unit ← Wrapped.add 64 time.secondFraction.toNat 1
  Wrapped.narrow 32 (scaled / unit)

/-- `getTime`, for the two statuses (`true` is `HAL_OK`) and what the calls stored;
    `none` is `HalError::Error`. -/
def getTime (timeStatus dateStatus : Bool) (time : Time) (date : RegisterDate) :
    Wrapped (Option Timestamp) := do
  if !timeStatus || !dateStatus then pure none
  else if refused time date then pure none
  else do
    let seconds ← secondsSinceEpoch time date
    let nanoseconds ← nanosecondsOf time
    pure (some ⟨seconds, nanoseconds⟩)

/-! ## The calendar of the code -/

theorem isLeapYear_iff (year : Int) : isLeapYear year = true ↔ IsLeap year := by
  have h4 : year.tmod 4 = 0 ↔ year % 4 = 0 := by
    rw [← Int.dvd_iff_tmod_eq_zero, Int.dvd_iff_emod_eq_zero]
  have h100 : year.tmod 100 = 0 ↔ year % 100 = 0 := by
    rw [← Int.dvd_iff_tmod_eq_zero, Int.dvd_iff_emod_eq_zero]
  have h400 : year.tmod 400 = 0 ↔ year % 400 = 0 := by
    rw [← Int.dvd_iff_tmod_eq_zero, Int.dvd_iff_emod_eq_zero]
  simp only [isLeapYear, IsLeap, Bool.and_eq_true, Bool.or_eq_true, beq_iff_eq, bne_iff_ne, ne_eq,
    h4, h100, h400]

theorem daysInMonth_eq (year : Int) (month : Nat) :
    daysInMonth year month = monthLength year month := by
  unfold daysInMonth monthLength
  split
  · simp only [isLeapYear_iff, if_true]
  · rfl
  · rfl
  · rfl
  · rfl
  · next h2 h4 h6 h9 h11 =>
      rw [if_neg h2, if_neg]
      rintro (h | h | h | h)
      · exact h4 h
      · exact h6 h
      · exact h9 h
      · exact h11 h

/-! ## The parts of the conversion -/

/-- The truncating division rounds down once negative years are moved. -/
theorem eraOf_eq {year : Int} (hlow : -2 ^ 31 + 399 ≤ year) (hhigh : year < 2 ^ 31) :
    eraOf year = pure (year / 400) := by
  unfold eraOf
  by_cases hsign : 0 ≤ year
  · rw [if_pos hsign, pure_bind]
    show pure (year.tdiv 400) = _
    rw [Int.tdiv_eq_ediv_of_nonneg hsign]
  · have hfloor : (year - 399).tdiv 400 = year / 400 := by
      rw [show year - 399 = -(399 - year) by omega, Int.neg_tdiv,
        Int.tdiv_eq_ediv_of_nonneg (by omega)]
      omega
    rw [if_neg hsign, Wrapped.signed_eq (by decide) ⟨by omega, by omega⟩, pure_bind]
    show pure ((year - 399).tdiv 400) = _
    rw [hfloor]

theorem yearOfEra_eq {year : Int} (hlow : -2 ^ 31 + 399 ≤ year) (hhigh : year < 2 ^ 31) :
    yearOfEra year (year / 400) = pure (year % 400).toNat := by
  have hrest : year - year / 400 * 400 = ((year % 400).toNat : Int) := by omega
  unfold yearOfEra
  rw [Wrapped.signed_eq (by decide) ⟨by omega, by omega⟩, pure_bind,
    Wrapped.signed_eq (by decide) ⟨by omega, by omega⟩, pure_bind, hrest,
    Wrapped.unsigned_eq (by omega)]

/-- The days of the months since March, by the shifted month formula. -/
theorem dayOfYear_eq {month day : Nat} (hpos : 1 ≤ month) (hle : month ≤ 12) (hday : 1 ≤ day)
    (hdayle : day ≤ 31) :
    dayOfYear month day =
      pure ((153 * (if 2 < month then month - 3 else month + 9) + 2) / 5 + day - 1) := by
  have hshift : (month : Int) + (if 2 < month then -3 else 9) =
      ((if 2 < month then month - 3 else month + 9 : Nat) : Int) := by
    split <;> omega
  have hbound : (if 2 < month then month - 3 else month + 9) ≤ 11 := by
    split <;> omega
  unfold dayOfYear
  rw [Wrapped.signed_eq (by decide) ⟨by omega, by omega⟩, pure_bind, hshift]
  generalize (if 2 < month then month - 3 else month + 9) = shifted at hbound ⊢
  have hquotient : ((153 * (shifted : Int) + 2).tdiv 5) = ((153 * shifted + 2) / 5 : Nat) := by
    rw [Int.tdiv_eq_ediv_of_nonneg (by omega)]
    omega
  rw [Wrapped.signed_eq (by decide) ⟨by omega, by omega⟩, pure_bind,
    Wrapped.signed_eq (by decide) ⟨by omega, by omega⟩, pure_bind,
    Wrapped.signed_eq (by decide) ⟨by omega, by omega⟩, pure_bind, hquotient,
    Wrapped.unsigned_eq (by omega), pure_bind, Wrapped.add_eq (by omega), pure_bind,
    Wrapped.sub_eq (by omega) (by omega)]

theorem dayOfEra_eq {years days : Nat} (hyears : years < 400) (hdays : days ≤ 400) :
    dayOfEra years days = pure (years * 365 + years / 4 - years / 100 + days) := by
  unfold dayOfEra
  rw [Wrapped.mul_eq (by omega), pure_bind, Wrapped.add_eq (by omega), pure_bind,
    Wrapped.sub_eq (by omega) (by omega), pure_bind, Wrapped.add_eq (by omega)]

/-- The years whose conversion fits in the words of the code. -/
def Convertible (year : Int) : Prop := -2 ^ 31 + 400 ≤ year ∧ year ≤ 2 ^ 31 - 1

instance (year : Int) : Decidable (Convertible year) := inferInstanceAs (Decidable (_ ∧ _))

/-- The eras, years and days add up to the number of the day. -/
theorem number_eq_eras (d : Date) (year : Int)
    (hyear : year = d.year - if d.month ≤ 2 then 1 else 0) :
    year / 400 * daysPerEra +
        (((year % 400).toNat * 365 + (year % 400).toNat / 4 - (year % 400).toNat / 100 +
          ((153 * (if 2 < d.month then d.month - 3 else d.month + 9) + 2) / 5 + d.day - 1) :
            Nat) : Int) -
      daysFromCivilEpochOffset = d.number := by
  have hpos := d.month_pos
  have hle := d.month_le
  have hday := d.day_pos
  simp only [Date.number, dayNumber, yearDays, daysPerEra, daysFromCivilEpochOffset]
  split at hyear
  · next hshift =>
      subst hyear
      rw [if_neg (by omega), if_pos hshift]
      omega
  · next hshift =>
      obtain rfl : year = d.year := by omega
      rw [if_pos (by omega), if_neg hshift]
      omega

theorem daysFromCivil_eq {d : Date} (h : Convertible d.year) :
    daysFromCivil d.year d.month d.day = pure d.number := by
  obtain ⟨hlow, hhigh⟩ := h
  have hpos := d.month_pos
  have hle := d.month_le
  have hday := d.day_pos
  have hdayle := Nat.le_trans d.day_le (monthLength_le _ _)
  unfold daysFromCivil
  have hshift : Wrapped.signed 32 (d.year - if d.month ≤ 2 then 1 else 0) =
      pure (d.year - if d.month ≤ 2 then 1 else 0) :=
    Wrapped.signed_eq (by decide) ⟨by split <;> omega, by split <;> omega⟩
  have hsum := number_eq_eras d (d.year - if d.month ≤ 2 then 1 else 0) rfl
  have hmonths : (if 2 < d.month then d.month - 3 else d.month + 9) ≤ 11 := by
    split <;> omega
  have hlow' : -2 ^ 31 + 399 ≤ d.year - if d.month ≤ 2 then 1 else 0 := by
    split <;> omega
  have hhigh' : (d.year - if d.month ≤ 2 then 1 else 0) < 2 ^ 31 := by
    split <;> omega
  rw [hshift, pure_bind]
  generalize (d.year - if d.month ≤ 2 then 1 else 0) = year at hsum hlow' hhigh' ⊢
  rw [eraOf_eq hlow' hhigh', pure_bind, yearOfEra_eq hlow' hhigh', pure_bind,
    dayOfYear_eq hpos hle hday hdayle, pure_bind]
  generalize (if 2 < d.month then d.month - 3 else d.month + 9) = months at hsum hmonths ⊢
  have hyears : (year % 400).toNat < 400 := by omega
  rw [dayOfEra_eq hyears (by omega), pure_bind]
  simp only [daysPerEra, daysFromCivilEpochOffset] at hsum ⊢
  rw [Wrapped.signed_eq (by decide) ⟨by omega, by omega⟩, pure_bind,
    Wrapped.signed_eq (by decide) ⟨by omega, by omega⟩, pure_bind,
    Wrapped.signed_eq (by decide) ⟨by omega, by omega⟩, hsum]

example : daysFromCivil 1970 1 1 = pure 0 ∧ daysFromCivil 2000 1 1 = pure 10957 ∧
    daysFromCivil 2000 2 29 = pure 11016 := by
  decide

/-- The value of `days_from_civil` at a date. -/
def daysOf (d : Date) : Int := (daysFromCivil d.year d.month d.day).value

theorem daysOf_eq {d : Date} (h : Convertible d.year) : daysOf d = d.number := by
  rw [daysOf, daysFromCivil_eq h]
  rfl

/-! ## The timestamp -/

/-- What the two HAL calls stored. -/
structure Reading where
  time : Time
  date : RegisterDate
  deriving DecidableEq, Repr

/-- The timestamp that `getTime` returns for a reading, if it accepts it. -/
def Reading.timestamp (r : Reading) : Option Timestamp := (getTime true true r.time r.date).value

/-- The second of the day. -/
def Time.ofDay (t : Time) : Nat :=
  t.hours.toNat * 3600 + t.minutes.toNat * 60 + t.seconds.toNat

/-- The part of the second that has passed, in units of `1 / (SecondFraction + 1)`. -/
def Time.passed (t : Time) : Nat := t.secondFraction.toNat - t.subSeconds.toNat

section Timestamp

variable {time : Time} {date : RegisterDate} {d : Date}

/-- Content that is not refused is a date of the calendar and a time of the day. -/
theorem exists_date (h : ¬ refused time date) :
    ∃ d : Date, d.year = date.fullYear ∧ d.month = date.month.toNat ∧ d.day = date.date.toNat := by
  simp only [refused, daysInMonth_eq, not_or, Nat.not_lt] at h
  obtain ⟨hpos, hle, hday, hdayle, -⟩ := h
  exact ⟨⟨date.fullYear, date.month.toNat, date.date.toNat, hpos, hle, hday, hdayle⟩,
    rfl, rfl, rfl⟩

theorem time_bounds (h : ¬ refused time date) :
    time.hours.toNat < 24 ∧ time.minutes.toNat < 60 ∧ time.seconds.toNat < 60 ∧
      time.subSeconds.toNat ≤ time.secondFraction.toNat := by
  simp only [refused, not_or, Nat.not_le, UInt32.not_lt, UInt32.le_iff_toNat_le] at h
  obtain ⟨-, -, -, -, hhours, hminutes, hseconds, hfraction⟩ := h
  exact ⟨hhours, hminutes, hseconds, hfraction⟩

theorem fullYear_bounds (date : RegisterDate) : 2000 ≤ date.fullYear ∧ date.fullYear ≤ 2255 := by
  have hyear := date.year.toNat_lt
  simp only [RegisterDate.fullYear, rtcEpochYear]
  omega

theorem number_bounds (hlow : 2000 ≤ d.year) (hhigh : d.year ≤ 2255) :
    0 ≤ d.number ∧ d.number < 110000 := by
  have hstart := d.year_le_number
  have hend := d.number_lt_year
  simp only [dayNumber, yearDays] at hstart hend
  omega

theorem secondsSinceEpoch_eq (h : ¬ refused time date) (hyear : d.year = date.fullYear)
    (hmonth : d.month = date.month.toNat) (hday : d.day = date.date.toNat) :
    secondsSinceEpoch time date = pure (d.number * 86400 + time.ofDay) := by
  obtain ⟨hlow, hhigh⟩ := fullYear_bounds date
  obtain ⟨hhours, hminutes, hseconds, -⟩ := time_bounds h
  obtain ⟨hnumber, hbound⟩ := number_bounds (d := d) (by omega) (by omega)
  have hconvert := daysFromCivil_eq (d := d) ⟨by omega, by omega⟩
  have hsum : d.number * 86400 + (time.hours.toNat : Int) * 3600 +
      (time.minutes.toNat : Int) * 60 + time.seconds.toNat = d.number * 86400 + time.ofDay := by
    simp only [Time.ofDay]
    omega
  unfold secondsSinceEpoch
  rw [← hyear, ← hmonth, ← hday, hconvert, pure_bind,
    Wrapped.signed_eq (by decide) ⟨by omega, by omega⟩, pure_bind,
    Wrapped.signed_eq (by decide) ⟨by omega, by omega⟩, pure_bind,
    Wrapped.signed_eq (by decide) ⟨by omega, by omega⟩, pure_bind,
    Wrapped.signed_eq (by decide) ⟨by omega, by omega⟩, pure_bind,
    Wrapped.signed_eq (by decide) ⟨by omega, by omega⟩, pure_bind,
    Wrapped.signed_eq (by decide) ⟨by omega, by omega⟩, hsum]

/-- Less than a whole second has passed. -/
theorem passed_lt (time : Time) : time.passed < time.secondFraction.toNat + 1 := by
  simp only [Time.passed]
  omega

theorem scaled_lt (time : Time) :
    time.passed * nanosecondsPerSecond / (time.secondFraction.toNat + 1) < nanosecondsPerSecond := by
  rw [Nat.div_lt_iff_lt_mul (Nat.succ_pos _), Nat.mul_comm nanosecondsPerSecond]
  exact Nat.mul_lt_mul_of_pos_right (passed_lt time) (by decide)

theorem nanosecondsOf_eq (h : ¬ refused time date) :
    nanosecondsOf time =
      pure (time.passed * nanosecondsPerSecond / (time.secondFraction.toNat + 1)) := by
  obtain ⟨-, -, -, hfraction⟩ := time_bounds h
  have hword := time.secondFraction.toNat_lt
  have hless := scaled_lt time
  have hpassed : time.secondFraction.toNat - time.subSeconds.toNat = time.passed := rfl
  have hproduct : time.passed * nanosecondsPerSecond < 2 ^ 64 := by
    have hlt := passed_lt time
    simp only [nanosecondsPerSecond]
    omega
  have hnarrow : time.passed * nanosecondsPerSecond / (time.secondFraction.toNat + 1) < 2 ^ 32 :=
    Nat.lt_trans hless (by decide)
  unfold nanosecondsOf
  rw [Wrapped.sub_eq hword hfraction, pure_bind, hpassed, Wrapped.mul_eq hproduct, pure_bind,
    Wrapped.add_eq (by omega), pure_bind, Wrapped.narrow_eq hnarrow]

/-- What `getTime` returns for content that it accepts, with no operation wrapping. -/
theorem getTime_eq (h : ¬ refused time date) (hyear : d.year = date.fullYear)
    (hmonth : d.month = date.month.toNat) (hday : d.day = date.date.toNat) :
    getTime true true time date = pure (some ⟨d.number * 86400 + time.ofDay,
      time.passed * nanosecondsPerSecond / (time.secondFraction.toNat + 1)⟩) := by
  unfold getTime
  rw [if_neg (by decide), if_neg h, secondsSinceEpoch_eq h hyear hmonth hday, pure_bind,
    nanosecondsOf_eq h, pure_bind]

/-- Content for which there is a timestamp, and which one. -/
theorem timestamp_spec {r : Reading} {t : Timestamp} (h : r.timestamp = some t) :
    ¬ refused r.time r.date ∧ ∃ d : Date, d.year = r.date.fullYear ∧
      d.month = r.date.month.toNat ∧ d.day = r.date.date.toNat ∧
      t.secondsSinceEpoch = d.number * 86400 + r.time.ofDay ∧
      t.nanoseconds =
        r.time.passed * nanosecondsPerSecond / (r.time.secondFraction.toNat + 1) := by
  have haccepted : ¬ refused r.time r.date := by
    intro hrefused
    have hnone : r.timestamp = none := by
      simp only [Reading.timestamp, getTime, Bool.not_true, Bool.or_self, Bool.false_eq_true,
        if_false, if_pos hrefused, Wrapped.value_pure]
    rw [hnone] at h
    exact absurd h (by simp)
  obtain ⟨d, hyear, hmonth, hday⟩ := exists_date haccepted
  rw [Reading.timestamp, getTime_eq haccepted hyear hmonth hday, Wrapped.value_pure,
    Option.some.injEq] at h
  exact ⟨haccepted, d, hyear, hmonth, hday, h ▸ rfl, h ▸ rfl⟩

end Timestamp

/-! ## Calendar order -/

def RegisterDate.Before (a b : RegisterDate) : Prop :=
  a.year < b.year ∨ a.year = b.year ∧ (a.month < b.month ∨ a.month = b.month ∧ a.date < b.date)

def Time.Before (a b : Time) : Prop :=
  a.hours < b.hours ∨ a.hours = b.hours ∧
    (a.minutes < b.minutes ∨ a.minutes = b.minutes ∧ a.seconds < b.seconds)

/-- An earlier second of the calendar. -/
def Reading.SecondBefore (a b : Reading) : Prop :=
  a.date.Before b.date ∨ a.date = b.date ∧ a.time.Before b.time

def Reading.SameSecond (a b : Reading) : Prop :=
  a.date = b.date ∧ a.time.hours = b.time.hours ∧ a.time.minutes = b.time.minutes ∧
    a.time.seconds = b.time.seconds

/-- No larger a fraction of the second has passed. -/
def Time.FractionLe (a b : Time) : Prop :=
  a.passed * (b.secondFraction.toNat + 1) ≤ b.passed * (a.secondFraction.toNat + 1)

section Order

variable {a b : Reading} {t u : Timestamp}

theorem ofDay_lt {a b : Time} (h : a.Before b) (hminutes : a.minutes.toNat < 60)
    (hseconds : a.seconds.toNat < 60) : a.ofDay < b.ofDay := by
  simp only [Time.Before, UInt8.lt_iff_toNat_lt, ← UInt8.toNat_inj] at h
  simp only [Time.ofDay]
  omega

theorem ofDay_lt_day {time : Time} {date : RegisterDate} (h : ¬ refused time date) :
    time.ofDay < 86400 := by
  obtain ⟨hhours, hminutes, hseconds, -⟩ := time_bounds h
  simp only [Time.ofDay]
  omega

theorem seconds_lt (ha : a.timestamp = some t) (hb : b.timestamp = some u)
    (h : a.SecondBefore b) : t.secondsSinceEpoch < u.secondsSinceEpoch := by
  obtain ⟨haccepted, d, hyear, hmonth, hday, ht, -⟩ := timestamp_spec ha
  obtain ⟨-, e, hyear', hmonth', hday', hu, -⟩ := timestamp_spec hb
  have hless := ofDay_lt_day haccepted
  rw [ht, hu]
  rcases h with hdate | ⟨hdate, htime⟩
  · -- an earlier day has a smaller number, whatever the times
    have hbefore : d.Before e := by
      simp only [RegisterDate.Before, UInt8.lt_iff_toNat_lt, ← UInt8.toNat_inj] at hdate
      simp only [Date.Before, hyear, hyear', hmonth, hmonth', hday, hday',
        RegisterDate.fullYear]
      omega
    have hnumber := Date.number_lt hbefore
    omega
  · obtain ⟨-, hminutes, hseconds, -⟩ := time_bounds haccepted
    have hofDay := ofDay_lt htime hminutes hseconds
    have heq : d = e := by
      apply Date.ext
      · rw [hyear, hyear', hdate]
      · rw [hmonth, hmonth', hdate]
      · rw [hday, hday', hdate]
    rw [heq]
    omega

theorem seconds_eq (ha : a.timestamp = some t) (hb : b.timestamp = some u)
    (h : a.SameSecond b) : t.secondsSinceEpoch = u.secondsSinceEpoch := by
  obtain ⟨-, d, hyear, hmonth, hday, ht, -⟩ := timestamp_spec ha
  obtain ⟨-, e, hyear', hmonth', hday', hu, -⟩ := timestamp_spec hb
  obtain ⟨hdate, hhours, hminutes, hseconds⟩ := h
  have heq : d = e := by
    apply Date.ext
    · rw [hyear, hyear', hdate]
    · rw [hmonth, hmonth', hdate]
    · rw [hday, hday', hdate]
  rw [ht, hu, heq, Time.ofDay, Time.ofDay, hhours, hminutes, hseconds]

/-- Rounding down keeps the order of fractions. -/
theorem scaled_le {x y p q n : Nat} (hp : 0 < p) (hq : 0 < q) (h : x * q ≤ y * p) :
    x * n / p ≤ y * n / q := by
  rw [Nat.le_div_iff_mul_le hq]
  refine Nat.le_of_mul_le_mul_left ?_ hp
  calc p * (x * n / p * q)
      = x * n / p * p * q := by ring
    _ ≤ x * n * q := Nat.mul_le_mul_right _ (Nat.div_mul_le_self _ _)
    _ = x * q * n := by ring
    _ ≤ y * p * n := Nat.mul_le_mul_right _ h
    _ = p * (y * n) := by ring

/-- A unit of at least one result step is not rounded away. -/
theorem scaled_lt_scaled {x y p n : Nat} (hp : 0 < p) (hn : p ≤ n) (h : x < y) :
    x * n / p < y * n / p := by
  calc x * n / p
      < x * n / p + 1 := Nat.lt_succ_self _
    _ = (x * n + p) / p := (Nat.add_div_right _ hp).symm
    _ ≤ (x * n + n) / p := Nat.div_le_div_right (Nat.add_le_add_left hn _)
    _ = (x + 1) * n / p := by rw [Nat.add_mul, Nat.one_mul]
    _ ≤ y * n / p := Nat.div_le_div_right (Nat.mul_le_mul_right _ h)

theorem nanoseconds_le (ha : a.timestamp = some t) (hb : b.timestamp = some u)
    (h : a.time.FractionLe b.time) : t.nanoseconds ≤ u.nanoseconds := by
  obtain ⟨-, d, -, -, -, -, ht⟩ := timestamp_spec ha
  obtain ⟨-, e, -, -, -, -, hu⟩ := timestamp_spec hb
  rw [ht, hu]
  exact scaled_le (Nat.succ_pos _) (Nat.succ_pos _) h

/-- The sub-second register counts down. -/
theorem nanoseconds_lt (ha : a.timestamp = some t) (hb : b.timestamp = some u)
    (hunit : a.time.secondFraction = b.time.secondFraction)
    (hfine : a.time.secondFraction.toNat < nanosecondsPerSecond)
    (h : b.time.subSeconds < a.time.subSeconds) : t.nanoseconds < u.nanoseconds := by
  obtain ⟨haccepted, d, -, -, -, -, ht⟩ := timestamp_spec ha
  obtain ⟨-, e, -, -, -, -, hu⟩ := timestamp_spec hb
  obtain ⟨-, -, -, hfraction⟩ := time_bounds haccepted
  have hlater := UInt32.lt_iff_toNat_lt.mp h
  rw [ht, hu, ← hunit]
  refine scaled_lt_scaled (Nat.succ_pos _) hfine ?_
  simp only [Time.passed, ← hunit]
  omega

theorem nanoseconds_lt_second (ha : a.timestamp = some t) :
    t.nanoseconds < nanosecondsPerSecond := by
  obtain ⟨-, d, -, -, -, -, ht⟩ := timestamp_spec ha
  rw [ht]
  exact scaled_lt a.time

end Order

/-! ## The results -/

/-- `days_from_civil` counts the days from 1970-01-01, one by one, with the month lengths of
    `days_in_month`; and what `getTime` accepts it keeps in calendar order.

    The fraction register has 15 bits, far fewer than a second has nanoseconds. -/
theorem rtc_calendar :
    (∀ year month, daysInMonth year month = monthLength year month) ∧
    (∀ d : Date, Convertible d.year → (daysFromCivil d.year d.month d.day).exact = true) ∧
    daysOf Date.epoch = 0 ∧
    (∀ d : Date, Convertible d.year → Convertible d.next.year → daysOf d.next = daysOf d + 1) ∧
    (∀ a b : Date, Convertible a.year → Convertible b.year →
      (a.Before b ↔ daysOf a < daysOf b) ∧ (daysOf a = daysOf b → a = b)) ∧
    (∀ d : Date, Convertible d.year →
      (0 ≤ daysOf d → Date.next^[(daysOf d).toNat] Date.epoch = d) ∧
      (daysOf d ≤ 0 → Date.next^[(-daysOf d).toNat] d = Date.epoch)) ∧
    ∀ (a b : Reading) (t u : Timestamp), a.timestamp = some t → b.timestamp = some u →
      t.nanoseconds < nanosecondsPerSecond ∧
      (a.SecondBefore b → t.secondsSinceEpoch < u.secondsSinceEpoch) ∧
      (a.SameSecond b → t.secondsSinceEpoch = u.secondsSinceEpoch) ∧
      (a.time.FractionLe b.time → t.nanoseconds ≤ u.nanoseconds) ∧
      (a.time.secondFraction = b.time.secondFraction →
        a.time.secondFraction.toNat < nanosecondsPerSecond →
        b.time.subSeconds < a.time.subSeconds → t.nanoseconds < u.nanoseconds) := by
  have hepoch : Convertible Date.epoch.year := by decide
  refine ⟨daysInMonth_eq, ?_, ?_, ?_, ?_, ?_, ?_⟩
  · intro d hd
    rw [daysFromCivil_eq hd]
    rfl
  · rw [daysOf_eq hepoch, Date.number_epoch]
  · intro d hd hnext
    rw [daysOf_eq hd, daysOf_eq hnext, Date.number_next]
  · intro a b ha hb
    rw [daysOf_eq ha, daysOf_eq hb]
    exact ⟨Date.number_lt_iff.symm, fun h => Date.number_injective h⟩
  · intro d hd
    rw [daysOf_eq hd]
    refine ⟨fun hle => ?_, fun hle => ?_⟩
    · have hcount := Date.iterate_next (a := Date.epoch) (b := d) (by rwa [Date.number_epoch])
      rwa [Date.number_epoch, Int.sub_zero] at hcount
    · have hcount := Date.iterate_next (a := d) (b := Date.epoch) (by rwa [Date.number_epoch])
      rwa [Date.number_epoch, Int.zero_sub] at hcount
  · intro a b t u ha hb
    exact ⟨nanoseconds_lt_second ha, seconds_lt ha hb, seconds_eq ha hb, nanoseconds_le ha hb,
      nanoseconds_lt ha hb⟩

end Rtc
end Hal
end NucleoBase
