/-
  NucleoBase.Lib.Gregorian

  The Gregorian calendar, in both directions without end: dates that exist,
  the day after a date, and the number of a day counted from 1970-01-01.
-/

import Mathlib.Data.Int.Basic
import Mathlib.Logic.Function.Iterate
import Mathlib.Tactic.Common

namespace NucleoBase
namespace Lib
namespace Gregorian

/-! ## Dates -/

def IsLeap (year : Int) : Prop := year % 4 = 0 ∧ (year % 100 ≠ 0 ∨ year % 400 = 0)

instance (year : Int) : Decidable (IsLeap year) := inferInstanceAs (Decidable (_ ∧ _))

def monthLength (year : Int) (month : Nat) : Nat :=
  if month = 2 then if IsLeap year then 29 else 28
  else if month = 4 ∨ month = 6 ∨ month = 9 ∨ month = 11 then 30
  else 31

theorem monthLength_pos (year : Int) (month : Nat) : 28 ≤ monthLength year month := by
  unfold monthLength
  repeat' split
  all_goals omega

theorem monthLength_le (year : Int) (month : Nat) : monthLength year month ≤ 31 := by
  unfold monthLength
  repeat' split
  all_goals omega

/-- A date of the calendar. -/
@[ext] structure Date where
  year : Int
  month : Nat
  day : Nat
  month_pos : 1 ≤ month
  month_le : month ≤ 12
  day_pos : 1 ≤ day
  day_le : day ≤ monthLength year month
  deriving DecidableEq, Repr

namespace Date

/-- The first day of the epoch. -/
def epoch : Date := ⟨1970, 1, 1, by decide, by decide, by decide, by decide⟩

/-- The first day of a month. -/
def first (year : Int) (month : Nat) (hpos : 1 ≤ month) (hle : month ≤ 12) : Date where
  year
  month
  day := 1
  month_pos := hpos
  month_le := hle
  day_pos := Nat.le_refl 1
  day_le := Nat.le_trans (by decide) (monthLength_pos year month)

/-- The day after. -/
def next (d : Date) : Date :=
  if hday : d.day < monthLength d.year d.month then
    { d with day := d.day + 1, day_pos := Nat.le_add_left 1 _, day_le := hday }
  else if hmonth : d.month < 12 then first d.year (d.month + 1) (Nat.le_add_left 1 _) hmonth
  else first (d.year + 1) 1 (Nat.le_refl 1) (by decide)

/-- The order of the calendar. -/
def Before (a b : Date) : Prop :=
  a.year < b.year ∨
    a.year = b.year ∧ (a.month < b.month ∨ a.month = b.month ∧ a.day < b.day)

instance (a b : Date) : Decidable (a.Before b) := inferInstanceAs (Decidable (_ ∨ _))

theorem before_trichotomy (a b : Date) : a.Before b ∨ a = b ∨ b.Before a := by
  rcases Int.lt_trichotomy a.year b.year with hyear | hyear | hyear
  · exact .inl (.inl hyear)
  · rcases Nat.lt_trichotomy a.month b.month with hmonth | hmonth | hmonth
    · exact .inl (.inr ⟨hyear, .inl hmonth⟩)
    · rcases Nat.lt_trichotomy a.day b.day with hday | hday | hday
      · exact .inl (.inr ⟨hyear, .inr ⟨hmonth, hday⟩⟩)
      · exact .inr (.inl (Date.ext hyear hmonth hday))
      · exact .inr (.inr (.inr ⟨hyear.symm, .inr ⟨hmonth.symm, hday⟩⟩))
    · exact .inr (.inr (.inr ⟨hyear.symm, .inl hmonth⟩))
  · exact .inr (.inr (.inl hyear))

end Date

/-! ## The number of a day -/

/-- The days of the years before `year`, each taken to begin in March. -/
def yearDays (year : Int) : Int := 365 * year + year / 4 - year / 100 + year / 400

/-- The number of a day, with the year of January and February counted as the one before. -/
def dayNumber (year : Int) (month day : Nat) : Int :=
  if month ≤ 2 then
    yearDays (year - 1) + (153 * (month + 9) + 2) / 5 + day - 1 - 719468
  else yearDays year + (153 * (month - 3) + 2) / 5 + day - 1 - 719468

/-- The leap day is the last one of a year that begins in March. -/
theorem yearDays_sub_one (year : Int) :
    yearDays year = yearDays (year - 1) + if IsLeap year then 366 else 365 := by
  unfold yearDays
  split
  · next hleap =>
      unfold IsLeap at hleap
      omega
  · next hleap =>
      unfold IsLeap at hleap
      omega

theorem dayNumber_day (year : Int) (month day : Nat) :
    dayNumber year month day = dayNumber year month 1 + day - 1 := by
  unfold dayNumber
  split <;> omega

theorem dayNumber_month_succ {month : Nat} (year : Int) (hpos : 1 ≤ month) (hlt : month < 12) :
    dayNumber year (month + 1) 1 = dayNumber year month 1 + monthLength year month := by
  have hyear := yearDays_sub_one year
  obtain rfl | hfeb := Decidable.em (month = 2)
  · simp only [dayNumber, monthLength]
    split at hyear <;> simp_all <;> omega
  · have hcases : month = 1 ∨ month = 3 ∨ month = 4 ∨ month = 5 ∨ month = 6 ∨ month = 7 ∨
        month = 8 ∨ month = 9 ∨ month = 10 ∨ month = 11 := by omega
    rcases hcases with rfl | rfl | rfl | rfl | rfl | rfl | rfl | rfl | rfl | rfl <;>
      simp [dayNumber, monthLength] <;> omega

theorem dayNumber_year_succ (year : Int) :
    dayNumber (year + 1) 1 1 = dayNumber year 12 1 + 31 := by
  simp [dayNumber]
  omega

namespace Date

def number (d : Date) : Int := dayNumber d.year d.month d.day

theorem number_epoch : epoch.number = 0 := by decide

theorem number_eq_first (d : Date) : d.number = dayNumber d.year d.month 1 + d.day - 1 :=
  dayNumber_day d.year d.month d.day

theorem number_next (d : Date) : d.next.number = d.number + 1 := by
  have hle := d.day_le
  have hnumber := d.number_eq_first
  unfold next
  split
  · next hday =>
      rw [number_eq_first]
      show dayNumber d.year d.month 1 + ((d.day + 1 : Nat) : Int) - 1 = _
      omega
  · next hday =>
      have hend : d.day = monthLength d.year d.month := by omega
      split
      · next hmonth =>
          show dayNumber d.year (d.month + 1) 1 = _
          rw [dayNumber_month_succ d.year d.month_pos hmonth]
          omega
      · next hmonth =>
          have hdecember : d.month = 12 := by
            have hle := d.month_le
            omega
          have hlength : monthLength d.year d.month = 31 := by
            rw [hdecember]
            rfl
          show dayNumber (d.year + 1) 1 1 = _
          rw [dayNumber_year_succ, hnumber, hend, hlength, hdecember]
          omega

theorem number_iterate (n : Nat) (d : Date) : (next^[n] d).number = d.number + n := by
  induction n with
  | zero => exact (Int.add_zero _).symm
  | succ n ih =>
      rw [Function.iterate_succ_apply', number_next, ih]
      omega

end Date

/-! ## Order -/

/-- A month ends before a later one of its year begins. -/
theorem dayNumber_month_lt {a b : Nat} (year : Int) (hpos : 1 ≤ a) (hlt : a < b) (hle : b ≤ 12) :
    dayNumber year a 1 + monthLength year a ≤ dayNumber year b 1 := by
  induction b, hlt using Nat.le_induction with
  | base => exact Int.le_of_eq (dayNumber_month_succ year hpos (by omega)).symm
  | succ b hab ih =>
      have hsucc := dayNumber_month_succ year (show 1 ≤ b by omega) (show b < 12 by omega)
      have hbefore := ih (by omega)
      omega

theorem dayNumber_year_le {a b : Int} (hle : a ≤ b) : dayNumber a 1 1 ≤ dayNumber b 1 1 := by
  simp only [dayNumber, yearDays]
  omega

namespace Date

theorem number_lt_year (d : Date) : d.number < dayNumber (d.year + 1) 1 1 := by
  have hday := d.day_le
  have hpos := d.month_pos
  have hmonth := d.month_le
  rw [number_eq_first, dayNumber_year_succ]
  rcases Nat.lt_or_ge d.month 12 with hlt | hge
  · have hend := dayNumber_month_lt d.year hpos hlt (Nat.le_refl 12)
    omega
  · have hdecember : d.month = 12 := by omega
    have hlength : monthLength d.year 12 = 31 := rfl
    rw [hdecember] at hday ⊢
    omega

theorem year_le_number (d : Date) : dayNumber d.year 1 1 ≤ d.number := by
  have hday := d.day_pos
  have hpos := d.month_pos
  rw [number_eq_first]
  rcases Nat.lt_or_ge 1 d.month with hlt | hge
  · have hend := dayNumber_month_lt d.year (Nat.le_refl 1) hlt d.month_le
    omega
  · have hjanuary : d.month = 1 := by omega
    rw [hjanuary]
    omega

/-- Later dates have larger numbers. -/
theorem number_lt {a b : Date} (h : a.Before b) : a.number < b.number := by
  rcases h with hyear | ⟨hyear, hmonth | ⟨hmonth, hday⟩⟩
  · have hend := a.number_lt_year
    have hyears := dayNumber_year_le (show a.year + 1 ≤ b.year by omega)
    have hstart := b.year_le_number
    omega
  · have hend := dayNumber_month_lt b.year a.month_pos hmonth b.month_le
    have hlast := a.day_le
    have hfirst := b.day_pos
    rw [number_eq_first a, number_eq_first b]
    rw [hyear] at hlast ⊢
    omega
  · rw [number_eq_first a, number_eq_first b, hyear, hmonth]
    omega

theorem number_lt_iff {a b : Date} : a.number < b.number ↔ a.Before b := by
  refine ⟨fun h => ?_, number_lt⟩
  rcases before_trichotomy a b with hbefore | rfl | hafter
  · exact hbefore
  · exact absurd h (Int.lt_irrefl _)
  · exact absurd (number_lt hafter) (by omega)

theorem number_injective : Function.Injective number := by
  intro a b h
  rcases before_trichotomy a b with hbefore | heq | hafter
  · exact absurd (number_lt hbefore) (by omega)
  · exact heq
  · exact absurd (number_lt hafter) (by omega)

/-- A number is the days from one date to the other, counted one by one. -/
theorem iterate_next {a b : Date} (h : a.number ≤ b.number) :
    next^[(b.number - a.number).toNat] a = b := by
  apply number_injective
  rw [number_iterate]
  omega

end Date

end Gregorian
end Lib
end NucleoBase
