import Mathlib.Algebra.BigOperators.Intervals
import Mathlib.Algebra.Order.BigOperators.Group.Finset

/-!
# `Lib.Calendar` — the Gregorian calendar

Dates are what the calendar has: a `Date` carries that its month is one and that its day is a day of the month.
`dayNumber` counts the days of the years and of the months before a date, and `seconds` the seconds of the days
before a time of the day; no leap seconds. Both begin with the year `epoch`.

## Contents
- **The calendar.** `IsLeap`, `monthLength`, `yearLength`.
- **Days.** `Date.dayNumber`; a year's days end before the next year's (`Date.dayNumber_injective`).
- **Seconds.** `Time.seconds`, and `Time.seconds_injective`: a number of seconds is one time at most.
-/

namespace Calendar

/-! ## The calendar -/

/-- Every fourth year, but of the centuries only every fourth. -/
def IsLeap (year : ℕ) : Prop := 4 ∣ year ∧ (100 ∣ year → 400 ∣ year)

instance (year : ℕ) : Decidable (IsLeap year) := inferInstanceAs (Decidable (_ ∧ _))

/-- The days of a month. -/
def monthLength (year : ℕ) : ℕ → ℕ
  | 2 => if IsLeap year then 29 else 28
  | 4 => 30
  | 6 => 30
  | 9 => 30
  | 11 => 30
  | _ => 31

/-- The days of the year before a month of it. -/
def daysBefore (year month : ℕ) : ℕ := ∑ m ∈ Finset.Ico 1 month, monthLength year m

/-- The days of a year. -/
def yearLength (year : ℕ) : ℕ := daysBefore year 13

/-! ## Days -/

/-- A date. -/
@[ext] structure Date where
  year : ℕ
  month : ℕ
  day : ℕ
  month_pos : 1 ≤ month
  month_le : month ≤ 12
  day_pos : 1 ≤ day
  day_le : day ≤ monthLength year month

/-- The days before a date, from the first of January of `epoch` on. -/
def Date.dayNumber (epoch : ℕ) (d : Date) : ℕ :=
  ∑ y ∈ Finset.Ico epoch d.year, yearLength y + daysBefore d.year d.month + (d.day - 1)

theorem daysBefore_succ {year month : ℕ} (h : 1 ≤ month) :
    daysBefore year (month + 1) = daysBefore year month + monthLength year month := Finset.sum_Ico_succ_top h _

theorem daysBefore_mono (year : ℕ) {month month' : ℕ} (h : month ≤ month') :
    daysBefore year month ≤ daysBefore year month' :=
  Finset.sum_le_sum_of_subset (Finset.Ico_subset_Ico_right h)

/-- A date lies before the next month. -/
theorem Date.daysBefore_lt (d : Date) {month : ℕ} (h : d.month < month) :
    daysBefore d.year d.month + (d.day - 1) < daysBefore d.year month := by
  have hpos := d.day_pos
  have hle := d.day_le
  have hnext := daysBefore_mono d.year h
  rw [Nat.succ_eq_add_one, daysBefore_succ d.month_pos] at hnext
  omega

/-- A date lies before the next year. -/
theorem Date.dayNumber_lt {epoch year : ℕ} {d : Date} (h : epoch ≤ d.year) (hlt : d.year < year) :
    d.dayNumber epoch < ∑ y ∈ Finset.Ico epoch year, yearLength y := by
  have hwithin : daysBefore d.year d.month + (d.day - 1) < yearLength d.year :=
    d.daysBefore_lt (Nat.lt_succ_of_le d.month_le)
  have hyears : ∑ y ∈ Finset.Ico epoch (d.year + 1), yearLength y ≤ ∑ y ∈ Finset.Ico epoch year, yearLength y :=
    Finset.sum_le_sum_of_subset (Finset.Ico_subset_Ico_right hlt)
  rw [Finset.sum_Ico_succ_top h] at hyears
  unfold Date.dayNumber
  omega

/-- An earlier year has a smaller number. -/
theorem Date.dayNumber_lt_of_year {epoch : ℕ} {d d' : Date} (h : epoch ≤ d.year) (hlt : d.year < d'.year) :
    d.dayNumber epoch < d'.dayNumber epoch := by
  have hbefore := d.dayNumber_lt h hlt
  have hafter : ∑ y ∈ Finset.Ico epoch d'.year, yearLength y ≤ d'.dayNumber epoch := by
    unfold Date.dayNumber
    omega
  omega

/-- **A day has one date.** -/
theorem Date.dayNumber_injective {epoch : ℕ} {d d' : Date} (h : epoch ≤ d.year) (h' : epoch ≤ d'.year)
    (heq : d.dayNumber epoch = d'.dayNumber epoch) : d = d' := by
  obtain hlt | hyear | hgt := Nat.lt_trichotomy d.year d'.year
  · exact absurd heq (Nat.ne_of_lt (dayNumber_lt_of_year h hlt))
  · unfold dayNumber at heq
    rw [hyear] at heq
    have hpos := d.day_pos
    have hpos' := d'.day_pos
    have hmonth : d.month = d'.month := by
      obtain hlt | hmonth | hgt := Nat.lt_trichotomy d.month d'.month
      · have hbefore := d.daysBefore_lt hlt
        rw [hyear] at hbefore
        omega
      · exact hmonth
      · have hbefore := d'.daysBefore_lt hgt
        omega
    rw [hmonth] at heq
    exact Date.ext hyear hmonth (by omega)
  · exact absurd heq.symm (Nat.ne_of_lt (dayNumber_lt_of_year h' hgt))

/-! ## Seconds -/

/-- A time of a day. -/
@[ext] structure Time extends Date where
  hour : ℕ
  minute : ℕ
  second : ℕ
  hour_lt : hour < 24
  minute_lt : minute < 60
  second_lt : second < 60

/-- The seconds before a time, from midnight of the first of January of `epoch` on. -/
def Time.seconds (epoch : ℕ) (t : Time) : ℕ :=
  t.dayNumber epoch * 86400 + t.hour * 3600 + t.minute * 60 + t.second

/-- **A number of seconds is one time at most.** -/
theorem Time.seconds_injective {epoch : ℕ} {t t' : Time} (h : epoch ≤ t.year) (h' : epoch ≤ t'.year)
    (heq : t.seconds epoch = t'.seconds epoch) : t = t' := by
  unfold seconds at heq
  have hbounds := And.intro t.hour_lt (And.intro t.minute_lt t.second_lt)
  have hbounds' := And.intro t'.hour_lt (And.intro t'.minute_lt t'.second_lt)
  have hdate : t.toDate = t'.toDate := Date.dayNumber_injective h h' (by omega)
  rw [hdate] at heq
  obtain ⟨hyear, hmonth, hday⟩ := Date.ext_iff.mp hdate
  exact Time.ext hyear hmonth hday (by omega) (by omega) (by omega)

end Calendar
