import Mcc.Lib.Calendar
import Mcc.Model.IntOp

/-!
# `Model.TimeUtil` — seconds to dates and back

`SecToTime` and `TimeToSec` of `timeutil.cpp`. Both know only the years of a cycle of four, by tables of the days
before them and before the months.

A `long` is asked to hold no more than an `int` does, so nothing depends on its size.
-/

namespace Mcc

namespace TimeUtil

open IntOp

/-- `_time`. -/
structure Time where
  year : Int
  month : Int
  day : Int
  hour : Int
  minute : Int
  second : Int
  msec : Int
  usec : Int
deriving DecidableEq, Repr

/-- `SEC_PER_DAY`. -/
def secPerDay : Int := 86400

/-- `SEC_PER_HOUR`. -/
def secPerHour : Int := 3600

/-- `DAY_PER_4YEAR`. -/
def dayPer4Year : Int := 1461

/-- `__day_in_leapyear`. -/
def dayInLeapyear : Vector Int 13 := #v[0, 31, 60, 91, 121, 152, 182, 213, 244, 274, 305, 335, 366]

/-- `__day_in_commonyear`. -/
def dayInCommonyear : Vector Int 13 := #v[0, 31, 59, 90, 120, 151, 181, 212, 243, 273, 304, 334, 365]

/-- `__day_in_4year`. -/
def dayIn4Year : Vector Int 5 := #v[0, 365, 730, 1096, 1461]

theorem dayIn4Year_zero : dayIn4Year[(0 : Fin 5)] = 0 := by simp [dayIn4Year]

theorem dayIn4Year_four : dayIn4Year[(4 : Fin 5)] = 1461 := by simp [dayIn4Year]

/-- The third year of the cycle of four is the leap year. -/
theorem dayIn4Year_succ (i : Fin 4) :
    dayIn4Year[i.succ] = dayIn4Year[i.castSucc] + if i.val = 2 then 366 else 365 := by
  fin_cases i <;> simp [dayIn4Year]

/-- `___timebase`. -/
def timebase : Time := ⟨1970, 1, 1, 0, 0, 0, 0, 0⟩

/-- `for(i=0;i<n;i++) if(t >= table[i] && t < table[i+1]) break;` — where it breaks, if it does. -/
def search {n : ℕ} (table : Vector Int (n + 1)) (t : Int) : Option (Fin n) :=
  (List.finRange n).find? fun i => decide (table[i.castSucc] ≤ t ∧ t < table[i.succ])

/-- Where the loop breaks. -/
theorem search_spec {n : ℕ} {table : Vector Int (n + 1)} {t : Int} {i : Fin n} (h : search table t = some i) :
    table[i.castSucc] ≤ t ∧ t < table[i.succ] := by
  have hfound := List.find?_some h
  simpa using hfound

/-- `i` after the loop. -/
def stop {n : ℕ} (i : Option (Fin n)) : Fin (n + 1) := (i.map Fin.castSucc).getD (Fin.last n)

/-- `SecToTime`: what it returns, and what it leaves in the `_time`. -/
def secToTime (nSec : Int) (pTime : Time) : Int × Time :=
  if nSec < 0 then (0, pTime)
  else
    let pTime := timebase
    let t := nSec.tmod secPerDay
    let pTime := { pTime with hour := t.tdiv secPerHour }
    let t := t.tmod secPerHour
    let pTime := { pTime with minute := t.tdiv 60, second := t.tmod 60 }
    let t := nSec.tdiv secPerDay
    let pTime := { pTime with year := pTime.year + 4 * t.tdiv dayPer4Year }
    let t := t.tmod dayPer4Year
    let i := stop (search dayIn4Year t)
    let pTime := { pTime with year := pTime.year + i.val }
    let dayInYear := if i.val = 2 then dayInLeapyear else dayInCommonyear
    let t := t - dayIn4Year[i]
    let i := stop (search dayInYear t)
    let pTime := { pTime with month := pTime.month + i.val }
    let t := t - dayInYear[i]
    (1, { pTime with day := pTime.day + t })

/-- The loops of `SecToTime` end at a `break`. -/
def SearchesBreak (nSec : Int) : Prop :=
  let t := (nSec.tdiv secPerDay).tmod dayPer4Year
  ∃ i, search dayIn4Year t = some i ∧
    (search (if i.val = 2 then dayInLeapyear else dayInCommonyear) (t - dayIn4Year[i.castSucc])).isSome

/-- `table[i]`: nothing outside the table. -/
def read {n : ℕ} (table : Vector Int n) (i : Int) : Option Int := if 0 ≤ i then table[i.toNat]? else none

/-- `TimeToSec`; nothing where a table is read outside its bounds or an operation overflows. -/
def timeToSec (pTime : Time) : Option Int := do
  let dayInYear := if pTime.year.tmod 4 = 0 then dayInLeapyear else dayInCommonyear
  let res := 0
  let res ← add res (← mul (← read dayInYear (← sub pTime.month timebase.month)) secPerDay)
  let res ← add res (← mul (← sub pTime.day timebase.day) secPerDay)
  let res ← add res (← mul (← sub pTime.hour timebase.hour) secPerHour)
  let res ← add res (← mul (← sub pTime.minute timebase.minute) 60)
  let res ← add res (← sub pTime.second timebase.second)
  let t ← sub pTime.year timebase.year
  let res ← add res (← mul (← mul (t.tdiv 4) (← read dayIn4Year 4)) secPerDay)
  let t := t.tmod 4
  add res (← mul (← read dayIn4Year t) secPerDay)

end TimeUtil

end Mcc
