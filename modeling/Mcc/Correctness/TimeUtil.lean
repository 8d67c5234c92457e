import Mcc.Model.TimeUtil

/-!
# `Correctness.TimeUtil` — the two conversions are the calendar's

The tables know no centuries. Up to 2099 that makes no difference: the only one is 2000, a leap year like any
fourth one. So the tables count the days the calendar does (`sum_yearLength`, `daysBefore_eq`), `TimeToSec` the
seconds (`timeToSec_ofCalendar`), and what `SecToTime` finds is a time of that many seconds (`secToTime_eq`).
That both are inverse to each other then follows from the calendar, where seconds are one time at most.

## Contents
- **Tables.** Years and months.
- **Searches.** `search_isSome`.
- **`TimeToSec`**, **`SecToTime`**.
-/

namespace Mcc

namespace TimeUtil

open Calendar IntOp

/-! ## Tables -/

/-- The table of the months of a year. -/
def monthTable (year : ℕ) : Vector Int 13 := if IsLeap year then dayInLeapyear else dayInCommonyear

/-- The only century before 2100 is a leap year. -/
theorem isLeap_iff {year : ℕ} (h : 1970 ≤ year) (hlt : year < 2100) : IsLeap year ↔ year % 4 = 0 := by
  unfold IsLeap
  omega

/-- A month of the tables. -/
theorem monthTable_succ (year : ℕ) (i : Fin 12) :
    (monthTable year)[i.succ] = (monthTable year)[i.castSucc] + monthLength year (i + 1) := by
  unfold monthTable monthLength
  by_cases hleap : IsLeap year
  · simp only [hleap, if_true]
    fin_cases i <;> simp [dayInLeapyear]
  · simp only [hleap, if_false]
    fin_cases i <;> simp [dayInCommonyear]

theorem monthTable_zero (year : ℕ) : (monthTable year)[(0 : Fin 13)] = 0 := by
  unfold monthTable
  split <;> simp [dayInLeapyear, dayInCommonyear]

theorem daysBefore_eq (year : ℕ) (i : Fin 13) : (monthTable year)[i] = daysBefore year (i + 1) := by
  induction i using Fin.induction with
  | zero => simpa [daysBefore] using monthTable_zero year
  | succ i ih =>
    rw [monthTable_succ, ih, Fin.val_succ, daysBefore_succ (Nat.le_add_left 1 i), Nat.cast_add, Fin.val_castSucc]

theorem yearLength_eq (year : ℕ) : yearLength year = if IsLeap year then 366 else 365 := by
  have hlast := daysBefore_eq year 12
  unfold monthTable at hlast
  unfold yearLength
  by_cases hleap : IsLeap year
  · simp only [hleap, if_true] at hlast ⊢
    exact Int.ofNat_inj.mp hlast.symm
  · simp only [hleap, if_false] at hlast ⊢
    exact Int.ofNat_inj.mp hlast.symm

theorem isLeap_cycle {q : ℕ} {i : Fin 4} (h : 4 * q + i < 130) : IsLeap (1970 + (4 * q + i)) ↔ i.val = 2 := by
  have hlt := i.isLt
  rw [isLeap_iff (by omega) (by omega)]
  omega

theorem yearLength_cycle {q : ℕ} {i : Fin 4} (h : 4 * q + i < 130) :
    (yearLength (1970 + (4 * q + i)) : Int) = if i.val = 2 then 366 else 365 := by
  rw [yearLength_eq, Nat.cast_ite, if_congr (isLeap_cycle h) (Nat.cast_ofNat) (Nat.cast_ofNat)]

/-- The days of the first years of a cycle. -/
theorem sum_cycle {q : ℕ} {i : Fin 5} (h : 4 * q + i ≤ 130) :
    ((∑ y ∈ Finset.Ico 1970 (1970 + (4 * q + i)), yearLength y : ℕ) : Int) =
      (∑ y ∈ Finset.Ico 1970 (1970 + 4 * q), yearLength y : ℕ) + dayIn4Year[i] := by
  induction i using Fin.induction with
  | zero => simp only [Fin.val_zero, Nat.add_zero, dayIn4Year_zero, Int.add_zero]
  | succ i ih =>
    simp only [Fin.val_castSucc, Fin.val_succ] at h ih ⊢
    rw [← Nat.add_assoc, ← Nat.add_assoc, Finset.sum_Ico_succ_top (by omega), Nat.cast_add, Nat.add_assoc,
      yearLength_cycle (by omega), ih (by omega), dayIn4Year_succ]
    ring

/-- The days of `q` cycles. -/
theorem sum_cycles {q : ℕ} (h : 4 * q ≤ 130) :
    ((∑ y ∈ Finset.Ico 1970 (1970 + 4 * q), yearLength y : ℕ) : Int) = q * 1461 := by
  induction q with
  | zero => simp
  | succ q ih =>
    have hcycle := @sum_cycle q 4 h
    rw [ih (by omega), dayIn4Year_four] at hcycle
    rw [Nat.mul_succ]
    refine hcycle.trans ?_
    push_cast
    ring

/-- The days of the years before one. -/
theorem sum_yearLength {q : ℕ} {i : Fin 5} (h : 4 * q + i ≤ 130) :
    ((∑ y ∈ Finset.Ico 1970 (1970 + (4 * q + i)), yearLength y : ℕ) : Int) = q * 1461 + dayIn4Year[i] := by
  rw [sum_cycle h, sum_cycles (by omega)]

/-! ## Searches -/

/-- The search breaks for what lies between the table's ends. -/
theorem search_isSome {n : ℕ} {table : Vector Int (n + 1)} {t : Int} (hle : table[(0 : Fin (n + 1))] ≤ t)
    (hlt : t < table[Fin.last n]) : (search table t).isSome := by
  by_contra hnone
  have hpass (i : Fin n) (h : table[i.castSucc] ≤ t) : table[i.succ] ≤ t := by
    by_contra hstop
    refine hnone (List.find?_isSome.mpr ⟨i, List.mem_finRange i, ?_⟩)
    simpa using And.intro h (Int.not_le.mp hstop)
  -- the loop passes one entry after the other, the last one too
  have hlast : table[Fin.last n] ≤ t := Fin.induction (motive := fun i => table[i] ≤ t) hle hpass (Fin.last n)
  exact absurd hlast (Int.not_le.mpr hlt)

/-! ## `TimeToSec` -/

/-- A time of the calendar in the fields of the code. -/
def ofCalendar (t : Calendar.Time) : Time := ⟨t.year, t.month, t.day, t.hour, t.minute, t.second, 0, 0⟩

theorem read_val {n : ℕ} (table : Vector Int n) (i : Fin n) : read table (i.val : Int) = some table[i] := by
  simp [read]

/-- A year before 2100 by its cycle. -/
theorem exists_cycle {year : ℕ} (h : 1970 ≤ year) : ∃ q, ∃ i : Fin 4, year = 1970 + (4 * q + i) :=
  ⟨(year - 1970) / 4, ⟨(year - 1970) % 4, Nat.mod_lt _ (by omega)⟩, by simp only; omega⟩

/-- The years whose seconds an `int` holds. -/
theorem year_lt {t : Calendar.Time} (h : t.seconds 1970 < 2 ^ 31) : t.year < 2039 := by
  by_contra hlate
  have hyears : ∑ y ∈ Finset.Ico 1970 2039, yearLength y ≤ ∑ y ∈ Finset.Ico 1970 t.year, yearLength y :=
    Finset.sum_le_sum_of_subset (Finset.Ico_subset_Ico_right (Nat.not_lt.mp hlate))
  have hsum := @sum_yearLength 17 1 (by simp)
  have hyear : dayIn4Year[(1 : Fin 5)] = 365 := by simp [dayIn4Year]
  rw [hyear, show 1970 + (4 * 17 + ((1 : Fin 5) : ℕ)) = 2039 by simp] at hsum
  unfold Calendar.Time.seconds Date.dayNumber at h
  omega

/-- 2037 ends in time. -/
theorem seconds_lt {t : Calendar.Time} (hfirst : 1970 ≤ t.year) (h : t.year ≤ 2037) : t.seconds 1970 < 2 ^ 31 := by
  have hbefore : t.dayNumber 1970 < ∑ y ∈ Finset.Ico 1970 2038, yearLength y :=
    Date.dayNumber_lt hfirst (Nat.lt_succ_of_le h)
  have hsum := @sum_yearLength 17 0 (by simp)
  rw [dayIn4Year_zero, show 1970 + (4 * 17 + ((0 : Fin 5) : ℕ)) = 2038 by simp] at hsum
  have hbounds := And.intro t.hour_lt (And.intro t.minute_lt t.second_lt)
  unfold Calendar.Time.seconds
  omega

/-- The table of the months `TimeToSec` takes. -/
theorem monthTable_eq {year : ℕ} (h : 1970 ≤ year) (hlt : year < 2100) :
    (if (year : Int).tmod 4 = 0 then dayInLeapyear else dayInCommonyear) = monthTable year := by
  have hmod : (year : Int).tmod 4 = 0 ↔ IsLeap year := by
    rw [isLeap_iff h hlt, Int.tmod_eq_emod_of_nonneg (by omega)]
    omega
  unfold monthTable
  exact if_congr hmod rfl rfl

/-- `TimeToSec` by what it reads: `int` holds every sum on the way, as it holds the last and nothing is negative. -/
theorem timeToSec_of_read {pTime : Time} {m q y : Int}
    (hmonth : read (if pTime.year.tmod 4 = 0 then dayInLeapyear else dayInCommonyear) (pTime.month - 1) = some m)
    (hquot : (pTime.year - 1970).tdiv 4 = q) (hyear : read dayIn4Year ((pTime.year - 1970).tmod 4) = some y)
    (hm : 0 ≤ m) (hq : 0 ≤ q) (hy : 0 ≤ y) (hmonths : 1 ≤ pTime.month ∧ pTime.month ≤ 12) (hday : 1 ≤ pTime.day)
    (hhour : 0 ≤ pTime.hour) (hminute : 0 ≤ pTime.minute) (hsecond : 0 ≤ pTime.second)
    (hyears : 1970 ≤ pTime.year ∧ pTime.year < 2100)
    (hlt : (q * 1461 + y + m + (pTime.day - 1)) * 86400 + pTime.hour * 3600 + pTime.minute * 60 + pTime.second <
      2147483648) :
    timeToSec pTime = some ((q * 1461 + y + m + (pTime.day - 1)) * 86400 + pTime.hour * 3600 + pTime.minute * 60 +
      pTime.second) := by
  have hlast : read dayIn4Year 4 = some 1461 := by
    have hread := read_val dayIn4Year 4
    rwa [dayIn4Year_four] at hread
  unfold timeToSec
  simp only [timebase, secPerDay, secPerHour]
  -- the month, the day, the hour, the minute and the second, and the year
  rw [bind_of_eq (sub_of_range (by omega) (by omega)), bind_of_eq hmonth,
    bind_of_eq (mul_of_range (by omega) (by omega)), bind_of_eq (add_of_range (by omega) (by omega)),
    bind_of_eq (sub_of_range (by omega) (by omega)), bind_of_eq (mul_of_range (by omega) (by omega)),
    bind_of_eq (add_of_range (by omega) (by omega)),
    bind_of_eq (sub_of_range (by omega) (by omega)), bind_of_eq (mul_of_range (by omega) (by omega)),
    bind_of_eq (add_of_range (by omega) (by omega)),
    bind_of_eq (sub_of_range (by omega) (by omega)), bind_of_eq (mul_of_range (by omega) (by omega)),
    bind_of_eq (add_of_range (by omega) (by omega)),
    bind_of_eq (sub_of_range (by omega) (by omega)), bind_of_eq (add_of_range (by omega) (by omega)),
    bind_of_eq (sub_of_range (by omega) (by omega)), hquot, bind_of_eq hlast,
    bind_of_eq (mul_of_range (by omega) (by omega)), bind_of_eq (mul_of_range (by omega) (by omega)),
    bind_of_eq (add_of_range (by omega) (by omega)), bind_of_eq hyear,
    bind_of_eq (mul_of_range (by omega) (by omega)), add_of_range (by omega) (by omega)]
  congr 1
  ring

theorem read_month (t : Calendar.Time) :
    read (monthTable t.year) ((t.month : Int) - 1) = some (daysBefore t.year t.month : Int) := by
  have hpos := t.month_pos
  have hle := t.month_le
  have hread := read_val (monthTable t.year) ⟨t.month - 1, by omega⟩
  rw [daysBefore_eq] at hread
  simpa [Nat.sub_add_cancel hpos, Nat.cast_sub hpos] using hread

/-- **`TimeToSec` counts the seconds of the calendar**, without an overflow on the way. -/
theorem timeToSec_ofCalendar {t : Calendar.Time} (h : 1970 ≤ t.year) (hlt : t.seconds 1970 < 2 ^ 31) :
    timeToSec (ofCalendar t) = some (t.seconds 1970 : Int) := by
  have hlate := year_lt hlt
  obtain ⟨q, i, hcycle⟩ := exists_cycle h
  have hyears := @sum_yearLength q i.castSucc (by simp only [Fin.val_castSucc]; omega)
  have hfirst := @sum_yearLength 0 i.castSucc (by simp only [Fin.val_castSucc]; omega)
  simp only [Fin.val_castSucc, ← hcycle] at hyears
  have hmonth : read (if (t.year : Int).tmod 4 = 0 then dayInLeapyear else dayInCommonyear) ((t.month : Int) - 1) =
      some (daysBefore t.year t.month : Int) := by
    rw [monthTable_eq h (by omega), read_month]
  have hyear : read dayIn4Year (((t.year : Int) - 1970).tmod 4) = some dayIn4Year[i.castSucc] := by
    rw [← read_val, Int.tmod_eq_emod_of_nonneg (by omega), Fin.val_castSucc]
    congr 1
    omega
  have hquot : ((t.year : Int) - 1970).tdiv 4 = q := by
    rw [Int.tdiv_eq_ediv_of_nonneg (by omega)]
    omega
  have htotal : (t.seconds 1970 : Int) = (q * 1461 + dayIn4Year[i.castSucc] + daysBefore t.year t.month +
      ((t.day : Int) - 1)) * 86400 + t.hour * 3600 + t.minute * 60 + t.second := by
    unfold Calendar.Time.seconds Date.dayNumber
    rw [← hyears]
    push_cast [Nat.cast_sub t.day_pos]
    ring
  have hmonths : (1 : Int) ≤ t.month ∧ (t.month : Int) ≤ 12 := by
    have hpos := t.month_pos
    have hle := t.month_le
    omega
  have hday : (1 : Int) ≤ t.day := Int.ofNat_le.mpr t.day_pos
  have hyears : (1970 : Int) ≤ t.year ∧ (t.year : Int) < 2100 := by omega
  have hnonneg (n : ℕ) : (0 : Int) ≤ n := Int.natCast_nonneg n
  rw [htotal]
  exact timeToSec_of_read hmonth hquot hyear (hnonneg _) (hnonneg _) (by omega) hmonths hday (hnonneg _)
    (hnonneg _) (hnonneg _) hyears (htotal ▸ Int.ofNat_lt.mpr hlt)

/-! ## `SecToTime` -/

@[simp] theorem stop_some {n : ℕ} (i : Fin n) : stop (some i) = i.castSucc := by simp [stop]

/-- What `SecToTime` leaves, by where its loops break. -/
theorem secToTime_of_search {n : Int} {pTime : Time} {i : Fin 4} {m : Fin 12} {table : Vector Int 13}
    (h : 0 ≤ n) (hyear : search dayIn4Year (n / 86400 % 1461) = some i)
    (htable : (if i.val = 2 then dayInLeapyear else dayInCommonyear) = table)
    (hmonth : search table (n / 86400 % 1461 - dayIn4Year[i.castSucc]) = some m) :
    secToTime n pTime = (1, ⟨1970 + 4 * (n / 86400 / 1461) + i, 1 + m,
      1 + (n / 86400 % 1461 - dayIn4Year[i.castSucc] - table[m.castSucc]), n % 86400 / 3600, n % 86400 % 3600 / 60,
      n % 86400 % 3600 % 60, 0, 0⟩) := by
  have hdays : n.tdiv secPerDay = n / 86400 := Int.tdiv_eq_ediv_of_nonneg h
  have hrest : n.tmod secPerDay = n % 86400 := Int.tmod_eq_emod_of_nonneg h
  have hcycle : (n / 86400).tmod dayPer4Year = n / 86400 % 1461 := Int.tmod_eq_emod_of_nonneg (by omega)
  have hcycles : (n / 86400).tdiv dayPer4Year = n / 86400 / 1461 := Int.tdiv_eq_ediv_of_nonneg (by omega)
  have hhour : (n % 86400).tdiv secPerHour = n % 86400 / 3600 := Int.tdiv_eq_ediv_of_nonneg (by omega)
  have hhours : (n % 86400).tmod secPerHour = n % 86400 % 3600 := Int.tmod_eq_emod_of_nonneg (by omega)
  have hminute : (n % 86400 % 3600).tdiv 60 = n % 86400 % 3600 / 60 := Int.tdiv_eq_ediv_of_nonneg (by omega)
  have hminutes : (n % 86400 % 3600).tmod 60 = n % 86400 % 3600 % 60 := Int.tmod_eq_emod_of_nonneg (by omega)
  unfold secToTime
  simp only [hdays, hrest, hcycle, hcycles, hhour, hhours, hminute, hminutes, hyear, stop_some, Fin.val_castSucc,
    htable, hmonth, timebase, Int.not_lt.mpr h, if_false]

/-- **What `SecToTime` finds is a time of the calendar**, as many seconds after the first of January 1970; its
loops break. -/
theorem secToTime_eq {n : ℕ} (hlt : n < 2 ^ 31) (pTime : Time) :
    SearchesBreak n ∧ ∃ t : Calendar.Time, 1970 ≤ t.year ∧ t.seconds 1970 = n ∧
      secToTime n pTime = (1, ofCalendar t) := by
  set q := n / 86400 / 1461 with hq
  set r := n / 86400 % 1461 with hr
  have hnonneg : (0 : Int) ≤ r := Int.natCast_nonneg r
  have hrest : (r : Int) < 1461 := by omega
  -- the year
  obtain ⟨i, hi⟩ := Option.isSome_iff_exists.mp
    (@search_isSome 4 dayIn4Year r (dayIn4Year_zero.trans_le hnonneg) (hrest.trans_eq dayIn4Year_four.symm))
  have hyear := search_spec hi
  have hyears := @sum_yearLength q i.castSucc (by simp only [Fin.val_castSucc]; omega)
  have hlength := @yearLength_cycle q i (by omega)
  have hleap : IsLeap (1970 + (4 * q + i)) ↔ i.val = 2 := isLeap_cycle (by omega)
  have htable : (if i.val = 2 then dayInLeapyear else dayInCommonyear) = monthTable (1970 + (4 * q + i)) :=
    (if_congr hleap rfl rfl).symm
  simp only [Fin.val_castSucc] at hyears
  rw [dayIn4Year_succ, ← hlength] at hyear
  set year := 1970 + (4 * q + i.val) with hdef
  -- the month
  have hzero : (monthTable year)[(0 : Fin 13)] ≤ r - dayIn4Year[i.castSucc] := by
    rw [daysBefore_eq]
    simpa [daysBefore] using hyear.1
  have hlast : r - dayIn4Year[i.castSucc] < (monthTable year)[Fin.last 12] := by
    rw [daysBefore_eq]
    exact Int.sub_left_lt_of_lt_add hyear.2
  obtain ⟨m, hm⟩ := Option.isSome_iff_exists.mp (search_isSome hzero hlast)
  have hmonth := search_spec hm
  rw [daysBefore_eq, daysBefore_eq] at hmonth
  simp only [Fin.val_castSucc, Fin.val_succ] at hmonth
  rw [@daysBefore_succ year (m + 1) (Nat.le_add_left 1 m)] at hmonth
  -- the day
  obtain ⟨k, hk⟩ := Int.eq_ofNat_of_zero_le (Int.sub_nonneg.mpr hmonth.1)
  have hday : k < monthLength year (m + 1) := by omega
  let t : Calendar.Time :=
    { year := year, month := m + 1, day := k + 1, hour := n % 86400 / 3600, minute := n % 86400 % 3600 / 60,
      second := n % 86400 % 3600 % 60, month_pos := Nat.le_add_left 1 m, month_le := m.isLt,
      day_pos := Nat.le_add_left 1 k, day_le := hday, hour_lt := by omega, minute_lt := by omega,
      second_lt := by omega }
  refine ⟨⟨i, hi, ?_⟩, t, ?_, ?_, ?_⟩
  · exact htable ▸ (Option.isSome_of_eq_some hm)
  · exact Nat.le_add_right 1970 _
  · have hdays : t.dayNumber 1970 = n / 86400 := by
      simp only [Date.dayNumber, t, Nat.add_sub_cancel]
      omega
    simp only [Calendar.Time.seconds, hdays, t]
    omega
  · rw [secToTime_of_search (Int.natCast_nonneg n) hi htable hm]
    have hbefore : (monthTable year)[m.castSucc] = daysBefore year (m + 1) := daysBefore_eq year m.castSucc
    simp only [ofCalendar, t, Prod.mk.injEq, Time.mk.injEq, and_true, true_and, hbefore]
    omega

/-! ## Both -/

/-- **The conversions are inverse to each other.** Of `n` seconds an `int` holds, `SecToTime` makes the time of the
calendar `n` seconds after 1970 began, without leaving a table, and `TimeToSec` `n` again without an overflow; and
from a date up to the end of 2037 `TimeToSec` makes seconds of which `SecToTime` makes the date again. -/
theorem secToTime_timeToSec (pTime : Time) :
    (∀ n : ℕ, n < 2 ^ 31 → SearchesBreak n ∧ ∃ t : Calendar.Time, 1970 ≤ t.year ∧ t.seconds 1970 = n ∧
      secToTime n pTime = (1, ofCalendar t) ∧ timeToSec (ofCalendar t) = some (n : Int)) ∧
    ∀ t : Calendar.Time, 1970 ≤ t.year → t.year ≤ 2037 →
      ∃ n, timeToSec (ofCalendar t) = some n ∧ secToTime n pTime = (1, ofCalendar t) := by
  constructor
  · intro n hn
    obtain ⟨hbreak, t, hyear, hseconds, htime⟩ := secToTime_eq hn pTime
    have hback := timeToSec_ofCalendar hyear (hseconds ▸ hn)
    exact ⟨hbreak, t, hyear, hseconds, htime, hseconds ▸ hback⟩
  · intro t hfirst hlast
    have hlt := seconds_lt hfirst hlast
    obtain ⟨-, t', hyear, hseconds, htime⟩ := secToTime_eq hlt pTime
    have heq : t' = t := Calendar.Time.seconds_injective hyear hfirst hseconds
    rw [heq] at htime
    exact ⟨_, timeToSec_ofCalendar hfirst hlt, htime⟩

end TimeUtil

end Mcc
