import Mathlib.Algebra.Order.Ring.Int

/-!
# Calendar time

`components/libc/compilers/common/ctime.c`: `gmtime_r` counts the years one by one, and `timegm` has a closed
formula for them.

* `Tm`, `gmtimeR`, `timegm`: the code, with its loops `yearLoop`, `monthLoop` and `mdayLoop`;
* `yearDays`, `monthStart`, `Tm.dayNumber`, `Tm.instant`: the calendar;
* `yearDays_eq`, `centuries_eq`: the closed formula; `yearLoop_years`: the loop over the years;
* `timegm_dated`, `gmtimeR_dated`: each function on its own; **`calendar_round_trip`**.
-/

namespace RtThread.Ctime

/-! ## The code -/

/-- `struct tm`. -/
structure Tm where
  tmSec : ℤ
  tmMin : ℤ
  tmHour : ℤ
  tmMday : ℤ
  tmMon : ℤ
  tmYear : ℤ
  tmWday : ℤ
  tmYday : ℤ
  tmIsdst : ℤ
  deriving DecidableEq

/-- The value of an `int`. -/
def intValue (x : ℤ) : ℤ := (x + 2147483648) % 4294967296 - 2147483648

/-- `__spm`. -/
def spmTable : List ℤ := [0, 31, 59, 90, 120, 151, 181, 212, 243, 273, 304, 334, 365]

/-- `__spm[i]`, inside the table. -/
def spm (i : ℤ) : Option ℤ := if 0 ≤ i then spmTable[i.toNat]? else none

/-- `__isleap`. -/
def isLeap (year : ℤ) : Bool := year % 4 = 0 ∧ (year % 100 ≠ 0 ∨ year % 400 = 0)

/-- The days of a year. -/
def yearLen (year : ℤ) : ℤ := if isLeap year then 366 else 365

/-- The loop of `gmtime_r` over the years. -/
def yearLoop : ℕ → ℤ → ℤ → Option (ℤ × ℤ)
  | 0, _, _ => none
  | n + 1, i, work =>
    if work ≥ yearLen i then yearLoop n (i + 1) (work - yearLen i) else some (i, work)

/-- `for (i = 11; i && (__spm[i] > work); --i);`. -/
def monthLoop (work : ℤ) : ℕ → ℕ
  | 0 => 0
  | i + 1 => if spmTable.getD (i + 1) 0 > work then monthLoop work i else i + 1

/-- The month and the day of the month, as `gmtime_r` gets them from the day of the year. -/
def monthDay (leap : Bool) (yday : ℤ) : ℕ × ℤ :=
  let mday := if leap = true ∧ yday > 58 ∧ yday = 59 then 2 else 1
  let work := if leap = true ∧ yday > 58 then yday - 1 else yday
  let i := monthLoop work 11
  (i, mday + (work - spmTable.getD i 0))

/-- The fields that `gmtime_r` fills in, for a year and the day of the year that its loop ends with. -/
def gmtimeFields (t day : ℤ) (r : ℤ × ℤ) : Tm :=
  let work := t.tmod (24 * 60 * 60)
  { tmSec := work.tmod 60
    tmMin := (work.tdiv 60).tmod 60
    tmHour := (work.tdiv 60).tdiv 60
    tmMday := (monthDay (isLeap r.1) r.2).2
    tmMon := (monthDay (isLeap r.1) r.2).1
    tmYear := r.1 - 1900
    tmWday := (intValue (4 + day)).tmod 7
    tmYday := r.2
    tmIsdst := 0 }

/-- `gmtime_r`. The seconds are divided as a `time_t`, and the days are an `int`. -/
def gmtimeR (t : ℤ) : Option Tm :=
  let day := intValue (t.tdiv (24 * 60 * 60))
  (yearLoop (day.toNat + 1) 1970 day).map (gmtimeFields t day)

/-- The seconds, the minutes, the hours and the months of `timegm` are carried. -/
def Tm.carry (d : Tm) : Tm :=
  let d := if d.tmSec > 60 then
    { d with tmMin := intValue (d.tmMin + d.tmSec.tdiv 60), tmSec := d.tmSec.tmod 60 } else d
  let d := if d.tmMin ≥ 60 then
    { d with tmHour := intValue (d.tmHour + d.tmMin.tdiv 60), tmMin := d.tmMin.tmod 60 } else d
  let d := if d.tmHour ≥ 24 then
    { d with tmMday := intValue (d.tmMday + d.tmHour.tdiv 24), tmHour := d.tmHour.tmod 24 } else d
  if d.tmMon ≥ 12 then
    { d with tmYear := intValue (d.tmYear + d.tmMon.tdiv 12), tmMon := d.tmMon.tmod 12 } else d

/-- The loop of `timegm` over the months. -/
def mdayLoop : ℕ → Tm → Option Tm
  | 0, _ => none
  | n + 1, d => do
    let next ← spm (1 + d.tmMon)
    if d.tmMday > next then
      let days ← spm d.tmMon
      let leap : ℤ := if d.tmMon = 1 ∧ isLeap (intValue (d.tmYear + 1900)) = true then 1 else 0
      let d := { d with tmMday := d.tmMday - leap - days, tmMon := d.tmMon + 1 }
      mdayLoop n (if d.tmMon > 11 then { d with tmMon := 0, tmYear := intValue (d.tmYear + 1) } else d)
    else some d

/-- What `timegm` takes from the days of the years after 2100. -/
def centuries (years : ℤ) : ℤ :=
  if years ≥ 131 then
    let c := (years - 131).tdiv 100
    c / 4 * 3 + 1 + (if c % 4 = 3 then c % 4 - 1 else c % 4)
  else 0

/-- `timegm`, with the fields that it leaves. There is no result when `__spm` is read outside or the loop does
not end. -/
def timegm (d : Tm) : Option (ℤ × Tm) :=
  let years := d.tmYear - 70
  (mdayLoop (2 * d.carry.tmMday.toNat + 2) d.carry).bind fun d =>
    if d.tmYear < 70 then some (-1, d)
    else (spm d.tmMon).map fun s =>
      let leap : ℤ := if isLeap (intValue (d.tmYear + 1900)) = true ∧ d.tmMon > 1 then 1 else 0
      let yday := s + d.tmMday - 1 + leap
      let day := years * 365 + (years + 1).tdiv 4 - centuries years + yday
      (((day * 24 + d.tmHour) * 60 + d.tmMin) * 60 + d.tmSec,
        { d with tmYday := yday, tmWday := (day + 4).tmod 7 })

/-! ## The calendar -/

/-- The days before the year `1970 + n`. -/
def yearDays : ℕ → ℤ
  | 0 => 0
  | n + 1 => yearDays n + yearLen (1970 + n)

/-- The days of a month. -/
def monthLen (leap : Bool) (mon : ℕ) : ℤ :=
  [31, if leap then 29 else 28, 31, 30, 31, 30, 31, 31, 30, 31, 30, 31].getD mon 0

/-- The days before a month of its year. -/
def monthStart (leap : Bool) (mon : ℕ) : ℤ := ((List.range mon).map (monthLen leap)).sum

namespace Tm

variable (d : Tm)

/-- The year is a leap year. -/
def leap : Bool := isLeap (d.tmYear + 1900)

/-- The day of the year of a date. -/
def dayOfYear : ℤ := monthStart d.leap d.tmMon.toNat + d.tmMday - 1

/-- The days since 1970. -/
def dayNumber : ℤ := yearDays (d.tmYear - 70).toNat + d.dayOfYear

/-- The seconds since 1970. -/
def instant : ℤ := ((d.dayNumber * 24 + d.tmHour) * 60 + d.tmMin) * 60 + d.tmSec

/-- A date from 1970 on, with a time of the day. -/
structure Valid (d : Tm) : Prop where
  sec : 0 ≤ d.tmSec ∧ d.tmSec < 60
  min : 0 ≤ d.tmMin ∧ d.tmMin < 60
  hour : 0 ≤ d.tmHour ∧ d.tmHour < 24
  mon : 0 ≤ d.tmMon ∧ d.tmMon < 12
  mday : 1 ≤ d.tmMday ∧ d.tmMday ≤ monthLen d.leap d.tmMon.toNat
  year : 70 ≤ d.tmYear ∧ d.tmYear < 2147483648

end Tm

/-! ## The years -/

theorem yearLen_pos (year : ℤ) : 365 ≤ yearLen year ∧ yearLen year ≤ 366 := by
  unfold yearLen
  split_ifs <;> decide

theorem yearLen_eq (year : ℤ) : yearLen year =
    if year % 4 = 0 ∧ (year % 100 ≠ 0 ∨ year % 400 = 0) then 366 else 365 := by
  unfold yearLen isLeap
  simp only [decide_eq_true_eq]

/-- **The closed formula**, with the leap years of the Gregorian calendar. -/
theorem yearDays_eq (n : ℕ) : yearDays n =
    n * 365 + (n + 1) / 4 - ((n + 69) / 100 - (n + 369) / 400) := by
  induction n with
  | zero => rfl
  | succ n ih =>
    rw [yearDays, ih, yearLen_eq]
    push_cast
    have h4 : ((n : ℤ) + 1 + 1) / 4 = (n + 1) / 4 + if (1970 + (n : ℤ)) % 4 = 0 then 1 else 0 := by
      split_ifs <;> omega
    have h100 : ((n : ℤ) + 1 + 69) / 100 = (n + 69) / 100 + if (1970 + (n : ℤ)) % 100 = 0 then 1 else 0 := by
      split_ifs <;> omega
    have h400 : ((n : ℤ) + 1 + 369) / 400 = (n + 369) / 400 + if (1970 + (n : ℤ)) % 400 = 0 then 1 else 0 := by
      split_ifs <;> omega
    rw [h4, h100, h400]
    split_ifs <;> omega

/-- What is taken for the centuries is that of the formula. -/
theorem centuries_eq (n : ℕ) : centuries n = ((n : ℤ) + 69) / 100 - (n + 369) / 400 := by
  unfold centuries
  by_cases hn : (n : ℤ) ≥ 131
  · rw [if_pos hn, Int.tdiv_eq_ediv_of_nonneg (by omega)]
    dsimp only
    obtain ⟨c, hc⟩ : ∃ c, c = ((n : ℤ) - 131) / 100 := ⟨_, rfl⟩
    have h100 : ((n : ℤ) + 69) / 100 = c + 2 := by omega
    have h400 : ((n : ℤ) + 369) / 400 = (c + 5) / 4 := by omega
    rw [← hc, h100, h400]
    split_ifs <;> omega
  · rw [if_neg hn]
    omega

theorem yearDays_add (n m : ℕ) : yearDays n + 365 * m ≤ yearDays (n + m) := by
  induction m with
  | zero => simp
  | succ m ih =>
    have hlen := (yearLen_pos (1970 + ((n + m : ℕ) : ℤ))).1
    rw [← Nat.add_assoc, yearDays]
    push_cast at hlen ⊢
    omega

/-- **The loop over the years** ends in the year of a day. -/
theorem yearLoop_years {r : ℤ} {m j fuel : ℕ} (hr : 0 ≤ r) (hlen : r < yearLen (1970 + (j + m : ℕ)))
    (hfuel : m < fuel) :
    yearLoop fuel (1970 + j) (yearDays (j + m) - yearDays j + r) = some ((1970 + (j + m : ℕ) : ℤ), r) := by
  induction m generalizing j fuel with
  | zero =>
    obtain ⟨fuel, rfl⟩ : ∃ i, fuel = i + 1 := ⟨fuel - 1, by omega⟩
    simp only [Nat.add_zero, Int.sub_self, Int.zero_add] at hlen ⊢
    rw [yearLoop, if_neg (by omega)]
  | succ m ih =>
    obtain ⟨fuel, rfl⟩ : ∃ i, fuel = i + 1 := ⟨fuel - 1, by omega⟩
    have hle := yearDays_add (j + 1) m
    have hj : yearDays (j + 1) = yearDays j + yearLen (1970 + j) := rfl
    have he : j + (m + 1) = j + 1 + m := by omega
    rw [he] at hlen ⊢
    rw [yearLoop, if_pos (by omega)]
    have hstep := ih hlen (Nat.lt_of_succ_lt_succ hfuel)
    rw [hj] at hstep
    rw [← hstep]
    congr 1
    all_goals omega

/-- Every day is in a year. -/
theorem exists_year (day : ℕ) : ∃ (n : ℕ) (r : ℤ), (day : ℤ) = yearDays n + r ∧ 0 ≤ r ∧
    r < yearLen (1970 + n) := by
  induction day with
  | zero => exact ⟨0, 0, rfl, le_rfl, by decide⟩
  | succ day ih =>
    obtain ⟨n, r, hday, hr, hlen⟩ := ih
    by_cases hlast : r + 1 < yearLen (1970 + n)
    · exact ⟨n, r + 1, by push_cast; omega, by omega, hlast⟩
    · refine ⟨n + 1, 0, ?_, le_rfl, by have := (yearLen_pos (1970 + (n + 1 : ℕ))).1; omega⟩
      rw [yearDays]
      push_cast
      omega

/-! ## The months -/

theorem monthStart_eq (leap : Bool) (mon : Fin 12) : monthStart leap mon =
    spmTable.getD mon 0 + if leap = true ∧ (mon : ℤ) > 1 then 1 else 0 := by
  revert leap mon
  decide

/-- **The day of the year has a month.** -/
theorem monthDay_spec : ∀ (leap : Bool) (yday : Fin 366), (yday : ℤ) < (if leap then 366 else 365) →
    (monthDay leap yday).1 < 12 ∧ 1 ≤ (monthDay leap yday).2 ∧
      (monthDay leap yday).2 ≤ monthLen leap (monthDay leap yday).1 ∧
      monthStart leap (monthDay leap yday).1 + (monthDay leap yday).2 - 1 = yday := by
  decide +kernel

/-- **A date of a month is found again.** -/
theorem monthDay_monthStart : ∀ (leap : Bool) (mon : Fin 12) (mday : Fin 31),
    (mday : ℤ) < monthLen leap mon → monthDay leap (monthStart leap mon + mday) = (mon.1, (mday : ℤ) + 1) := by
  decide +kernel

/-! ## A date is an instant -/

theorem intValue_eq {x : ℤ} (hlo : -2147483648 ≤ x) (hhi : x < 2147483648) : intValue x = x := by
  unfold intValue
  omega

theorem monthLen_le (leap : Bool) (mon : Fin 12) : monthLen leap mon ≤ spmTable.getD (1 + mon) 0 := by
  revert leap mon
  decide

theorem spm_eq (i : Fin 13) : spm i = some (spmTable.getD i 0) := by
  revert i
  decide

namespace Tm

/-- What `gmtime_r` gives: a time of the day, and a day of a month that need not be positive. -/
structure Dated (d : Tm) : Prop where
  sec : d.tmSec ≤ 60
  min : d.tmMin < 60
  hour : d.tmHour < 24
  mon : ∃ mon : Fin 12, d.tmMon = mon
  mday : d.tmMday ≤ monthLen d.leap d.tmMon.toNat
  year : 70 ≤ d.tmYear ∧ d.tmYear + 1900 < 2147483648

end Tm

/-- **`timegm` of a date** is its instant, and the day of the week and of the year are stored. -/
theorem timegm_dated {d : Tm} (hd : d.Dated) : timegm d = some (d.instant,
    { d with tmYday := d.dayOfYear, tmWday := (d.dayNumber + 4).tmod 7 }) := by
  obtain ⟨hsec, hmin, hhour, ⟨mon, hmon⟩, hmday, hyear⟩ := hd
  have hm := mon.2
  have hnat : d.tmMon.toNat = mon := by omega
  have hcarry : d.carry = d := by
    have hs : ¬ d.tmSec > 60 := by omega
    have hmi : ¬ d.tmMin ≥ 60 := by omega
    have hh : ¬ d.tmHour ≥ 24 := by omega
    have hmo : ¬ d.tmMon ≥ 12 := by omega
    simp only [Tm.carry, if_neg hs, if_neg hmi, if_neg hh, if_neg hmo]
  have hle := monthLen_le d.leap mon
  have hnext : spm (1 + d.tmMon) = some (spmTable.getD (1 + mon) 0) := by
    rw [← spm_eq ⟨1 + mon, by omega⟩, hmon]
    rfl
  have hloop : mdayLoop (2 * d.carry.tmMday.toNat + 2) d.carry = some d := by
    rw [hcarry, mdayLoop, hnext]
    show (if d.tmMday > _ then _ else _) = _
    rw [if_neg (by rw [hnat] at hmday; omega)]
  have hn : ((d.tmYear - 70).toNat : ℤ) = d.tmYear - 70 := by omega
  have hleap : isLeap (intValue (d.tmYear + 1900)) = d.leap := by
    rw [intValue_eq (by omega) hyear.2]
    rfl
  have hyday : spmTable.getD mon 0 + d.tmMday - 1 + (if d.leap = true ∧ d.tmMon > 1 then 1 else 0) =
      d.dayOfYear := by
    rw [Tm.dayOfYear, hnat, monthStart_eq, hmon]
    omega
  have hday : (d.tmYear - 70) * 365 + (d.tmYear - 70 + 1).tdiv 4 - centuries (d.tmYear - 70) + d.dayOfYear =
      d.dayNumber := by
    rw [Tm.dayNumber, yearDays_eq, ← centuries_eq, hn, Int.tdiv_eq_ediv_of_nonneg (by omega)]
  unfold timegm
  rw [hloop]
  show (if d.tmYear < 70 then _ else _) = _
  have hspm : spm d.tmMon = some (spmTable.getD mon 0) := by
    rw [hmon]
    exact spm_eq ⟨mon, by omega⟩
  rw [if_neg (by omega), hspm, Option.map_some]
  dsimp only
  rw [hleap, hyday, hday]
  rfl

/-! ## An instant is a date -/

theorem monthDay_neg {yday : ℤ} (hneg : yday < 0) : monthDay false yday = (0, 1 + yday) := by
  have hloop : ∀ i : Fin 12, monthLoop yday i = 0 := by
    have htable : ∀ i : Fin 12, 0 ≤ spmTable.getD (i + 1) 0 := by decide
    intro i
    obtain ⟨i, hi⟩ := i
    induction i with
    | zero => rfl
    | succ i ih =>
      have := htable ⟨i, by omega⟩
      show (if spmTable.getD (i + 1) 0 > yday then monthLoop yday i else i + 1) = 0
      rw [if_pos (lt_of_lt_of_le hneg this)]
      exact ih (by omega)
  have h11 : monthLoop yday 11 = 0 := hloop ⟨11, by decide⟩
  show (monthLoop yday 11, 1 + (yday - spmTable.getD (monthLoop yday 11) 0)) = _
  rw [h11, show spmTable.getD 0 0 = (0 : ℤ) from rfl, Int.sub_zero]

/-- The years that the loop of `gmtime_r` counts. -/
theorem gmtimeR_years {t r : ℤ} {n : ℕ} (hday : intValue (t.tdiv 86400) = yearDays n + r) (hr : 0 ≤ r)
    (hlen : r < yearLen (1970 + n)) : gmtimeR t = some (gmtimeFields t (yearDays n + r) (1970 + n, r)) := by
  have hle : yearDays 0 + 365 * n ≤ yearDays (0 + n) := yearDays_add 0 n
  rw [Nat.zero_add, show yearDays 0 = 0 from rfl] at hle
  have hloop := yearLoop_years (j := 0) hr (by rw [Nat.zero_add]; exact hlen)
    (show n < (yearDays n + r).toNat + 1 by omega)
  rw [Nat.zero_add, show yearDays 0 = 0 from rfl, Int.sub_zero] at hloop
  show (yearLoop ((intValue (t.tdiv 86400)).toNat + 1) 1970 (intValue (t.tdiv 86400))).map
    (gmtimeFields t (intValue (t.tdiv 86400))) = _
  rw [hday]
  exact congrArg (Option.map _) hloop

/-- The time of the day, before the year is known. -/
theorem gmtimeFields_time {t : ℤ} (ht : 0 ≤ t) (day : ℤ) (r : ℤ × ℤ) :
    let g := gmtimeFields t day r
    g.tmSec < 60 ∧ g.tmMin < 60 ∧ g.tmHour < 24 ∧ (g.tmHour * 60 + g.tmMin) * 60 + g.tmSec = t % 86400 := by
  have hwork : t.tmod (24 * 60 * 60) = t % 86400 := Int.tmod_eq_emod_of_nonneg ht
  have hnonneg : 0 ≤ t % 86400 := by omega
  simp only [gmtimeFields, hwork, Int.tmod_eq_emod_of_nonneg hnonneg, Int.tdiv_eq_ediv_of_nonneg hnonneg,
    Int.tmod_eq_emod_of_nonneg (show 0 ≤ t % 86400 / 60 by omega),
    Int.tdiv_eq_ediv_of_nonneg (show 0 ≤ t % 86400 / 60 by omega)]
  omega

/-- The month and the day, of a day of a year. -/
theorem gmtimeFields_date (t day : ℤ) {r : ℤ} {n : ℕ} (hr : 0 ≤ r) (hlen : r < yearLen (1970 + n)) :
    let g := gmtimeFields t day (1970 + n, r)
    (∃ mon : Fin 12, g.tmMon = mon) ∧ g.tmMday ≤ monthLen g.leap g.tmMon.toNat ∧
      g.dayNumber = yearDays n + r := by
  intro g
  have hg : g.leap = isLeap (1970 + n) := congrArg isLeap (show 1970 + (n : ℤ) - 1900 + 1900 = _ by omega)
  have hn : (g.tmYear - 70).toNat = n := by
    show (1970 + (n : ℤ) - 1900 - 70).toNat = n
    omega
  have hlt := (yearLen_pos (1970 + n)).2
  obtain ⟨yday, rfl⟩ : ∃ yday : Fin 366, r = (yday : ℤ) := ⟨⟨r.toNat, by omega⟩, by simp [hr]⟩
  obtain ⟨hmon, -, hmday, hsum⟩ := monthDay_spec (isLeap (1970 + n)) yday hlen
  refine ⟨⟨⟨_, hmon⟩, rfl⟩, ?_, ?_⟩
  · rw [hg]
    exact hmday
  · unfold Tm.dayNumber Tm.dayOfYear
    rw [hn, hg]
    exact congrArg _ hsum

/-- **`gmtime_r` gives a date** of the day that the `int` holds. -/
theorem gmtimeR_dated (t : ℤ) : ∃ g, gmtimeR t = some g ∧ g.dayNumber = intValue (t.tdiv 86400) ∧
    g.tmWday = (intValue (4 + g.dayNumber)).tmod 7 ∧
    (0 ≤ t → g.Dated ∧ (g.tmHour * 60 + g.tmMin) * 60 + g.tmSec = t % 86400) := by
  obtain ⟨day, hday⟩ : ∃ day, day = intValue (t.tdiv 86400) := ⟨_, rfl⟩
  have hbound : day < 2147483648 := by
    rw [hday]
    unfold intValue
    omega
  by_cases hneg : day < 0
  · have hmd := monthDay_neg hneg
    have hget : gmtimeR t = some (gmtimeFields t day (1970, day)) := by
      show (yearLoop ((intValue (t.tdiv 86400)).toNat + 1) 1970 (intValue (t.tdiv 86400))).map
        (gmtimeFields t (intValue (t.tdiv 86400))) = _
      have hlen := (yearLen_pos 1970).1
      rw [← hday, yearLoop, if_neg (by omega)]
      rfl
    have hmon : (gmtimeFields t day (1970, day)).tmMon = ((0 : Fin 12) : ℤ) := by
      show ((monthDay false day).1 : ℤ) = _
      rw [hmd]
      rfl
    have hmday : (gmtimeFields t day (1970, day)).tmMday = 1 + day := congrArg Prod.snd hmd
    have hnum : (gmtimeFields t day (1970, day)).dayNumber = day := by
      unfold Tm.dayNumber Tm.dayOfYear
      rw [hmon, hmday]
      show (0 : ℤ) + (0 + (1 + day) - 1) = day
      omega
    refine ⟨_, hget, hnum.trans hday, by rw [hnum]; rfl, fun ht ↦ ?_⟩
    obtain ⟨hsec, hmin, hhour, htime⟩ := gmtimeFields_time ht day (1970, day)
    refine ⟨⟨by omega, hmin, hhour, ⟨0, hmon⟩, ?_, ?_⟩, htime⟩
    · rw [hmday, hmon]
      show 1 + day ≤ 31
      omega
    · show (70 : ℤ) ≤ 1970 - 1900 ∧ (1970 : ℤ) - 1900 + 1900 < 2147483648
      decide
  · obtain ⟨n, r, hnr, hr, hlen⟩ := exists_year day.toNat
    have hnr' : day = yearDays n + r := by omega
    have hle : yearDays 0 + 365 * n ≤ yearDays (0 + n) := yearDays_add 0 n
    rw [Nat.zero_add, show yearDays 0 = 0 from rfl] at hle
    obtain ⟨hmon, hmday, hnum⟩ := gmtimeFields_date t (yearDays n + r) hr hlen
    refine ⟨_, gmtimeR_years (hday.symm.trans hnr') hr hlen, by omega, by rw [hnum]; rfl, fun ht ↦ ?_⟩
    obtain ⟨hsec, hmin, hhour, htime⟩ := gmtimeFields_time ht (yearDays n + r) (1970 + n, r)
    refine ⟨⟨by omega, hmin, hhour, hmon, hmday, ?_⟩, htime⟩
    show 70 ≤ 1970 + (n : ℤ) - 1900 ∧ 1970 + (n : ℤ) - 1900 + 1900 < 2147483648
    omega

/-! ## The round trips -/

/-- A date with its day of the week, counted from the first of January 1970, a Thursday, and its day of the
year. -/
def Tm.dated (d : Tm) : Tm := { d with tmWday := (d.dayNumber + 4) % 7, tmYday := d.dayOfYear }

theorem monthStart_add : ∀ (leap : Bool) (mon : Fin 12), 0 ≤ monthStart leap mon ∧
    monthStart leap mon + monthLen leap mon ≤ (if leap then 366 else 365) ∧ monthLen leap mon ≤ 31 := by
  decide

/-- `gmtime_r` of the instant of a date. -/
theorem gmtimeR_instant {d : Tm} (hd : d.Valid) (hnum : d.dayNumber + 4 < 2147483648) :
    d.Dated ∧ 0 ≤ d.dayNumber ∧ gmtimeR d.instant = some { d.dated with tmIsdst := 0 } := by
  obtain ⟨hsec, hmin, hhour, hmon, hmday, hyear⟩ := hd
  obtain ⟨mon, hm⟩ : ∃ mon : Fin 12, d.tmMon.toNat = mon := ⟨⟨d.tmMon.toNat, by omega⟩, rfl⟩
  obtain ⟨n, hn⟩ : ∃ n, n = (d.tmYear - 70).toNat := ⟨_, rfl⟩
  obtain ⟨hstart, hsum, h31⟩ := monthStart_add d.leap mon
  have hle : yearDays 0 + 365 * n ≤ yearDays (0 + n) := yearDays_add 0 n
  rw [Nat.zero_add, show yearDays 0 = 0 from rfl] at hle
  rw [hm] at hmday
  have hyday : d.dayOfYear = monthStart d.leap mon + d.tmMday - 1 := by rw [Tm.dayOfYear, hm]
  have hday : d.dayNumber = yearDays n + d.dayOfYear := by rw [Tm.dayNumber, hn]
  have hleap : isLeap (1970 + n) = d.leap := congrArg isLeap (by omega)
  have hlen : d.dayOfYear < yearLen (1970 + n) := by
    rw [yearLen, hleap]
    omega
  have hinstant : d.instant = d.dayNumber * 86400 + ((d.tmHour * 60 + d.tmMin) * 60 + d.tmSec) := by
    unfold Tm.instant
    omega
  have hint : intValue (d.instant.tdiv 86400) = yearDays n + d.dayOfYear := by
    rw [Int.tdiv_eq_ediv_of_nonneg (by omega), intValue_eq (by omega) (by omega)]
    omega
  have hmd : monthDay d.leap d.dayOfYear = (mon.1, d.tmMday) := by
    have hfound := monthDay_monthStart d.leap mon ⟨(d.tmMday - 1).toNat, by omega⟩ (by dsimp only; omega)
    have hcast : (((d.tmMday - 1).toNat : ℕ) : ℤ) = d.tmMday - 1 := by omega
    rw [hcast] at hfound
    rw [hyday, Int.add_sub_assoc, hfound, Int.sub_add_cancel]
  refine ⟨⟨by omega, hmin.2, hhour.2, ⟨mon, by omega⟩, by rw [hm]; exact hmday.2, by omega⟩, by omega, ?_⟩
  rw [gmtimeR_years hint (by omega) hlen]
  have hmod : d.instant.tmod (24 * 60 * 60) = (d.tmHour * 60 + d.tmMin) * 60 + d.tmSec := by
    rw [Int.tmod_eq_emod_of_nonneg (by omega)]
    omega
  simp only [gmtimeFields, Tm.dated, hmod, hleap, hmd, ← hday, Option.some.injEq, Tm.mk.injEq]
  have hwday : intValue (4 + d.dayNumber) = 4 + d.dayNumber := intValue_eq (by omega) (by omega)
  rw [hwday, Int.tdiv_eq_ediv_of_nonneg (by omega), Int.tdiv_eq_ediv_of_nonneg (by omega),
    Int.tmod_eq_emod_of_nonneg (by omega), Int.tmod_eq_emod_of_nonneg (by omega),
    Int.tmod_eq_emod_of_nonneg (by omega)]
  refine ⟨?_, ?_, ?_, trivial, ?_, ?_, ?_, trivial, trivial⟩ <;> omega

/-- **The calendar's round trips**: an instant comes back from its date when its days are an `int`, and a date
from its instant when four days more are. -/
theorem calendar_round_trip {t : ℤ} (ht : 0 ≤ t) {d : Tm} (hd : d.Valid) :
    ((∃ g d, gmtimeR t = some g ∧ timegm g = some (t, d)) ↔ t / 86400 < 2147483648) ∧
    ((∃ t, timegm d = some (t, d.dated) ∧ gmtimeR t = some { d.dated with tmIsdst := 0 }) ↔
      d.dayNumber + 4 < 2147483648) := by
  refine ⟨?_, ?_, fun hnum ↦ ?_⟩
  · obtain ⟨g, hg, hnum, -, hdated⟩ := gmtimeR_dated t
    obtain ⟨hd, htime⟩ := hdated ht
    have hinstant : g.instant = intValue (t / 86400) * 86400 + t % 86400 := by
      rw [Tm.instant, hnum, Int.tdiv_eq_ediv_of_nonneg ht]
      omega
    constructor
    · rintro ⟨g', d, hg', hback⟩
      obtain rfl : g = g' := Option.some.inj (hg.symm.trans hg')
      have heq : g.instant = t := congrArg Prod.fst (Option.some.inj ((timegm_dated hd).symm.trans hback))
      have hint : intValue (t / 86400) = t / 86400 := by omega
      rw [← hint]
      unfold intValue
      omega
    · intro hlt
      rw [intValue_eq (by omega) hlt] at hinstant
      refine ⟨g, _, hg, (timegm_dated hd).trans (congrArg some (Prod.ext ?_ rfl))⟩
      show g.instant = t
      omega
  · rintro ⟨t, -, hback⟩
    obtain ⟨g, hg, hnum, hwday, -⟩ := gmtimeR_dated t
    obtain rfl : { d.dated with tmIsdst := 0 } = g := Option.some.inj (hback.symm.trans hg)
    have hday : d.dayNumber = intValue (t.tdiv 86400) := hnum
    have hw : (d.dayNumber + 4) % 7 = (intValue (4 + d.dayNumber)).tmod 7 := hwday
    have hbound : d.dayNumber < 2147483648 := by
      rw [hday]
      unfold intValue
      omega
    by_contra hover
    -- The four last days of an `int`, where the sum for the day of the week has wrapped.
    have hfour : d.dayNumber = 2147483644 ∨ d.dayNumber = 2147483645 ∨ d.dayNumber = 2147483646 ∨
        d.dayNumber = 2147483647 := by omega
    obtain h | h | h | h := hfour <;> rw [h] at hw <;> exact absurd hw (by decide)
  · obtain ⟨hdated, hnonneg, hback⟩ := gmtimeR_instant hd hnum
    refine ⟨d.instant, (timegm_dated hdated).trans ?_, hback⟩
    rw [Int.tmod_eq_emod_of_nonneg (by omega)]
    rfl

/-- The first instant whose days are no `int`: the year is 5881580, and `gmtime_r` gives the year 1970. -/
theorem calendar_wraps : (185542587187200 : ℤ) / 86400 = yearDays 5879610 + 193 ∧
    193 < yearLen (1970 + 5879610) ∧
    ¬ ∃ g d, gmtimeR 185542587187200 = some g ∧ timegm g = some (185542587187200, d) := by
  refine ⟨by rw [yearDays_eq]; decide, by decide, ?_⟩
  rintro ⟨g, d, hg, hback⟩
  have hfields : gmtimeR 185542587187200 = some ⟨0, 0, 0, -2147483647, 0, 70, -5, -2147483648, 0⟩ := by decide
  obtain rfl := Option.some.inj (hfields.symm.trans hg)
  have hneg : (timegm ⟨0, 0, 0, -2147483647, 0, 70, -5, -2147483648, 0⟩).map Prod.fst =
      some (-185542587187200) := by decide
  rw [hback] at hneg
  have heq : (185542587187200 : ℤ) = -185542587187200 := Option.some.inj hneg
  exact absurd heq (by decide)

/-- The first instant and its date. -/
theorem calendar_epoch : (∃ g d, gmtimeR 0 = some g ∧ timegm g = some (0, d)) ∧
    ∃ t, timegm ⟨0, 0, 0, 1, 0, 70, 0, 0, 0⟩ = some (t, Tm.dated ⟨0, 0, 0, 1, 0, 70, 0, 0, 0⟩) ∧
      gmtimeR t = some { Tm.dated ⟨0, 0, 0, 1, 0, 70, 0, 0, 0⟩ with tmIsdst := 0 } := by
  obtain ⟨hinstant, hdate⟩ := calendar_round_trip (t := 0) (d := ⟨0, 0, 0, 1, 0, 70, 0, 0, 0⟩) (by decide)
    ⟨by decide, by decide, by decide, by decide, by decide, by decide⟩
  exact ⟨hinstant.2 (by decide), hdate.2 (by decide)⟩

end RtThread.Ctime
