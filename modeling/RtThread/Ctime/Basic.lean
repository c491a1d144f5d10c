import Mathlib.Data.Int.Notation
import Mathlib.Data.Nat.Notation
import Mathlib.Tactic.IntervalCases

/-!
# Broken-down time: `gmtime_r` and `timegm`

The light C library of `components/libc/compilers/common/ctime.c`. An `int` is a signed 32-bit word
and a `time_t` a signed 64-bit one. A signed sum that does not fit an `int` has no defined value, so
a function whose run reaches one returns `none`; the cast `(int)` of a `time_t` keeps the low 32 bits.
No `time_t` below can overflow: every second count is smaller than `2 ^ 57`.
-/

namespace RtThread.Ctime

/-- The values of an `int`. -/
def IsInt (x : ℤ) : Prop := -2 ^ 31 ≤ x ∧ x < 2 ^ 31

instance (x : ℤ) : Decidable (IsInt x) := inferInstanceAs (Decidable (_ ∧ _))

/-- The value of a signed `int` expression whose exact value is `x`. -/
def int (x : ℤ) : Option ℤ := if IsInt x then some x else none

/-- The conversion `(int)` of a `time_t`. -/
def toInt (x : ℤ) : ℤ := (x + 2 ^ 31) % 2 ^ 32 - 2 ^ 31

/-- `struct tm`. -/
structure Tm where
  tmSec : ℤ
  tmMin : ℤ
  tmHour : ℤ
  tmMday : ℤ
  tmMon : ℤ
  tmYear : ℤ
  tmWday : ℤ
  tmYday : ℤ
  tmIsdst : ℤ
deriving DecidableEq

/-- `__spm`: the days before each month of a year that is not a leap year. -/
def spm (i : ℕ) : ℤ := [0, 31, 59, 90, 120, 151, 181, 212, 243, 273, 304, 334, 365].getD i 365

/-- Past the last month the table is not read; the model continues its last entry. -/
theorem spm_of_gt {i : ℕ} (hi : 12 < i) : spm i = 365 := by
  simp only [spm, List.getD_eq_getElem?_getD]
  rw [List.getElem?_eq_none (by simp; omega)]
  rfl

/-- Every month but January has days before it. -/
theorem spm_pos {i : ℕ} (hi : 0 < i) : 31 ≤ spm i := by
  by_cases hsmall : i ≤ 12
  · interval_cases i <;> decide
  · rw [spm_of_gt (by omega)]
    decide

/-- `__isleap`. -/
def isleap (year : ℤ) : Bool :=
  year.tmod 4 == 0 && (year.tmod 100 != 0 || year.tmod 400 == 0)

/-- The days `k` of year `i` in the loop of `gmtime_r`. -/
def daysOfYear (i : ℤ) : ℤ := if isleap i then 366 else 365

/-- Every year takes days away. -/
theorem daysOfYear_pos (i : ℤ) : 0 < daysOfYear i := by
  unfold daysOfYear
  split <;> decide

/-- The loop of `gmtime_r` over the years: the year reached and the day of that year. -/
def yearLoop (i work : ℤ) : ℤ × ℤ :=
  if work ≥ daysOfYear i then yearLoop (i + 1) (work - daysOfYear i) else (i, work)
termination_by work.toNat
decreasing_by
  have hpos := daysOfYear_pos i
  omega

/-- The search of `gmtime_r` for the month, from `i` down to January. -/
def monthLoop (work : ℤ) : ℕ → ℕ
  | 0 => 0
  | i + 1 => if spm (i + 1) > work then monthLoop work i else i + 1

/-- The month and the day of the month that `gmtime_r` finds for a day of the year. -/
def monthAndDay (leap : Bool) (yday : ℤ) : ℕ × ℤ :=
  -- in a leap year 29 February is looked up as 28 February, and later days one day earlier
  let mday := if leap ∧ yday > 58 ∧ yday = 59 then 2 else 1
  let work := if leap ∧ yday > 58 then yday - 1 else yday
  let mon := monthLoop work 11
  (mon, mday + (work - spm mon))

/-- `gmtime_r`. -/
def gmtimeR (timep : ℤ) : Option Tm := do
  let seconds := timep.tmod 86400
  let minutes := seconds.tdiv 60
  let work := toInt (timep.tdiv 86400)
  let weekday ← int (4 + work)
  let (i, yday) := yearLoop 1970 work
  let (mon, mday) := monthAndDay (isleap i) yday
  return { tmSec := seconds.tmod 60, tmMin := minutes.tmod 60, tmHour := minutes.tdiv 60,
           tmMday := mday, tmMon := mon, tmYear := i - 1900, tmWday := weekday.tmod 7,
           tmYday := yday, tmIsdst := 0 }

/-- One carry of `timegm`: when `exceeds` holds, the units of `base` in `low` move to `high`. -/
def carry (exceeds : Bool) (base low high : ℤ) : Option (ℤ × ℤ) :=
  if exceeds then (int (high + low.tdiv base)).map fun sum => (low.tmod base, sum)
  else some (low, high)

/-- The test `t->tm_mon == 1 && __isleap(t->tm_year + 1900)`. -/
def leapFebruary (year : ℤ) (mon : ℕ) : Option Bool :=
  if mon = 1 then (int (year + 1900)).map isleap else some false

/-- The loop of `timegm` that moves days into months; it returns the year, the month and the day. -/
def mdayLoop (year : ℤ) (mon : ℕ) (mday : ℤ) : Option (ℤ × ℕ × ℤ) :=
  if mday > spm (1 + mon) then
    match leapFebruary year mon with
    | none => none
    | some leap =>
      let rest := (if leap then mday - 1 else mday) - spm mon
      if mon + 1 > 11 then
        match int (year + 1) with
        | none => none
        | some next => mdayLoop next 0 rest
      else mdayLoop year (mon + 1) rest
  else some (year, mon, mday)
termination_by (mday.toNat, if mon = 0 then 1 else 0)
decreasing_by
  · have hpos := spm_pos (show 0 < mon by omega)
    have hnext := spm_pos (Nat.add_pos_left Nat.one_pos mon)
    refine Prod.Lex.left _ _ ?_
    split <;> omega
  · have hnext := spm_pos (Nat.add_pos_left Nat.one_pos mon)
    -- January takes no days away, but the next month does
    by_cases hjan : mon = 0
    · subst hjan
      cases leap
      · simpa [rest, spm] using Prod.Lex.right _ Nat.zero_lt_one
      · refine Prod.Lex.left _ _ ?_
        have hzero : spm 0 = 0 := rfl
        simp only [hzero, ↓reduceDIte]
        omega
    · have hpos := spm_pos (Nat.pos_of_ne_zero hjan)
      refine Prod.Lex.left _ _ ?_
      split <;> omega

/-- The days `timegm` counts for the years since 1970. -/
def yearDays (years : ℤ) : ℤ :=
  let day := years * 365 + (years + 1).tdiv 4
  if years ≥ 131 then
    let centuries := (years - 131).tdiv 100
    -- `years >> 2` and `years & 3` on the `time_t` are the floor quotient and remainder by 4
    let day := day - (centuries / 4 * 3 + 1)
    let rest := centuries % 4
    day - (if rest = 3 then rest - 1 else rest)
  else day

/-- `timegm`: the second count, and the fields it writes back. -/
def timegm (t : Tm) : Option (ℤ × Tm) := do
  let years := t.tmYear - 70
  let (sec, min) ← carry (t.tmSec > 60) 60 t.tmSec t.tmMin
  let (min, hour) ← carry (min ≥ 60) 60 min t.tmHour
  let (hour, mday) ← carry (hour ≥ 24) 24 hour t.tmMday
  let (mon, year) ← carry (t.tmMon ≥ 12) 12 t.tmMon t.tmYear
  let (year, mon, mday) ← mdayLoop year mon.toNat mday
  let t := { t with tmSec := sec, tmMin := min, tmHour := hour, tmMday := mday, tmMon := mon,
                    tmYear := year }
  if t.tmYear < 70 then
    return (-1, t)
  let full ← int (year + 1900)
  let yday ← int (spm mon + mday - 1 + if isleap full ∧ mon > 1 then 1 else 0)
  let day := yearDays years + yday
  let t := { t with tmYday := yday, tmWday := (day + 4).tmod 7 }
  return (((day * 24 + hour) * 60 + min) * 60 + sec, t)

end RtThread.Ctime
