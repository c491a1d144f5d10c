import RtThread.Ctime.Basic
import RtThread.Lib.Gregorian

/-!
# Fields of `timegm` beyond their usual range

`timegm` carries seconds, minutes and hours with quotient and remainder, and then moves days into
months in a loop over `__spm`. That table holds the days before each month, not the days in it, so
the loop takes away the wrong number of days; and the years are counted before the months carry.
-/

namespace RtThread.Ctime

open Lib.Gregorian Option

variable {base d high low mday y year : ℤ} {m mon : ℕ} {t : Tm}

/-- The test of the code is the calendar's. -/
theorem isleap_eq (y : ℤ) : isleap y = isLeap y := by
  have hiff : ∀ b : ℤ, y.tmod b = 0 ↔ y % b = 0 := fun b => by
    rw [← Int.dvd_iff_tmod_eq_zero, Int.dvd_iff_emod_eq_zero]
  rw [Bool.eq_iff_iff]
  simp [isleap, isLeap, hiff]

/-- The years counted by the code have the days of the calendar. -/
theorem yearDays_eq {years : ℤ} (h : 0 ≤ years) : yearDays years = daysOfYears 1970 years.toNat := by
  obtain ⟨n, rfl⟩ := Int.eq_ofNat_of_zero_le h
  rw [daysOfYears_eq]
  simp only [yearDays, leapsBefore]
  rw [Int.tdiv_eq_ediv_of_nonneg (by omega)]
  by_cases hlate : (n : ℤ) ≥ 131
  · rw [Int.tdiv_eq_ediv_of_nonneg (by omega)]
    split_ifs <;> omega
  · omega

/-- The table counts the days of at most a year. -/
theorem spm_bounds (i : ℕ) : 0 ≤ spm i ∧ spm i ≤ 365 := by
  by_cases hsmall : i ≤ 12
  · interval_cases i <;> decide
  · rw [spm_of_gt (by omega)]
    decide

/-- The table and the leap day give the days before a month. -/
theorem daysBeforeMonth_eq (y : ℤ) (hm : m < 12) :
    daysBeforeMonth y m = spm m + if isleap y ∧ m > 1 then 1 else 0 := by
  rw [isleap_eq]
  by_cases hleap : isLeap y <;> interval_cases m <;>
    simp [daysBeforeMonth, monthLength, hleap, spm]

/-- The fields a caller may pass: a year from 1970 and fields that are not negative. -/
structure InRange (t : Tm) : Prop where
  sec : 0 ≤ t.tmSec ∧ t.tmSec < 2 ^ 31
  min : 0 ≤ t.tmMin ∧ t.tmMin < 2 ^ 31
  hour : 0 ≤ t.tmHour ∧ t.tmHour < 2 ^ 31
  mday : 1 ≤ t.tmMday ∧ t.tmMday < 2 ^ 31
  mon : 0 ≤ t.tmMon ∧ t.tmMon < 2 ^ 31
  year : 70 ≤ t.tmYear ∧ t.tmYear < 2 ^ 31

/-- The second count: months are carried into years, and days, hours, minutes and seconds are added
to the first instant of the month. -/
def carried (t : Tm) : ℤ :=
  let year := 1900 + t.tmYear + t.tmMon / 12
  (daysOfYears 1970 (year - 1970).toNat + daysBeforeMonth year (t.tmMon % 12).toNat
    + (t.tmMday - 1)) * 86400 + t.tmHour * 3600 + t.tmMin * 60 + t.tmSec

/-- The minutes with those of the seconds; 60 seconds are left as they are. -/
def minCarried (t : Tm) : ℤ := t.tmMin + if t.tmSec > 60 then t.tmSec / 60 else 0

/-- The hours with those of the minutes. -/
def hourCarried (t : Tm) : ℤ := t.tmHour + minCarried t / 60

/-- The day of the month with the days of the hours. -/
def mdayCarried (t : Tm) : ℤ := t.tmMday + hourCarried t / 24

/-- Fields in range carry no negative minutes. -/
theorem InRange.minCarried_nonneg (ht : InRange t) : 0 ≤ minCarried t := by
  have hmin := ht.min
  unfold minCarried
  split <;> omega

/-- Fields in range carry no negative hours. -/
theorem InRange.hourCarried_nonneg (ht : InRange t) : 0 ≤ hourCarried t := by
  have hmin := ht.minCarried_nonneg
  have hhour := ht.hour
  unfold hourCarried
  omega

/-- Fields in range carry to a day from the first on. -/
theorem InRange.one_le_mdayCarried (ht : InRange t) : 1 ≤ mdayCarried t := by
  have hhour := ht.hourCarried_nonneg
  have hmday := ht.mday
  unfold mdayCarried
  omega

/-- The day of the year, from 0, of a day counted from the first of a month. -/
def dayOfYear (year : ℤ) (mon : ℕ) (mday : ℤ) : ℤ :=
  spm mon + mday - 1 + if isleap (year + 1900) ∧ mon > 1 then 1 else 0

/-- An exact value that fits is the value of the expression. -/
theorem int_of_isInt {x : ℤ} (h : IsInt x) : int x = some x := if_pos h

/-- A value that is defined is the exact one. -/
theorem int_eq_some {x v : ℤ} (h : int x = some v) : v = x ∧ IsInt x := by
  unfold int at h
  split at h
  · cases h
    exact ⟨rfl, ‹_›⟩
  · cases h

/-- A carry that is defined moves the whole units. -/
theorem carry_eq_some {exceeds : Bool} {p : ℤ × ℤ} (hlow : 0 ≤ low)
    (h : carry exceeds base low high = some p) :
    p = if exceeds then (low % base, high + low / base) else (low, high) := by
  unfold carry at h
  cases exceeds with
  | false => simpa using h.symm
  | true =>
    obtain ⟨sum, hsum, rfl⟩ := map_eq_some_iff.mp h
    rw [(int_eq_some hsum).1, Int.tdiv_eq_ediv_of_nonneg hlow, Int.tmod_eq_emod_of_nonneg hlow]
    rfl

/-- A carry is defined when the sum fits. -/
theorem carry_of_isInt (exceeds : Bool) (hlow : 0 ≤ low) (hfit : IsInt (high + low / base)) :
    carry exceeds base low high
      = some (if exceeds then (low % base, high + low / base) else (low, high)) := by
  unfold carry
  rw [Int.tdiv_eq_ediv_of_nonneg hlow, Int.tmod_eq_emod_of_nonneg hlow, int_of_isInt hfit]
  cases exceeds <;> rfl

/-- A carry that starts at its base is a quotient and a remainder. -/
theorem carry_ge_eq_some {p : ℤ × ℤ} (hlow : 0 ≤ low)
    (h : carry (low ≥ base) base low high = some p) : p = (low % base, high + low / base) := by
  rw [carry_eq_some hlow h]
  by_cases hover : low ≥ base
  · rw [decide_eq_true hover, if_pos rfl]
  · have hlt : low < base := by omega
    rw [decide_eq_false hover, if_neg Bool.false_ne_true, Int.emod_eq_of_lt hlow hlt,
      Int.ediv_eq_zero_of_lt hlow hlt, Int.add_zero]

/-- A carry that starts at its base is defined when the sum fits. -/
theorem carry_ge_of_isInt (hlow : 0 ≤ low) (hfit : IsInt (high + low / base)) :
    carry (low ≥ base) base low high = some (low % base, high + low / base) := by
  have hdefined := carry_of_isInt (decide (low ≥ base)) hlow hfit
  rw [hdefined, carry_ge_eq_some hlow hdefined]

/-- The loop stops at a day that the table does not exceed. -/
theorem mdayLoop_stop (h : mday ≤ spm (1 + mon)) : mdayLoop year mon mday = some (year, mon, mday) := by
  rw [mdayLoop, if_neg (by omega)]

/-- The test for a leap February when the year fits. -/
theorem leapFebruary_eq (mon : ℕ) (hyear : IsInt (year + 1900)) :
    leapFebruary year mon = some (isleap (year + 1900) && decide (mon = 1)) := by
  unfold leapFebruary
  by_cases hfeb : mon = 1
  · simp [hfeb, int_of_isInt hyear]
  · simp [hfeb]

/-- The days that an iteration leaves. -/
def mdayRest (year : ℤ) (mon : ℕ) (mday : ℤ) : ℤ :=
  (if isleap (year + 1900) && decide (mon = 1) then mday - 1 else mday) - spm mon

/-- An iteration that stays in the year. -/
theorem mdayLoop_next (hmon : mon < 11) (hyear : IsInt (year + 1900)) (h : spm (1 + mon) < mday) :
    mdayLoop year mon mday = mdayLoop year (mon + 1) (mdayRest year mon mday) := by
  rw [mdayLoop, if_pos h, leapFebruary_eq mon hyear]
  dsimp only
  rw [if_neg (by omega)]
  rfl

/-- From February on the table gives less than twice the days of the month before. -/
theorem spm_succ_lt (hpos : 0 < mon) (hmon : mon < 11) : spm (mon + 1) < 2 * spm mon := by
  interval_cases mon <;> decide

/-- What an iteration that stays in the year does to the day of the year. -/
theorem dayOfYear_next (year mday : ℤ) (hmon : mon < 11) :
    dayOfYear year (mon + 1) (mdayRest year mon mday)
      = dayOfYear year mon mday + spm (mon + 1) - 2 * spm mon := by
  unfold dayOfYear mdayRest
  by_cases hleap : isleap (year + 1900) <;> interval_cases mon <;> simp [hleap] <;> omega

/-- The loop never goes back to an earlier year, and it ends in a month of the year. -/
theorem mdayLoop_year_le (hmon : mon ≤ 11)
    (h : mdayLoop year mon mday = some (y, m, d)) : year ≤ y ∧ m ≤ 11 := by
  fun_induction mdayLoop year mon mday with
  | case1 => cases h
  | case2 => cases h
  | case3 year mon mday _ leap _ rest _ next hnext ih =>
    have hy := ih (by omega) h
    rw [(int_eq_some hnext).1] at hy
    omega
  | case4 year mon mday _ leap _ rest hlast ih => exact ih (by omega) h
  | case5 =>
    cases h
    exact ⟨Int.le_refl _, hmon⟩

/-- The loop raises the day of the year only in January, and then by 31; from another month each
iteration lowers it. -/
theorem mdayLoop_dayOfYear (hmon : mon ≤ 11) (hlow : 0 ≤ year) (hfull : y + 1900 < 2 ^ 31)
    (h : mdayLoop year mon mday = some (y, m, d)) :
    dayOfYear y m d ≤ dayOfYear year mon mday + (if mon = 0 then 31 else 0) ∧
      (0 < mon → spm (1 + mon) < mday → dayOfYear y m d < dayOfYear year mon mday) := by
  have hyear : IsInt (year + 1900) := by
    have hle := (mdayLoop_year_le hmon h).1
    unfold IsInt
    omega
  fun_induction mdayLoop year mon mday with
  | case1 => cases h
  | case2 => cases h
  | case3 year mon mday _ leap hleap rest hlast next hnext ih =>
    obtain rfl : mon = 11 := by omega
    obtain rfl : false = leap := by simpa [leapFebruary] using hleap
    obtain ⟨rfl, -⟩ := int_eq_some hnext
    have hrest : rest = mday - 334 := rfl
    have hle := (mdayLoop_year_le (Nat.zero_le 11) h).1
    have hlater := (ih (Nat.zero_le 11) (by omega) h (by unfold IsInt; omega)).1
    have hlt : dayOfYear (year + 1) 0 rest + 31 < dayOfYear year 11 mday := by
      simp only [dayOfYear]
      simp [spm]
      split <;> omega
    exact ⟨by simp; omega, fun _ _ => by omega⟩
  | case4 year mon mday henter leap hleap rest hlast ih =>
    obtain rfl : _ = leap := some.inj ((leapFebruary_eq mon hyear).symm.trans hleap)
    have hrest : rest = mdayRest year mon mday := rfl
    have hstep := dayOfYear_next year mday (show mon < 11 by omega)
    rw [hrest] at ih h
    have hlater := (ih (by omega) hlow h hyear).1
    by_cases hjan : mon = 0
    · subst hjan
      have hone : spm (0 + 1) = 31 := rfl
      have hzero : spm 0 = 0 := rfl
      exact ⟨by omega, fun hpos => absurd hpos (Nat.lt_irrefl 0)⟩
    · have hlt := spm_succ_lt (Nat.pos_of_ne_zero hjan) (show mon < 11 by omega)
      exact ⟨by omega, fun _ _ => by omega⟩
  | case5 year mon mday hstop =>
    cases h
    split <;> omega

/-- The leap day of a year. -/
def leapDay (year : ℤ) : ℤ := if isleap (year + 1900) then 1 else 0

/-- The loop keeps the day of the year exactly if it does not run, or runs three times from January:
then what it adds in January it takes away in February and March. -/
theorem mdayLoop_exact_iff (hmon : mon ≤ 11) (hlow : 0 ≤ year) (hyear : year + 1900 < 2 ^ 31) :
    (∃ y m d, mdayLoop year mon mday = some (y, m, d) ∧ y + 1900 < 2 ^ 31 ∧
        dayOfYear y m d = dayOfYear year mon mday) ↔
      mday ≤ spm (1 + mon) ∨ mon = 0 ∧ 121 + leapDay year < mday ∧ mday ≤ 210 + leapDay year := by
  have hint : IsInt (year + 1900) := by unfold IsInt; omega
  by_cases hstop : mday ≤ spm (1 + mon)
  · exact ⟨fun _ => .inl hstop, fun _ => ⟨year, mon, mday, mdayLoop_stop hstop, hyear, rfl⟩⟩
  by_cases hjan : mon ≠ 0
  · refine ⟨fun hex => ?_, fun h => absurd h (by omega)⟩
    obtain ⟨y, m, d, hloop, hfull, heq⟩ := hex
    have hlt := (mdayLoop_dayOfYear hmon hlow hfull hloop).2 (Nat.pos_of_ne_zero hjan) (by omega)
    omega
  obtain rfl : mon = 0 := by omega
  have hleap : 0 ≤ leapDay year ∧ leapDay year ≤ 1 := by unfold leapDay; split <;> decide
  have hrest0 : mdayRest year 0 mday = mday := by simp [mdayRest, spm]
  have hrest1 : mdayRest year 1 mday = mday - 31 - leapDay year := by
    simp only [mdayRest, leapDay, show spm 1 = 31 from rfl, decide_true, Bool.and_true]
    split <;> omega
  have hrest2 : ∀ x, mdayRest year 2 x = x - 59 := fun x => by simp [mdayRest, spm]
  have hday1 : dayOfYear year 1 mday = dayOfYear year 0 mday + 31 - 2 * 0 := by
    have hnext := dayOfYear_next year mday (show 0 < 11 by decide)
    rw [hrest0] at hnext
    exact hnext
  have hday2 : dayOfYear year 2 (mday - 31 - leapDay year) = dayOfYear year 1 mday + 59 - 2 * 31 :=
    hrest1 ▸ dayOfYear_next year mday (show 1 < 11 by decide)
  have hday3 : ∀ x, dayOfYear year 3 (x - 59) = dayOfYear year 2 x + 90 - 2 * 59 :=
    fun x => hrest2 x ▸ dayOfYear_next year x (show 2 < 11 by decide)
  have hloop1 : mdayLoop year 0 mday = mdayLoop year 1 mday := by
    rw [mdayLoop_next (show 0 < 11 by decide) hint (by omega), hrest0]
  change ¬ mday ≤ 31 at hstop
  change _ ↔ mday ≤ 31 ∨ _
  rw [hloop1]
  -- one iteration leaves the day 31 days late
  by_cases hone : mday ≤ 59
  · rw [mdayLoop_stop hone]
    refine ⟨fun hex => ?_, fun h => absurd h (by omega)⟩
    obtain ⟨y, m, d, hloop, -, heq⟩ := hex
    cases hloop
    omega
  have hloop2 : mdayLoop year 1 mday = mdayLoop year 2 (mday - 31 - leapDay year) := by
    rw [mdayLoop_next (show 1 < 11 by decide) hint (lt_of_not_ge hone), hrest1]
  rw [hloop2]
  -- two iterations leave it 28 days late
  by_cases htwo : mday - 31 - leapDay year ≤ 90
  · rw [mdayLoop_stop htwo]
    refine ⟨fun hex => ?_, fun h => absurd h (by omega)⟩
    obtain ⟨y, m, d, hloop, -, heq⟩ := hex
    cases hloop
    omega
  have hloop3 : mdayLoop year 2 (mday - 31 - leapDay year)
      = mdayLoop year 3 (mday - 31 - leapDay year - 59) := by
    rw [mdayLoop_next (show 2 < 11 by decide) hint (lt_of_not_ge htwo), hrest2]
  rw [hloop3]
  have hback := hday3 (mday - 31 - leapDay year)
  -- three iterations bring it back, and every further one makes it early
  by_cases hthree : mday - 31 - leapDay year - 59 ≤ 120
  · exact ⟨fun _ => .inr ⟨rfl, by omega, by omega⟩,
      fun _ => ⟨year, 3, _, mdayLoop_stop hthree, hyear, by omega⟩⟩
  · refine ⟨fun hex => ?_, fun h => absurd h (by omega)⟩
    obtain ⟨y, m, d, hloop, hfull, heq⟩ := hex
    have hlt := (mdayLoop_dayOfYear (by decide) hlow hfull hloop).2 (by decide) (lt_of_not_ge hthree)
    omega

/-- What `timegm` returns for fields in range, once its loop has ended. -/
theorem timegm_eq_some (ht : InRange t) {v : ℤ} (h : (timegm t).map Prod.fst = some v) : ∃ y m d,
      mdayLoop (t.tmYear + t.tmMon / 12) (t.tmMon % 12).toNat (mdayCarried t) = some (y, m, d) ∧
      y + 1900 < 2 ^ 31 ∧
      v = (yearDays (t.tmYear - 70) + dayOfYear y m d - mdayCarried t + t.tmMday) * 86400
        + t.tmHour * 3600 + t.tmMin * 60 + t.tmSec := by
  obtain ⟨⟨v', t'⟩, htime, rfl⟩ := map_eq_some_iff.mp h
  simp only [timegm, bind_eq_bind, bind_eq_some_iff] at htime
  obtain ⟨⟨sec, min⟩, hsec, ⟨min', hour⟩, hmin, ⟨hour', mday⟩, hhour, ⟨mon, year⟩, hmon, ⟨y, m, d⟩,
    hloop, hret⟩ := htime
  have hsec1 : min = minCarried t ∧ sec + 60 * min = t.tmSec + 60 * t.tmMin := by
    have hpair := carry_eq_some ht.sec.1 hsec
    unfold minCarried
    by_cases hover : t.tmSec > 60 <;> simp [hover] at hpair ⊢ <;> omega
  obtain ⟨rfl, hsec1⟩ := hsec1
  obtain ⟨rfl, rfl⟩ := Prod.mk.inj (carry_ge_eq_some ht.minCarried_nonneg hmin)
  obtain ⟨rfl, rfl⟩ := Prod.mk.inj (carry_ge_eq_some ht.hourCarried_nonneg hhour)
  obtain ⟨rfl, rfl⟩ := Prod.mk.inj (carry_ge_eq_some ht.mon.1 hmon)
  have hyear := ht.year
  have hmon0 := ht.mon
  have hle := (mdayLoop_year_le (by omega) hloop).1
  rw [if_neg (by simp only; omega), bind_eq_some_iff] at hret
  obtain ⟨full, hfull, hret⟩ := hret
  obtain ⟨rfl, hfit⟩ := int_eq_some hfull
  obtain ⟨yday, hyday, hret⟩ := bind_eq_some_iff.mp hret
  obtain ⟨rfl, -⟩ := int_eq_some hyday
  cases hret
  refine ⟨y, m, d, hloop, hfit.2, ?_⟩
  simp only [dayOfYear, mdayCarried, hourCarried] at *
  omega

/-- `timegm` has a value when no field overflows, its loop ends and the year fits. -/
theorem timegm_defined (ht : InRange t) (hmon : t.tmMon < 12) (hday : mdayCarried t ≤ 365)
    (hloop : mdayLoop t.tmYear t.tmMon.toNat (mdayCarried t) = some (y, m, d))
    (hfull : y + 1900 < 2 ^ 31) (hfit : IsInt (dayOfYear y m d)) :
    ∃ v, (timegm t).map Prod.fst = some v := by
  have hmin := ht.minCarried_nonneg
  have hhour := ht.hourCarried_nonneg
  have hfields := And.intro ht.hour (And.intro ht.mday (And.intro ht.mon ht.year))
  have hdef : mdayCarried t = t.tmMday + hourCarried t / 24 ∧
      hourCarried t = t.tmHour + minCarried t / 60 := ⟨rfl, rfl⟩
  have hle := (mdayLoop_year_le (by omega) hloop).1
  have hsec : carry (t.tmSec > 60) 60 t.tmSec t.tmMin
      = some (if t.tmSec > 60 then t.tmSec % 60 else t.tmSec, minCarried t) := by
    by_cases hover : t.tmSec > 60
    · have hsum : minCarried t = t.tmMin + t.tmSec / 60 := by rw [minCarried, if_pos hover]
      rw [carry_of_isInt _ ht.sec.1 (by unfold IsInt; omega), hsum]
      simp [hover]
    · simp [carry, minCarried, hover]
  have hmin1 : carry (minCarried t ≥ 60) 60 (minCarried t) t.tmHour
      = some (minCarried t % 60, hourCarried t) :=
    carry_ge_of_isInt hmin (by unfold IsInt; omega)
  have hhour1 : carry (hourCarried t ≥ 24) 24 (hourCarried t) t.tmMday
      = some (hourCarried t % 24, mdayCarried t) :=
    carry_ge_of_isInt hhour (by unfold IsInt; omega)
  have hmon1 : carry (t.tmMon ≥ 12) 12 t.tmMon t.tmYear = some (t.tmMon, t.tmYear) := by
    simp [carry, not_le.mpr hmon]
  have hyear : IsInt (y + 1900) := by unfold IsInt; omega
  have hyday : int (spm m + d - 1 + if isleap (y + 1900) ∧ m > 1 then 1 else 0)
      = some (dayOfYear y m d) := int_of_isInt hfit
  simp only [timegm, bind_eq_bind]
  rw [hsec]
  simp only [bind_some]
  rw [hmin1]
  simp only [bind_some]
  rw [hhour1]
  rw [hmon1]
  simp only [bind_some]
  rw [hloop]
  simp only [bind_some]
  rw [if_neg (by omega), int_of_isInt hyear, bind_some, hyday]
  exact ⟨_, rfl⟩

/-- The fields that `timegm` carries as it should: the months are in range, and the days stay within
the table or happen to be brought back by the loop. -/
def CarriesExactly (t : Tm) : Prop :=
  t.tmYear + 1900 < 2 ^ 31 ∧ t.tmMon < 12 ∧
    (mdayCarried t ≤ spm (1 + t.tmMon.toNat) ∨
      t.tmMon = 0 ∧ 121 + leapDay t.tmYear < mdayCarried t ∧ mdayCarried t ≤ 210 + leapDay t.tmYear)

/-- Days that are carried exactly fill at most a year. -/
theorem CarriesExactly.mdayCarried_le (h : CarriesExactly t) : mdayCarried t ≤ 365 := by
  have hspm := spm_bounds (1 + t.tmMon.toNat)
  have hleap : leapDay t.tmYear ≤ 1 := by unfold leapDay; split <;> decide
  obtain ⟨-, -, hdays⟩ := h
  omega

/-- The second count of fields whose month is in range. -/
theorem carried_eq (ht : InRange t) (hmon : t.tmMon < 12) :
    carried t = (yearDays (t.tmYear - 70) + dayOfYear t.tmYear t.tmMon.toNat (mdayCarried t)
      - mdayCarried t + t.tmMday) * 86400 + t.tmHour * 3600 + t.tmMin * 60 + t.tmSec := by
  have hmon0 := ht.mon
  have hyear := ht.year
  have hyears : 1900 + t.tmYear + t.tmMon / 12 = t.tmYear + 1900 := by omega
  have hcount : t.tmYear + 1900 - 1970 = t.tmYear - 70 := by omega
  simp only [carried]
  rw [hyears, Int.emod_eq_of_lt hmon0.1 hmon, daysBeforeMonth_eq _ (by omega), hcount,
    yearDays_eq (by omega), dayOfYear]
  omega

/-- When the months reach another year, the count of `timegm` falls short. -/
theorem carried_lt (ht : InRange t) (hmon : 12 ≤ t.tmMon)
    (hfull : y + 1900 < 2 ^ 31) (hloop : mdayLoop (t.tmYear + t.tmMon / 12) (t.tmMon % 12).toNat
      (mdayCarried t) = some (y, m, d)) :
    (yearDays (t.tmYear - 70) + dayOfYear y m d - mdayCarried t + t.tmMday) * 86400
      + t.tmHour * 3600 + t.tmMin * 60 + t.tmSec < carried t := by
  have hyear := ht.year
  have hmon0 : (t.tmMon % 12).toNat ≤ 11 := by omega
  have hday := (mdayLoop_dayOfYear hmon0 (by omega) hfull hloop).1
  have hyears : 1900 + t.tmYear + t.tmMon / 12 = t.tmYear + t.tmMon / 12 + 1900 := by omega
  have hspan : (t.tmYear + t.tmMon / 12 + 1900 - 1970).toNat
      = (t.tmYear - 70).toNat + (t.tmMon / 12).toNat := by omega
  have hmore := (daysOfYears_bounds (1970 + (t.tmYear - 70).toNat) (t.tmMon / 12).toNat).1
  simp only [carried]
  rw [hyears, hspan, daysOfYears_add, daysBeforeMonth_eq _ (by omega), yearDays_eq (by omega)]
  unfold dayOfYear at hday ⊢
  omega

/-- The fields that are carried exactly have the carried second count. -/
theorem timegm_carried (ht : InRange t) (hexact : CarriesExactly t) :
    (timegm t).map Prod.fst = some (carried t) := by
  have hday := hexact.mdayCarried_le
  obtain ⟨hyear, hmon, hdays⟩ := hexact
  have hfields := And.intro ht.mon ht.year
  have hloop := (mdayLoop_exact_iff (by omega) (by omega) hyear).mpr
    (hdays.imp_right fun h => ⟨by omega, h.2⟩)
  obtain ⟨y, m, d, hloop, hfull, hsame⟩ := hloop
  have hfit : IsInt (dayOfYear y m d) := by
    have hspm := spm_bounds t.tmMon.toNat
    have hpos : 1 ≤ mdayCarried t := ht.one_le_mdayCarried
    rw [hsame]
    unfold IsInt dayOfYear
    split <;> omega
  obtain ⟨v, hv⟩ := timegm_defined ht hmon hday hloop hfull hfit
  obtain ⟨y', m', d', hloop', -, rfl⟩ := timegm_eq_some ht hv
  have hyears : t.tmYear + t.tmMon / 12 = t.tmYear := by omega
  rw [hyears, Int.emod_eq_of_lt ht.mon.1 hmon, hloop] at hloop'
  cases hloop'
  rw [hv, carried_eq ht hmon, hsame]

/-- `timegm` returns the carried second count exactly for these fields, and there one more day is
86400 seconds. -/
theorem timegm_eq_carried_iff {t : Tm} (ht : InRange t) :
    ((timegm t).map Prod.fst = some (carried t) ↔ CarriesExactly t) ∧
      (CarriesExactly t → CarriesExactly { t with tmMday := t.tmMday + 1 } → ∃ v,
        (timegm t).map Prod.fst = some v ∧
        (timegm { t with tmMday := t.tmMday + 1 }).map Prod.fst = some (v + 86400)) := by
  refine ⟨⟨fun htime => ?_, timegm_carried ht⟩, fun hday hnext => ?_⟩
  · obtain ⟨y, m, d, hloop, hfull, hcount⟩ := timegm_eq_some ht htime
    have hfields := And.intro ht.mon ht.year
    by_cases hmon : t.tmMon < 12
    · have hyears : t.tmYear + t.tmMon / 12 = t.tmYear := by omega
      rw [hyears, Int.emod_eq_of_lt ht.mon.1 hmon] at hloop
      have hle := (mdayLoop_year_le (by omega) hloop).1
      rw [carried_eq ht hmon] at hcount
      have hdays := (mdayLoop_exact_iff (by omega) (by omega) (by omega)).mp
        ⟨y, m, d, hloop, hfull, by omega⟩
      exact ⟨by omega, hmon, hdays.imp_right fun h => ⟨by omega, h.2⟩⟩
    · have hlt := carried_lt ht (by omega) hfull hloop
      omega
  · have hle := hnext.mdayCarried_le
    have hhour := ht.hourCarried_nonneg
    have hmday := ht.mday
    have hcarried : mdayCarried { t with tmMday := t.tmMday + 1 }
        = t.tmMday + 1 + hourCarried t / 24 := rfl
    have hrange : InRange { t with tmMday := t.tmMday + 1 } :=
      { ht with mday := ⟨by simp only; omega, by simp only; omega⟩ }
    refine ⟨carried t, timegm_carried ht hday, ?_⟩
    rw [timegm_carried hrange hnext]
    simp only [carried, some.injEq]
    omega

/-- 27 February 2000 with 47 hours, 75 minutes and 130 seconds. -/
theorem timegm_eq_carried_iff_february :
    (timegm ⟨130, 75, 47, 27, 1, 100, 0, 0, 0⟩).map Prod.fst = some 951783430 :=
  (timegm_eq_carried_iff
    ⟨by decide, by decide, by decide, by decide, by decide, by decide⟩).1.mpr
    ⟨by decide, by decide, .inl (by decide)⟩

/-- The 32nd of January 1970 is counted 31 days late, and the thirteenth month of 1970 as its first. -/
theorem timegm_ne_carried : ((timegm ⟨0, 0, 0, 32, 0, 70, 0, 0, 0⟩).map Prod.fst = some (62 * 86400) ∧
      carried ⟨0, 0, 0, 32, 0, 70, 0, 0, 0⟩ = 31 * 86400) ∧
    (timegm ⟨0, 0, 0, 1, 12, 70, 0, 0, 0⟩).map Prod.fst = some 0 ∧
      carried ⟨0, 0, 0, 1, 12, 70, 0, 0, 0⟩ = 365 * 86400 := by
  have hstay : ∀ base low high, carry false base low high = some (low, high) := fun _ _ _ => rfl
  refine ⟨⟨?_, by decide⟩, ?_, by decide⟩
  · have hloop : mdayLoop 70 0 32 = some (70, 1, 32) := by
      rw [mdayLoop_next (by decide) (by decide) (by decide)]
      exact mdayLoop_stop (by decide)
    simp [timegm, hstay, hloop]
    decide
  · have hloop : mdayLoop 71 0 1 = some (71, 0, 1) := mdayLoop_stop (by decide)
    have hcarry : carry true 12 12 70 = some (0, 71) := by decide
    simp [timegm, hstay, hcarry, hloop]
    decide

end RtThread.Ctime
