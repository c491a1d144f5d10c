import RtThread.Ctime.Carry

/-!
# `gmtime_r` and `timegm` are inverse to each other

`gmtime_r` keeps the day number in an `int` and adds 4 to it for the day of the week. It therefore
inverts `timegm` up to the day number `2 ^ 31 - 5`: the next four days overflow the sum, and later
ones do not fit the cast, although `timegm` counts them in a `time_t`.
-/

namespace RtThread.Ctime

open Lib.Gregorian Option

/-- The days from 1 January 1970 to a date. -/
def dayNumber (r : Tm) : ℤ :=
  daysOfYears 1970 (r.tmYear - 70).toNat + daysBeforeMonth (r.tmYear + 1900) r.tmMon.toNat
    + (r.tmMday - 1)

/-- A Gregorian date from 1970 on with a time of day; 1 January 1970 was a Thursday. -/
structure Valid (r : Tm) : Prop where
  sec : 0 ≤ r.tmSec ∧ r.tmSec < 60
  min : 0 ≤ r.tmMin ∧ r.tmMin < 60
  hour : 0 ≤ r.tmHour ∧ r.tmHour < 24
  mon : 0 ≤ r.tmMon ∧ r.tmMon ≤ 11
  mday : 1 ≤ r.tmMday ∧ r.tmMday ≤ monthLength (r.tmYear + 1900) r.tmMon.toNat
  year : 70 ≤ r.tmYear ∧ r.tmYear < 2 ^ 31
  yday : r.tmYday = daysBeforeMonth (r.tmYear + 1900) r.tmMon.toNat + (r.tmMday - 1)
  wday : r.tmWday = (4 + dayNumber r) % 7
  isdst : r.tmIsdst = 0

variable {m : ℕ} {r : Tm}

/-- The code's year length is the calendar's. -/
theorem daysOfYear_eq (i : ℤ) : daysOfYear i = yearLength i := by
  rw [daysOfYear, isleap_eq, yearLength]

/-- The loop over the years finds the year of a day. -/
theorem yearLoop_eq (i : ℤ) (n : ℕ) {yd : ℤ} (h0 : 0 ≤ yd) (hlt : yd < yearLength (i + n)) :
    yearLoop i (daysOfYears i n + yd) = (i + n, yd) := by
  induction n generalizing i with
  | zero =>
    have hstop : ¬ daysOfYears i 0 + yd ≥ daysOfYear i := by
      rw [daysOfYear_eq, daysOfYears]
      simp only [Int.natCast_zero, Int.add_zero] at hlt
      omega
    rw [yearLoop, if_neg hstop]
    simp [daysOfYears]
  | succ n ih =>
    have hnext : i + 1 + (n : ℤ) = i + ((n + 1 : ℕ) : ℤ) := by push_cast; omega
    have hpos := (daysOfYears_bounds (i + 1) n).1
    have hmore : daysOfYears i (n + 1) + yd ≥ daysOfYear i := by
      rw [daysOfYear_eq, daysOfYears]
      omega
    have hrest : daysOfYears i (n + 1) + yd - daysOfYear i = daysOfYears (i + 1) n + yd := by
      rw [daysOfYear_eq, daysOfYears]
      omega
    rw [yearLoop, if_pos hmore, hrest, ih (i + 1) (by rwa [hnext]), hnext]

/-- The loop over the years passes a year for every 365 days at most. -/
theorem yearLoop_year_le (i work : ℤ) : 365 * ((yearLoop i work).1 - i) ≤ max work 0 := by
  fun_induction yearLoop i work with
  | case1 i work hmore ih =>
    have hyear := (yearLength_bounds i).1
    rw [daysOfYear_eq] at hmore ih
    rw [daysOfYear_eq]
    omega
  | case2 i work => omega

/-- The days before a month grow with the month. -/
theorem spm_mono {a b : ℕ} (hab : a ≤ b) (hb : b ≤ 12) : spm a ≤ spm b := by
  have hall : ∀ b < 13, ∀ a < 13, a ≤ b → spm a ≤ spm b := by decide
  exact hall b (by omega) a (by omega) hab

/-- The length of a month is the difference of two entries of the table, and the leap day. -/
theorem monthLength_eq (y : ℤ) (hm : m < 12) :
    monthLength y m = spm (m + 1) - spm m + if isLeap y ∧ m = 1 then 1 else 0 := by
  by_cases hleap : isLeap y <;> interval_cases m <;> simp [monthLength, hleap, spm]

/-- The month search finds the last month that does not start later. -/
theorem monthLoop_eq {work : ℤ} {i : ℕ} (hmi : m ≤ i) (hi : i ≤ 11) (hlow : spm m ≤ work)
    (hhigh : work < spm (m + 1)) : monthLoop work i = m := by
  induction i with
  | zero => exact (Nat.le_zero.mp hmi).symm
  | succ i ih =>
    by_cases heq : m = i + 1
    · rw [monthLoop, if_neg (by rw [← heq]; omega), heq]
    · have hmono := spm_mono (show m + 1 ≤ i + 1 by omega) (by omega)
      rw [monthLoop, if_pos (by omega)]
      exact ih (by omega) (by omega)

/-- The month search and the leap day give back the month and the day. -/
theorem monthAndDay_eq (y : ℤ) {d : ℤ} (hm : m < 12) (h1 : 1 ≤ d) (hd : d ≤ monthLength y m) :
    monthAndDay (isleap y) (daysBeforeMonth y m + (d - 1)) = (m, d) := by
  rw [monthLength_eq y hm] at hd
  rw [daysBeforeMonth_eq y hm, isleap_eq]
  have hjan : spm 0 = 0 ∧ spm 1 = 31 ∧ spm 2 = 59 := by decide
  -- the day that is looked up lies in the month, and what is added to it gives the day back
  obtain ⟨work, first, hpatch, hlow, hhigh, hday⟩ : ∃ work first : ℤ,
      monthAndDay (isLeap y) (spm m + (if isLeap y ∧ m > 1 then 1 else 0) + (d - 1))
        = (monthLoop work 11, first + (work - spm (monthLoop work 11))) ∧
      spm m ≤ work ∧ work < spm (m + 1) ∧ first + (work - spm m) = d := by
    refine ⟨_, _, rfl, ?_⟩
    by_cases hleap : isLeap y
    · simp only [hleap, true_and] at hd ⊢
      by_cases hfeb : m ≤ 1
      · have hcases : m = 0 ∨ m = 1 := by omega
        rcases hcases with rfl | rfl <;> simp at hd ⊢ <;> split_ifs <;> omega
      · have hmono := spm_mono (show 2 ≤ m by omega) (by omega)
        split_ifs <;> omega
    · simp only [hleap, Bool.false_eq_true, false_and, if_false] at hd ⊢
      omega
  rw [hpatch, monthLoop_eq (by omega) (Nat.le_refl 11) hlow hhigh, hday]

/-- The seconds of a day before a time of day. -/
def timeOfDay (r : Tm) : ℤ := r.tmHour * 3600 + r.tmMin * 60 + r.tmSec

/-- A time of day is less than a day. -/
theorem Valid.timeOfDay_bounds (hr : Valid r) : 0 ≤ timeOfDay r ∧ timeOfDay r < 86400 := by
  have hfields := And.intro hr.sec (And.intro hr.min hr.hour)
  unfold timeOfDay
  omega

/-- The day number of a date is not negative, and its year bounds it. -/
theorem Valid.dayNumber_bounds (hr : Valid r) :
    365 * (r.tmYear - 70) ≤ dayNumber r ∧ dayNumber r < 366 * (r.tmYear - 69) := by
  have hyears := daysOfYears_bounds 1970 (r.tmYear - 70).toNat
  have hmonth := daysBeforeMonth_mono (r.tmYear + 1900) (Nat.zero_le r.tmMon.toNat)
  have hmon := hr.mon
  have hlt := daysBeforeMonth_add_lt (r.tmYear + 1900) (by omega) hr.mday.2
  have hlen := (yearLength_bounds (r.tmYear + 1900)).2
  have hfields := And.intro hr.year hr.mday
  rw [daysBeforeMonth] at hmonth
  unfold dayNumber
  omega

/-- The second count of a date and a time of day. -/
theorem Valid.carried_eq (hr : Valid r) : carried r = dayNumber r * 86400 + timeOfDay r := by
  have hmon := hr.mon
  have hyears : 1900 + r.tmYear + r.tmMon / 12 = r.tmYear + 1900 := by omega
  have hcount : r.tmYear + 1900 - 1970 = r.tmYear - 70 := by omega
  simp only [carried, dayNumber, timeOfDay]
  rw [hyears, hcount, Int.emod_eq_of_lt hmon.1 (by omega)]
  omega

/-- The fields of a date are in range. -/
theorem Valid.inRange (hr : Valid r) : InRange r := by
  have hlen := (monthLength_bounds (r.tmYear + 1900) r.tmMon.toNat).2
  have htime := And.intro hr.sec (And.intro hr.min hr.hour)
  have hdate := And.intro hr.mon hr.mday
  exact ⟨by omega, by omega, by omega, by omega, by omega, hr.year⟩

/-- Dates are among the fields that `timegm` carries exactly. -/
theorem Valid.timegm_eq (hr : Valid r) (hyear : r.tmYear + 1900 < 2 ^ 31) :
    (timegm r).map Prod.fst = some (dayNumber r * 86400 + timeOfDay r) := by
  have hlen := (monthLength_bounds (r.tmYear + 1900) r.tmMon.toNat).2
  have htime := And.intro hr.sec (And.intro hr.min hr.hour)
  have hdate := And.intro hr.mon hr.mday
  have hcarried : mdayCarried r = r.tmMday := by
    unfold mdayCarried hourCarried minCarried
    split <;> omega
  have hspm := spm_pos (Nat.add_pos_left Nat.one_pos r.tmMon.toNat)
  have hexact : CarriesExactly r := ⟨hyear, by omega, .inl (by omega)⟩
  rw [timegm_carried hr.inRange hexact, hr.carried_eq]

/-- The loop over the years finds the year and the day of the year of a date. -/
theorem Valid.yearLoop_dayNumber (hr : Valid r) :
    yearLoop 1970 (dayNumber r) = (r.tmYear + 1900, r.tmYday) := by
  have hyear := hr.year
  have hmon := hr.mon
  have hmday := hr.mday
  have hshift : r.tmYear + 1900 = 1970 + ((r.tmYear - 70).toNat : ℤ) := by omega
  have hlow : 0 ≤ r.tmYday := by
    have hmono := daysBeforeMonth_mono (r.tmYear + 1900) (Nat.zero_le r.tmMon.toNat)
    rw [daysBeforeMonth] at hmono
    rw [hr.yday]
    omega
  have hhigh : r.tmYday < yearLength (r.tmYear + 1900) := by
    rw [hr.yday]
    exact daysBeforeMonth_add_lt (r.tmYear + 1900) (by omega) hmday.2
  have hsum : dayNumber r = daysOfYears 1970 (r.tmYear - 70).toNat + r.tmYday := by
    rw [hr.yday, dayNumber]
    omega
  rw [hsum, yearLoop_eq _ _ hlow (by rwa [← hshift]), hshift]

/-- `gmtime_r` finds a date whose day number leaves room for the day of the week. -/
theorem Valid.gmtimeR_eq (hr : Valid r) (hday : dayNumber r ≤ 2 ^ 31 - 5) :
    gmtimeR (dayNumber r * 86400 + timeOfDay r) = some r := by
  have htod := hr.timeOfDay_bounds
  have hnum := hr.dayNumber_bounds
  have hyear := hr.year
  have hdiv : (dayNumber r * 86400 + timeOfDay r).tdiv 86400 = dayNumber r := by
    rw [Int.tdiv_eq_ediv_of_nonneg (by omega)]
    omega
  have hmod : (dayNumber r * 86400 + timeOfDay r).tmod 86400 = timeOfDay r := by
    rw [Int.tmod_eq_emod_of_nonneg (by omega)]
    omega
  have hcast : toInt (dayNumber r) = dayNumber r := by
    unfold toInt
    omega
  have hmonth : monthAndDay (isleap (r.tmYear + 1900)) r.tmYday = (r.tmMon.toNat, r.tmMday) := by
    rw [hr.yday]
    exact monthAndDay_eq _ (by have := hr.mon; omega) hr.mday.1 hr.mday.2
  simp only [gmtimeR, hdiv, hmod, hcast, hr.yearLoop_dayNumber, hmonth]
  rw [int_of_isInt (by unfold IsInt; omega)]
  have hsec := hr.sec
  have hmin := hr.min
  have hmon := hr.mon
  have hwday := hr.wday
  have hisdst := hr.isdst
  have htime : timeOfDay r = r.tmHour * 3600 + r.tmMin * 60 + r.tmSec := rfl
  obtain ⟨sec, min, hour, mday, mon, year, wday, yday, isdst⟩ := r
  simp only [bind_eq_bind, bind_some, pure_def, some.injEq, Tm.mk.injEq, true_and] at *
  rw [Int.tmod_eq_emod_of_nonneg (by omega), Int.tdiv_eq_ediv_of_nonneg (by omega),
    Int.tmod_eq_emod_of_nonneg (by omega), Int.tdiv_eq_ediv_of_nonneg (by omega),
    Int.tmod_eq_emod_of_nonneg (by omega)]
  omega

/-- Every second from 1970 on is a time of day of a date. -/
theorem exists_valid {t : ℤ} (h0 : 0 ≤ t) (hday : t / 86400 < 2 ^ 31) :
    ∃ r, Valid r ∧ dayNumber r = t / 86400 ∧ timeOfDay r = t % 86400 := by
  obtain ⟨n, yd, hsum, hyd, hlt⟩ := exists_year 1970 (t / 86400) (by omega)
  obtain ⟨m, d, hm, h1, hd, hmonth⟩ := exists_month (1970 + n) yd hyd hlt
  have hn := (daysOfYears_bounds 1970 n).1
  have hyear : (70 + (n : ℤ)) + 1900 = 1970 + n := by omega
  have hcount : ((70 + (n : ℤ)) - 70).toNat = n := by omega
  refine ⟨⟨t % 60, t / 60 % 60, t % 86400 / 3600, d, m, 70 + n, (4 + t / 86400) % 7, yd, 0⟩,
    ⟨by simp only; omega, by simp only; omega, by simp only; omega, by simp only; omega, ?_,
      by simp only; omega, ?_, ?_, rfl⟩, ?_, ?_⟩
  · simpa only [hyear, Int.toNat_natCast] using ⟨h1, hd⟩
  · simpa only [hyear, Int.toNat_natCast] using hmonth
  · simp only [dayNumber, hyear, hcount, Int.toNat_natCast]
    omega
  · simp only [dayNumber, hyear, hcount, Int.toNat_natCast]
    omega
  · simp only [timeOfDay]
    omega

/-- What a result of `gmtime_r` says: the day of the week was defined, and the year is the one of the
truncated day number. -/
theorem gmtimeR_eq_some {t : ℤ} (h : gmtimeR t = some r) : IsInt (4 + toInt (t.tdiv 86400)) ∧
      (yearLoop 1970 (toInt (t.tdiv 86400))).1 - 1900 = r.tmYear := by
  simp only [gmtimeR, bind_eq_bind, bind_eq_some_iff] at h
  obtain ⟨weekday, hweek, hret⟩ := h
  exact ⟨(int_eq_some hweek).2, congrArg Tm.tmYear (some.inj hret)⟩

/-- `gmtime_r` does not find a date whose day number is larger. -/
theorem Valid.gmtimeR_ne (hr : Valid r) (hday : 2 ^ 31 - 5 < dayNumber r) :
    gmtimeR (dayNumber r * 86400 + timeOfDay r) ≠ some r := by
  intro hfound
  have htod := hr.timeOfDay_bounds
  have hnum := hr.dayNumber_bounds
  have hdiv : (dayNumber r * 86400 + timeOfDay r).tdiv 86400 = dayNumber r := by
    rw [Int.tdiv_eq_ediv_of_nonneg (by omega)]
    omega
  obtain ⟨hfit, hyear⟩ := gmtimeR_eq_some hfound
  rw [hdiv] at hfit hyear
  have hbound := yearLoop_year_le 1970 (toInt (dayNumber r))
  unfold IsInt toInt at *
  omega

/-- `gmtime_r` and `timegm` invert each other, in both directions, exactly for the day numbers that
leave room for the day of the week. -/
theorem gmtimeR_timegm_iff (t : ℤ) (r : Tm) : (0 ≤ t → t / 86400 < 2 ^ 31 →
      ((∃ r, gmtimeR t = some r ∧ Valid r ∧ (timegm r).map Prod.fst = some t) ↔
        t / 86400 ≤ 2 ^ 31 - 5)) ∧ (Valid r → (((timegm r).map Prod.fst).bind gmtimeR = some r ↔
      dayNumber r ≤ 2 ^ 31 - 5)) := by
  refine ⟨fun h0 hint => ⟨?_, fun hday => ?_⟩, fun hr => ⟨fun hback => ?_, fun hday => ?_⟩⟩
  · rintro ⟨r, hfound, -, -⟩
    have hfit := (gmtimeR_eq_some hfound).1
    rw [Int.tdiv_eq_ediv_of_nonneg h0] at hfit
    unfold IsInt toInt at hfit
    omega
  · obtain ⟨r, hr, hnum, htod⟩ := exists_valid h0 hint
    have hsum : dayNumber r * 86400 + timeOfDay r = t := by omega
    have hyear := hr.dayNumber_bounds
    refine ⟨r, ?_, hr, ?_⟩
    · rw [← hsum]
      exact hr.gmtimeR_eq (by omega)
    · rw [hr.timegm_eq (by omega), hsum]
  · by_contra hlarge
    by_cases hyear : r.tmYear + 1900 < 2 ^ 31
    · rw [hr.timegm_eq hyear] at hback
      exact hr.gmtimeR_ne (by omega) hback
    · -- beyond the last year that fits, `timegm` itself has no value
      obtain ⟨v, htime, -⟩ := bind_eq_some_iff.mp hback
      obtain ⟨y, m, d, hloop, hfull, -⟩ := timegm_eq_some hr.inRange htime
      have hle := (mdayLoop_year_le (by omega) hloop).1
      have hmon := hr.mon
      omega
  · have hyear := hr.dayNumber_bounds
    rw [hr.timegm_eq (by omega)]
    exact hr.gmtimeR_eq hday

/-- Both directions at 28 February 2100, the last day of February in that century year. -/
theorem gmtimeR_timegm_iff_century :
    (∃ r, gmtimeR 4107455999 = some r ∧ Valid r ∧ (timegm r).map Prod.fst = some 4107455999) ∧
    ((timegm ⟨59, 59, 23, 28, 1, 200, 0, 58, 0⟩).map Prod.fst).bind gmtimeR
      = some ⟨59, 59, 23, 28, 1, 200, 0, 58, 0⟩ :=
  have hboth := gmtimeR_timegm_iff 4107455999 ⟨59, 59, 23, 28, 1, 200, 0, 58, 0⟩
  ⟨(hboth.1 (by decide) (by decide)).mpr (by decide),
    (hboth.2 ⟨by decide, by decide, by decide, by decide, by decide, by decide, by decide,
      by decide +kernel, rfl⟩).mpr (by decide +kernel)⟩

/-- On the last day that fits an `int` the day of the week overflows, and 21 January 11761191, whose
day number is `2 ^ 32`, comes back as 1 January 1970. -/
theorem gmtimeR_loses_dates : gmtimeR ((2 ^ 31 - 1) * 86400) = none ∧
    Valid ⟨0, 0, 0, 21, 0, 11759291, 1, 20, 0⟩ ∧
    (timegm ⟨0, 0, 0, 21, 0, 11759291, 1, 20, 0⟩).map Prod.fst = some (2 ^ 32 * 86400) ∧
    gmtimeR (2 ^ 32 * 86400) = some ⟨0, 0, 0, 1, 0, 70, 4, 0, 0⟩ := by
  have hnum : dayNumber ⟨0, 0, 0, 21, 0, 11759291, 1, 20, 0⟩ = 2 ^ 32 := by
    rw [dayNumber, daysOfYears_eq]
    decide
  have hvalid : Valid ⟨0, 0, 0, 21, 0, 11759291, 1, 20, 0⟩ :=
    ⟨by decide, by decide, by decide, by decide, by decide, by decide, by decide,
      by rw [hnum]; decide, rfl⟩
  have hepoch : yearLoop 1970 0 = (1970, 0) := yearLoop_eq 1970 0 (Int.le_refl 0) (by decide)
  refine ⟨by decide, hvalid, ?_, ?_⟩
  · rw [hvalid.timegm_eq (by decide), hnum]
    decide
  · have hcast : toInt (((2 : ℤ) ^ 32 * 86400).tdiv 86400) = 0 := by decide
    simp only [gmtimeR, hcast, hepoch]
    decide

end RtThread.Ctime
