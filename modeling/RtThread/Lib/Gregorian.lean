import Mathlib.Data.Int.Notation
import Mathlib.Data.Nat.Notation

/-!
# The proleptic Gregorian calendar

Years and days are integers and months are numbered from 0. The days from the first of January of a
year `e` are counted year by year and month by month; the closed form of the count uses the number
of leap years that ended before a year.
-/

namespace RtThread.Lib.Gregorian

/-- Leap years: every fourth year, except the centuries that 400 does not divide. -/
def isLeap (y : ℤ) : Bool :=
  decide (y % 4 = 0) && (decide (y % 100 ≠ 0) || decide (y % 400 = 0))

/-- The number of days of a year. -/
def yearLength (y : ℤ) : ℤ := if isLeap y then 366 else 365

/-- The number of days of a month, January being month 0. -/
def monthLength (y : ℤ) : ℕ → ℤ
  | 1 => if isLeap y then 29 else 28
  | 3 => 30
  | 5 => 30
  | 8 => 30
  | 10 => 30
  | _ => 31

/-- The days of the `n` years that start with year `e`. -/
def daysOfYears (e : ℤ) : ℕ → ℤ
  | 0 => 0
  | n + 1 => yearLength e + daysOfYears (e + 1) n

/-- The days of the year before month `m`. -/
def daysBeforeMonth (y : ℤ) : ℕ → ℤ
  | 0 => 0
  | m + 1 => daysBeforeMonth y m + monthLength y m

/-- The number of leap years from year 1 that ended before year `y`. -/
def leapsBefore (y : ℤ) : ℤ := (y - 1) / 4 - (y - 1) / 100 + (y - 1) / 400

/-- A year has 365 days, and one more if it is a leap year. -/
theorem yearLength_eq (y : ℤ) : yearLength y = 365 + if isLeap y then 1 else 0 := by
  unfold yearLength
  split <;> rfl

/-- The bounds of the length of a year. -/
theorem yearLength_bounds (y : ℤ) : 365 ≤ yearLength y ∧ yearLength y ≤ 366 := by
  unfold yearLength
  split <;> decide

/-- Every month has a day, and at most 31 of them. -/
theorem monthLength_bounds (y : ℤ) (m : ℕ) : 1 ≤ monthLength y m ∧ monthLength y m ≤ 31 := by
  unfold monthLength
  split <;> (try split) <;> decide

/-- The leap years before the next year. -/
theorem leapsBefore_succ (y : ℤ) : leapsBefore (y + 1) = leapsBefore y + if isLeap y then 1 else 0 := by
  by_cases hleap : isLeap y
  · simp only [isLeap, Bool.and_eq_true, Bool.or_eq_true, decide_eq_true_eq] at hleap
    rw [if_pos (by simpa [isLeap] using hleap)]
    unfold leapsBefore
    omega
  · rw [if_neg hleap]
    simp only [isLeap, Bool.and_eq_true, Bool.or_eq_true, decide_eq_true_eq] at hleap
    unfold leapsBefore
    omega

/-- The closed form of the days of a span of years. -/
theorem daysOfYears_eq (e : ℤ) (n : ℕ) :
    daysOfYears e n = 365 * n + leapsBefore (e + n) - leapsBefore e := by
  induction n generalizing e with
  | zero => simp [daysOfYears]
  | succ n ih =>
    have hnext : e + 1 + (n : ℤ) = e + ((n + 1 : ℕ) : ℤ) := by push_cast; omega
    rw [daysOfYears, ih, hnext, leapsBefore_succ, yearLength_eq]
    omega

/-- A span of years counts between 365 and 366 days for each of them. -/
theorem daysOfYears_bounds (e : ℤ) (n : ℕ) :
    365 * (n : ℤ) ≤ daysOfYears e n ∧ daysOfYears e n ≤ 366 * n := by
  induction n generalizing e with
  | zero => simp [daysOfYears]
  | succ n ih =>
    have hyear := yearLength_bounds e
    have hrest := ih (e + 1)
    rw [daysOfYears]
    omega

/-- A span of years is counted in two parts. -/
theorem daysOfYears_add (e : ℤ) (n k : ℕ) :
    daysOfYears e (n + k) = daysOfYears e n + daysOfYears (e + n) k := by
  have hnext : e + ((n + k : ℕ) : ℤ) = e + n + k := by push_cast; omega
  rw [daysOfYears_eq, daysOfYears_eq, daysOfYears_eq, hnext]
  omega

/-- The months of a year make up the year. -/
theorem daysBeforeMonth_twelve (y : ℤ) : daysBeforeMonth y 12 = yearLength y := by
  unfold yearLength
  by_cases hleap : isLeap y <;> simp [daysBeforeMonth, monthLength, hleap]

/-- The days before a month grow with the month. -/
theorem daysBeforeMonth_mono (y : ℤ) {k l : ℕ} (hkl : k ≤ l) :
    daysBeforeMonth y k ≤ daysBeforeMonth y l := by
  induction hkl with
  | refl => exact Int.le_refl _
  | @step l _ ih =>
    have hpos := (monthLength_bounds y l).1
    rw [daysBeforeMonth]
    omega

/-- The day of the year is a day of the year it is counted in. -/
theorem daysBeforeMonth_add_lt (y : ℤ) {m : ℕ} {d : ℤ} (hm : m < 12) (hd : d ≤ monthLength y m) :
    daysBeforeMonth y m + (d - 1) < yearLength y := by
  have hlast := daysBeforeMonth_mono y (Nat.succ_le_of_lt hm)
  rw [daysBeforeMonth_twelve, daysBeforeMonth] at hlast
  omega

/-- Every day from year `e` on lies in a year. -/
theorem exists_year (e x : ℤ) (hx : 0 ≤ x) :
    ∃ (n : ℕ) (yd : ℤ), x = daysOfYears e n + yd ∧ 0 ≤ yd ∧ yd < yearLength (e + n) := by
  -- by strong induction on the days left, one year at a time
  induction hsize : x.toNat using Nat.strongRecOn generalizing e x with
  | ind size ih =>
    by_cases hlt : x < yearLength e
    · exact ⟨0, x, by simp [daysOfYears], hx, by simpa using hlt⟩
    have hyear := yearLength_bounds e
    obtain ⟨n, yd, hsum, hyd, hin⟩ := ih (x - yearLength e).toNat (by omega) (e + 1)
      (x - yearLength e) (by omega) rfl
    refine ⟨n + 1, yd, by rw [daysOfYears]; omega, hyd, ?_⟩
    have hnext : e + 1 + (n : ℤ) = e + ((n + 1 : ℕ) : ℤ) := by push_cast; omega
    rwa [hnext] at hin

/-- Every day of a year lies in a month. -/
theorem exists_month (y yd : ℤ) (h0 : 0 ≤ yd) (hlt : yd < yearLength y) :
    ∃ (m : ℕ) (d : ℤ), m < 12 ∧ 1 ≤ d ∧ d ≤ monthLength y m ∧ yd = daysBeforeMonth y m + (d - 1) := by
  have hsearch : ∀ k, k ≤ 12 → yd < daysBeforeMonth y k → ∃ m < 12,
      daysBeforeMonth y m ≤ yd ∧ yd < daysBeforeMonth y (m + 1) := by
    intro k hk
    induction k with
    | zero => intro hneg; rw [daysBeforeMonth] at hneg; omega
    | succ k ih =>
      intro hlast
      by_cases hbefore : yd < daysBeforeMonth y k
      · exact ih (by omega) hbefore
      · exact ⟨k, by omega, by omega, hlast⟩
  rw [← daysBeforeMonth_twelve] at hlt
  obtain ⟨m, hm, hlow, hhigh⟩ := hsearch 12 (Nat.le_refl 12) hlt
  rw [daysBeforeMonth] at hhigh
  exact ⟨m, yd - daysBeforeMonth y m + 1, hm, by omega, by omega, by omega⟩

end RtThread.Lib.Gregorian
