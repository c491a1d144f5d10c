import Mathlib.Tactic.Ring
import Mathlib.Algebra.Order.Ring.Nat

/-!
# The 64-bit target

Every configuration in the repository defines `ARCH_CPU_64BIT` and `RT_ALIGN_SIZE` 8, so
`rt_ubase_t`, `rt_size_t` and pointers are 64-bit unsigned words. Arithmetic on them wraps; the
two rules below turn a wrapping operation into the plain one where the operands are in range.
-/

namespace RtThread

/-- The number of values of an `rt_size_t`. -/
abbrev wordLimit : ℕ := 2 ^ 64

/-- Unsigned addition on `rt_size_t`. -/
def wordAdd (a b : ℕ) : ℕ := (a + b) % wordLimit

/-- Unsigned subtraction on `rt_size_t`; both operands are words. -/
def wordSub (a b : ℕ) : ℕ := (a + wordLimit - b) % wordLimit

/-- Unsigned multiplication on `rt_size_t`. -/
def wordMul (a b : ℕ) : ℕ := a * b % wordLimit

/-- The bitwise complement of an `rt_size_t`. -/
def wordNot (a : ℕ) : ℕ := wordLimit - 1 - a

/-- `RT_ALIGN(size, RT_ALIGN_SIZE)`: the sum wraps before the low bits are masked. -/
def rtAlign (size : ℕ) : ℕ := wordAdd size 7 / 8 * 8

/-- `RT_ALIGN_DOWN(size, RT_ALIGN_SIZE)`. -/
def rtAlignDown (size : ℕ) : ℕ := size / 8 * 8

/-- A sum that fits the word is exact. -/
theorem wordAdd_of_lt {a b : ℕ} (h : a + b < 2 ^ 64) : wordAdd a b = a + b :=
  Nat.mod_eq_of_lt h

/-- A difference of words that is not negative is exact. -/
theorem wordSub_of_le {a b : ℕ} (h : b ≤ a) (ha : a < 2 ^ 64) : wordSub a b = a - b := by
  unfold wordSub wordLimit
  omega

/-- Masking with the complement of the low `k` bits clears them. -/
theorem and_wordNot_two_pow {a k : ℕ} (ha : a < 2 ^ 64) (hk : k ≤ 64) :
    a &&& wordNot (2 ^ k - 1) = a / 2 ^ k * 2 ^ k := by
  have hpow : 2 ^ 64 = 2 ^ (64 - k) * 2 ^ k := by rw [← pow_add, Nat.sub_add_cancel hk]
  have hmask : wordNot (2 ^ k - 1) = (2 ^ (64 - k) - 1) * 2 ^ k := by
    have hpos := Nat.two_pow_pos k
    rw [wordNot, wordLimit, Nat.sub_mul]
    omega
  rw [hmask, ← Nat.shiftLeft_eq, ← Nat.shiftLeft_eq]
  refine Nat.eq_of_testBit_eq fun i => ?_
  rw [Nat.testBit_and, Nat.testBit_shiftLeft, Nat.testBit_shiftLeft,
    Nat.testBit_div_two_pow]
  by_cases hi : k ≤ i
  · have hback : i - k + k = i := Nat.sub_add_cancel hi
    by_cases hhigh : i - k < 64 - k
    · simp [hi, hhigh]
    · have hbit : a.testBit i = false :=
        Nat.testBit_lt_two_pow (ha.trans_le (Nat.pow_le_pow_right (by decide) (by omega)))
      simp [hi, hbit]
  · simp [hi]

/-- Rounding up yields a multiple of the alignment. -/
theorem rtAlign_mod (size : ℕ) : rtAlign size % 8 = 0 := by
  unfold rtAlign
  omega

/-- Rounding up yields a word. -/
theorem rtAlign_lt (size : ℕ) : rtAlign size < 2 ^ 64 := by
  unfold rtAlign wordAdd wordLimit
  omega

/-- An aligned word is its own rounding. -/
theorem rtAlign_of_mod {size : ℕ} (hmod : size % 8 = 0) (h : size < 2 ^ 64) : rtAlign size = size := by
  unfold rtAlign wordAdd wordLimit
  omega

end RtThread
