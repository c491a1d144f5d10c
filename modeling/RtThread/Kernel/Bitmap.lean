import RtThread.Kernel.SchedComm
import Mathlib.Data.Nat.Bitwise
import Mathlib.Tactic.IntervalCases

/-!
# The ready bitmap

The bitmap stands for the set of priorities that have a ready thread: one 32-bit word up to 32
levels, a word over 32 bytes above. Setting and clearing the bits of a thread adds and removes its
priority, and `__rt_ffs` finds the smallest member.
-/

namespace RtThread.Kernel

open Function

section Ffs

/-- The byte table gives the lowest set bit. -/
theorem lowestBitBitmap_spec : ∀ n < 256, n ≠ 0 →
    lowestBitBitmap.getD n 0 < 8 ∧ n.testBit (lowestBitBitmap.getD n 0) = true ∧
      ∀ j < lowestBitBitmap.getD n 0, n.testBit j = false := by
  decide +kernel

/-- Byte `k` of a word. -/
def byteOf (value : BitVec 32) (k : ℕ) : ℕ := value.toNat / 2 ^ (8 * k) % 2 ^ 8

/-- A byte is below 256. -/
theorem byteOf_lt (value : BitVec 32) (k : ℕ) : byteOf value k < 256 := Nat.mod_lt _ (by decide)

/-- The bits of a byte are those of the word. -/
theorem testBit_byteOf (value : BitVec 32) (k j : ℕ) :
    (byteOf value k).testBit j = (decide (j < 8) && value.getLsbD (8 * k + j)) := by
  rw [byteOf, Nat.testBit_mod_two_pow, Nat.testBit_div_two_pow, BitVec.testBit_toNat, add_comm]

/-- Masking out byte `k` and shifting it down reads that byte. -/
theorem toNat_byte {value mask : BitVec 32} {k : ℕ}
    (hmask : ∀ i < 32, mask.getLsbD i = (decide (8 * k ≤ i) && decide (i < 8 * k + 8))) :
    ((value &&& mask) >>> (8 * k)).toNat = byteOf value k := by
  apply Nat.eq_of_testBit_eq
  intro i
  rw [testBit_byteOf, BitVec.testBit_toNat, BitVec.getLsbD_ushiftRight, BitVec.getLsbD_and]
  by_cases hi : 8 * k + i < 32
  · rw [hmask _ hi, Bool.and_comm]
    simp
  · rw [BitVec.getLsbD_of_ge value _ (by omega)]
    simp

/-- A masked word is zero exactly when the byte is. -/
theorem and_mask_eq_zero {value mask : BitVec 32} {k : ℕ}
    (hmask : ∀ i < 32, mask.getLsbD i = (decide (8 * k ≤ i) && decide (i < 8 * k + 8))) :
    value &&& mask = 0 ↔ byteOf value k = 0 := by
  constructor
  · intro h
    rw [← toNat_byte hmask, h]
    simp
  · intro h
    apply BitVec.eq_of_getLsbD_eq
    intro i hi
    rw [BitVec.getLsbD_and, hmask i hi]
    have hbit := testBit_byteOf value k (i - 8 * k)
    rw [h] at hbit
    by_cases hrange : 8 * k ≤ i ∧ i < 8 * k + 8
    · rw [show 8 * k + (i - 8 * k) = i by omega, decide_eq_true (by omega), Bool.true_and] at hbit
      rw [← hbit]
      simp
    · rw [show (decide (8 * k ≤ i) && decide (i < 8 * k + 8)) = false by simpa using hrange]
      simp

/-- What a search of the bits found: `found` is the lowest set one. -/
def LowestBit (value : BitVec 32) (found : ℕ) : Prop :=
  value.getLsbD found = true ∧ ∀ j < found, value.getLsbD j = false

/-- The lowest bit of the first byte that is not zero is the lowest bit of the word. -/
theorem lowestBit_of_byte {value : BitVec 32} {k : ℕ} (hlow : ∀ i < k, byteOf value i = 0)
    (hbyte : byteOf value k ≠ 0) : LowestBit value (8 * k + lowestBitBitmap.getD (byteOf value k) 0) := by
  obtain ⟨hfound, hset, hbelow⟩ := lowestBitBitmap_spec _ (byteOf_lt value k) hbyte
  constructor
  · rw [testBit_byteOf, decide_eq_true hfound] at hset
    exact hset
  · intro j hj
    by_cases hsame : 8 * k ≤ j
    · have hbit := hbelow (j - 8 * k) (by omega)
      rw [testBit_byteOf, decide_eq_true (by omega)] at hbit
      rwa [show 8 * k + (j - 8 * k) = j by omega] at hbit
    · have hbit := testBit_byteOf value (j / 8) (j % 8)
      rw [hlow (j / 8) (by omega), Nat.zero_testBit, decide_eq_true (by omega)] at hbit
      rw [show 8 * (j / 8) + j % 8 = j by omega] at hbit
      exact hbit.symm

/-- A word whose four bytes are zero is zero. -/
theorem eq_zero_of_bytes {value : BitVec 32} (h : ∀ k < 4, byteOf value k = 0) : value = 0 := by
  apply BitVec.eq_of_getLsbD_eq
  intro i hi
  have hbit := testBit_byteOf value (i / 8) (i % 8)
  rw [h (i / 8) (by omega), decide_eq_true (by omega), Bool.true_and,
    show 8 * (i / 8) + i % 8 = i by omega] at hbit
  rw [← hbit]
  simp

/-- `__rt_ffs` of a word that is not zero is one more than its lowest set bit. -/
theorem rtFfs_spec {value : BitVec 32} (h : value ≠ 0) :
    ∃ found < 32, rtFfs value = found + 1 ∧ LowestBit value found := by
  -- the first byte that is not zero decides
  have hbyte : ∃ k, k < 4 ∧ byteOf value k ≠ 0 := by
    by_contra! hall
    exact h (eq_zero_of_bytes hall)
  obtain ⟨hk, hne⟩ := Nat.find_spec hbyte
  have hlow : ∀ i < Nat.find hbyte, byteOf value i = 0 := fun i hi => by
    simpa [hi.trans hk] using Nat.find_min hbyte hi
  have hfound := (lowestBitBitmap_spec _ (byteOf_lt value _) hne).1
  refine ⟨_, by omega, ?_, lowestBit_of_byte hlow hne⟩
  generalize Nat.find hbyte = k at *
  have h0 : ∀ i < 32, (0xff : BitVec 32).getLsbD i =
      (decide (8 * 0 ≤ i) && decide (i < 8 * 0 + 8)) := by decide
  have h1 : ∀ i < 32, (0xff00 : BitVec 32).getLsbD i =
      (decide (8 * 1 ≤ i) && decide (i < 8 * 1 + 8)) := by decide
  have h2 : ∀ i < 32, (0xff0000 : BitVec 32).getLsbD i =
      (decide (8 * 2 ≤ i) && decide (i < 8 * 2 + 8)) := by decide
  have h3 : ∀ i < 32, (0xff000000 : BitVec 32).getLsbD i =
      (decide (8 * 3 ≤ i) && decide (i < 8 * 3 + 8)) := by decide
  have hffs : rtFfs value = if byteOf value 0 ≠ 0 then lowestBitBitmap.getD (byteOf value 0) 0 + 1
      else if byteOf value 1 ≠ 0 then lowestBitBitmap.getD (byteOf value 1) 0 + 9
      else if byteOf value 2 ≠ 0 then lowestBitBitmap.getD (byteOf value 2) 0 + 17
      else lowestBitBitmap.getD (byteOf value 3) 0 + 25 := by
    simp only [rtFfs, if_neg h, ne_eq, and_mask_eq_zero h0, and_mask_eq_zero h1, and_mask_eq_zero h2]
    rw [← toNat_byte h0, ← toNat_byte h1, ← toNat_byte h2, ← toNat_byte h3]
    simp
  rw [hffs]
  interval_cases k
  · rw [if_pos hne, Nat.zero_add]
  · rw [if_neg (by simp [hlow]), if_pos hne, Nat.add_comm 8]
  · rw [if_neg (by simp [hlow]), if_neg (by simp [hlow]), if_pos hne, Nat.add_comm 16]
  · rw [if_neg (by simp [hlow]), if_neg (by simp [hlow]), if_neg (by simp [hlow]), Nat.add_comm 24]

end Ffs

namespace Sched

variable {T : Type*} {s : Sched T} {P : ℕ → Prop} {thread : T} {p : ℕ}

/-- Bit `p` of the ready bitmap. -/
def readyBit (s : Sched T) (p : ℕ) : Bool :=
  if 32 < s.priorityMax then
    s.readyPriorityGroup.getLsbD (p / 8) && (s.readyTable (p / 8)).getLsbD (p % 8)
  else s.readyPriorityGroup.getLsbD p

/-- The number of bits of the bitmap. -/
def bitmapSize (s : Sched T) : ℕ := if 32 < s.priorityMax then 256 else 32

/-- The bitmap stands for the set `P`; in two stages, a group bit is set when its byte is not
zero. -/
structure Represents (s : Sched T) (P : ℕ → Prop) : Prop where
  bit : ∀ p < s.bitmapSize, s.readyBit p = true ↔ P p
  group : 32 < s.priorityMax → ∀ n < 32,
    s.readyPriorityGroup.getLsbD n = true ↔ s.readyTable n ≠ 0

/-- The cached masks of a thread are those of priority `p`. -/
structure MasksFor (s : Sched T) (thread : T) (p : ℕ) : Prop where
  narrow : ¬ 32 < s.priorityMax → s.numberMask thread = 1#32 <<< p
  number : 32 < s.priorityMax → s.number thread = p / 8
  numberMask : 32 < s.priorityMax → s.numberMask thread = 1#32 <<< (p / 8)
  highMask : 32 < s.priorityMax → s.highMask thread = 1#8 <<< (p % 8)

/-- The masks are all that `MasksFor` reads. -/
theorem MasksFor.congr {s' : Sched T} (h : s.MasksFor thread p)
    (hmax : s'.priorityMax = s.priorityMax) (hnumber : s'.number thread = s.number thread)
    (hnumberMask : s'.numberMask thread = s.numberMask thread)
    (hhighMask : s'.highMask thread = s.highMask thread) : s'.MasksFor thread p := by
  constructor <;> rw [hmax]
  · rw [hnumberMask]
    exact h.narrow
  · rw [hnumber]
    exact h.number
  · rw [hnumberMask]
    exact h.numberMask
  · rw [hhighMask]
    exact h.highMask

/-- The words of the bitmap are all that `Represents` reads. -/
theorem Represents.congr {s' : Sched T} {Q : ℕ → Prop} (h : s.Represents P)
    (hmax : s'.priorityMax = s.priorityMax)
    (hgroup : s'.readyPriorityGroup = s.readyPriorityGroup) (htable : s'.readyTable = s.readyTable)
    (hiff : ∀ p, Q p ↔ P p) : s'.Represents Q := by
  constructor
  · intro p hp
    rw [hiff, readyBit, hmax, hgroup, htable]
    exact h.bit p (by rwa [bitmapSize, hmax] at hp)
  · rw [hmax, hgroup, htable]
    exact h.group

/-- Recalculating the masks gives those of the current priority. -/
theorem masksFor_setMasks [DecidableEq T] (s : Sched T) (thread : T) :
    (s.setMasks thread).MasksFor thread (s.currentPriority thread) := by
  unfold setMasks
  by_cases h : 32 < s.priorityMax
  · constructor <;> simp [h]
  · constructor <;> simp [h]

/-- Recalculating the masks of a thread leaves the other fields. -/
theorem setMasks_eq [DecidableEq T] (s : Sched T) (thread : T) : s.setMasks thread = { s with
      number := (s.setMasks thread).number
      numberMask := (s.setMasks thread).numberMask
      highMask := (s.setMasks thread).highMask } := by
  unfold setMasks
  split <;> rfl

/-- Recalculating the masks leaves the priorities. -/
@[simp] theorem setMasks_currentPriority [DecidableEq T] (s : Sched T) (thread : T) :
    (s.setMasks thread).currentPriority = s.currentPriority := by
  rw [setMasks_eq]

/-- Recalculating the masks of a thread leaves those of the others. -/
theorem MasksFor.setMasks [DecidableEq T] {t : T} (h : s.MasksFor t p) (ht : t ≠ thread) :
    (s.setMasks thread).MasksFor t p := by
  by_cases hwide : 32 < s.priorityMax
  · rw [Sched.setMasks, if_pos hwide]
    exact h.congr rfl (update_of_ne ht ..) (update_of_ne ht ..) (update_of_ne ht ..)
  · rw [Sched.setMasks, if_neg hwide]
    exact h.congr rfl rfl (update_of_ne ht ..) rfl

/-- A bit of the second stage implies its group bit, so it is the bit of the bitmap. -/
theorem Represents.wide_bit (hrep : s.Represents P) (hwide : 32 < s.priorityMax) {n b : ℕ}
    (hn : n < 32) (hb : b < 8) : (s.readyTable n).getLsbD b = true ↔ P (8 * n + b) := by
  have hsize : 8 * n + b < s.bitmapSize := by
    rw [bitmapSize, if_pos hwide]
    omega
  rw [← hrep.bit _ hsize, readyBit, if_pos hwide, show (8 * n + b) / 8 = n by omega,
    show (8 * n + b) % 8 = b by omega, Bool.and_eq_true]
  constructor
  · intro hbit
    refine ⟨(hrep.group hwide n hn).mpr ?_, hbit⟩
    intro hzero
    rw [hzero] at hbit
    simp at hbit
  · exact And.right

/-- The two stages from their bits. -/
theorem represents_wide (hwide : 32 < s.priorityMax)
    (hgroup : ∀ n < 32, s.readyPriorityGroup.getLsbD n = true ↔ s.readyTable n ≠ 0)
    (hbit : ∀ n < 32, ∀ b < 8, (s.readyTable n).getLsbD b = true ↔ P (8 * n + b)) : s.Represents P := by
  refine ⟨fun p hp => ?_, fun _ => hgroup⟩
  rw [bitmapSize, if_pos hwide] at hp
  have hbits := hbit (p / 8) (by omega) (p % 8) (by omega)
  rw [show 8 * (p / 8) + p % 8 = p by omega] at hbits
  rw [readyBit, if_pos hwide, Bool.and_eq_true, ← hbits]
  refine ⟨And.right, fun h => ⟨(hgroup _ (by omega)).mpr ?_, h⟩⟩
  intro hzero
  rw [hzero] at h
  simp at h

/-- One bit. -/
theorem getLsbD_one_shiftLeft {w p q : ℕ} (hp : p < w) : (1#w <<< p).getLsbD q = decide (p = q) := by
  rw [show 1#w <<< p = BitVec.twoPow w p from rfl, BitVec.getLsbD_twoPow, decide_eq_true hp, Bool.true_and]

/-- Setting one bit. -/
theorem getLsbD_set {w p q : ℕ} (x : BitVec w) (hp : p < w) :
    (x ||| 1#w <<< p).getLsbD q = true ↔ q = p ∨ x.getLsbD q = true := by
  rw [BitVec.getLsbD_or, getLsbD_one_shiftLeft hp, Bool.or_eq_true, or_comm, decide_eq_true_iff, eq_comm]

/-- Clearing one bit. -/
theorem getLsbD_clear {w p q : ℕ} (x : BitVec w) (hp : p < w) (hq : q < w) :
    (x &&& ~~~ (1#w <<< p)).getLsbD q = true ↔ q ≠ p ∧ x.getLsbD q = true := by
  rw [BitVec.getLsbD_and, BitVec.getLsbD_not, getLsbD_one_shiftLeft hp, Bool.and_eq_true, and_comm,
    decide_eq_true hq, Bool.true_and, Bool.not_eq_true', decide_eq_false_iff_not, ne_comm]

/-- Setting a bit of a byte makes it non-zero. -/
theorem or_one_shiftLeft_ne_zero {w p : ℕ} (x : BitVec w) (hp : p < w) : x ||| 1#w <<< p ≠ 0 := by
  intro h
  have hbit : (x ||| 1#w <<< p).getLsbD p = true := by
    exact (getLsbD_set x hp).mpr (.inl rfl)
  rw [h] at hbit
  simp at hbit

/-- Setting the bits of a thread adds its priority. -/
theorem Represents.setReadyBits (hrep : s.Represents P) (hmasks : s.MasksFor thread p)
    (hp : p < s.bitmapSize) : (s.setReadyBits thread).Represents (fun q => q = p ∨ P q) := by
  by_cases hwide : 32 < s.priorityMax
  · rw [bitmapSize, if_pos hwide] at hp
    simp only [Sched.setReadyBits, if_pos hwide, hmasks.number hwide, hmasks.numberMask hwide,
      hmasks.highMask hwide]
    refine represents_wide ?_ ?_ ?_
    · exact hwide
    · intro n hn
      dsimp only
      rw [getLsbD_set _ (by omega), hrep.group hwide n hn]
      by_cases hsame : n = p / 8
      · subst hsame
        rw [update_self]
        simp only [true_or, true_iff]
        exact or_one_shiftLeft_ne_zero _ (by omega)
      · simp [hsame]
    · intro n hn b hb
      dsimp only
      by_cases hsame : n = p / 8
      · subst hsame
        rw [update_self, getLsbD_set _ (by omega), hrep.wide_bit hwide hn hb,
          show b = p % 8 ↔ 8 * (p / 8) + b = p by omega]
      · rw [update_of_ne hsame, hrep.wide_bit hwide hn hb]
        simp [show 8 * n + b ≠ p by omega]
  · rw [bitmapSize, if_neg hwide] at hp
    refine ⟨fun q hq => ?_, fun h => absurd h (by simp [Sched.setReadyBits, hwide])⟩
    have hbit := hrep.bit q (by simpa [Sched.setReadyBits, hwide, bitmapSize] using hq)
    rw [readyBit, if_neg hwide] at hbit
    simp only [readyBit, Sched.setReadyBits, if_neg hwide, hmasks.narrow hwide]
    rw [getLsbD_set _ hp, hbit]

/-- Clearing the bits of a thread removes its priority. -/
theorem Represents.clearReadyBits (hrep : s.Represents P) (hmasks : s.MasksFor thread p)
    (hp : p < s.bitmapSize) : (s.clearReadyBits thread).Represents (fun q => q ≠ p ∧ P q) := by
  by_cases hwide : 32 < s.priorityMax
  · rw [bitmapSize, if_pos hwide] at hp
    have htable : (s.clearReadyBits thread).readyTable = update s.readyTable (p / 8)
        (s.readyTable (p / 8) &&& ~~~ (1#8 <<< (p % 8))) := by
      simp only [Sched.clearReadyBits, if_pos hwide, hmasks.number hwide, hmasks.highMask hwide]
      split <;> rfl
    have hgroup : ∀ n < 32, (s.clearReadyBits thread).readyPriorityGroup.getLsbD n = true ↔
        (s.clearReadyBits thread).readyTable n ≠ 0 := by
      intro n hn
      rw [htable]
      simp only [Sched.clearReadyBits, if_pos hwide, hmasks.number hwide, hmasks.highMask hwide,
        hmasks.numberMask hwide]
      by_cases hsame : n = p / 8
      · subst hsame
        rw [update_self]
        split
        next hzero =>
          simp [hzero]
        next hzero =>
          simp only [hzero, ne_eq, not_false_eq_true, iff_true]
          apply (hrep.group hwide _ hn).mpr
          intro h
          apply hzero
          rw [h]
          simp
      · rw [update_of_ne hsame, ← hrep.group hwide n hn]
        split
        · rw [getLsbD_clear _ (by omega) hn]
          simp [hsame]
        · rfl
    refine represents_wide ?_ hgroup ?_
    · simp only [Sched.clearReadyBits, if_pos hwide]
      split <;> exact hwide
    · intro n hn b hb
      rw [htable]
      by_cases hsame : n = p / 8
      · subst hsame
        rw [update_self, getLsbD_clear _ (by omega) hb, hrep.wide_bit hwide hn hb,
          show b ≠ p % 8 ↔ 8 * (p / 8) + b ≠ p by omega]
      · rw [update_of_ne hsame, hrep.wide_bit hwide hn hb]
        simp [show 8 * n + b ≠ p by omega]
  · rw [bitmapSize, if_neg hwide] at hp
    refine ⟨fun q hq => ?_, fun h => absurd h (by simp [Sched.clearReadyBits, hwide])⟩
    have hq' : q < 32 := by simpa [Sched.clearReadyBits, hwide, bitmapSize] using hq
    have hbit := hrep.bit q (by simpa [hwide, bitmapSize] using hq')
    rw [readyBit, if_neg hwide] at hbit
    simp only [readyBit, Sched.clearReadyBits, if_neg hwide, hmasks.narrow hwide]
    rw [getLsbD_clear _ hp hq', hbit]

/-- Clearing a bit that is clear. -/
theorem and_not_of_clear {w p : ℕ} (x : BitVec w) (hp : p < w) (h : x.getLsbD p = false) :
    x &&& ~~~ (1#w <<< p) = x := by
  apply BitVec.eq_of_getLsbD_eq
  intro q hq
  by_cases hsame : q = p
  · subst hsame
    rw [BitVec.getLsbD_and, h, Bool.false_and]
  · apply Bool.eq_iff_iff.mpr
    rw [getLsbD_clear x hp hq]
    simp [hsame]

/-- Clearing the bits of a priority that is not in the bitmap. -/
theorem Represents.clearReadyBits_of_not (hrep : s.Represents P) (hmasks : s.MasksFor thread p)
    (hp : p < s.bitmapSize) (hP : ¬ P p) : s.clearReadyBits thread = s := by
  by_cases hwide : 32 < s.priorityMax
  · rw [bitmapSize, if_pos hwide] at hp
    have hbit : (s.readyTable (p / 8)).getLsbD (p % 8) = false := by
      rw [← Bool.not_eq_true, hrep.wide_bit hwide (by omega) (by omega),
        show 8 * (p / 8) + p % 8 = p by omega]
      exact hP
    simp only [Sched.clearReadyBits, if_pos hwide, hmasks.number hwide, hmasks.highMask hwide,
      hmasks.numberMask hwide, and_not_of_clear _ (show p % 8 < 8 by omega) hbit, update_eq_self]
    split
    next hzero =>
      rw [and_not_of_clear _ (by omega)]
      rw [← Bool.not_eq_true, hrep.group hwide _ (by omega)]
      simp [hzero]
    · rfl
  · have hbit := (hrep.bit p hp).not.mpr hP
    rw [bitmapSize, if_neg hwide] at hp
    rw [readyBit, if_neg hwide, Bool.not_eq_true] at hbit
    rw [Sched.clearReadyBits, if_neg hwide, hmasks.narrow hwide, and_not_of_clear _ hp hbit]

/-- A bitmap that is not empty names its smallest member. -/
theorem Represents.highestReadyPriority (hrep : s.Represents P) (hgroup : s.readyPriorityGroup ≠ 0) :
    s.highestReadyPriority < s.bitmapSize ∧ P s.highestReadyPriority ∧
      ∀ q < s.bitmapSize, P q → s.highestReadyPriority ≤ q := by
  obtain ⟨n, hn, hffs, hset, hbelow⟩ := rtFfs_spec hgroup
  by_cases hwide : 32 < s.priorityMax
  · have htable : (s.readyTable n).setWidth 32 ≠ 0 := by
      intro h
      apply (hrep.group hwide n hn).mp hset
      apply BitVec.eq_of_getLsbD_eq
      intro i hi
      have hbit : ((s.readyTable n).setWidth 32).getLsbD i = false := by
        rw [h]
        simp
      simpa [show i < 32 by omega] using hbit
    obtain ⟨b, -, hffs', hset', hbelow'⟩ := rtFfs_spec htable
    rw [BitVec.getLsbD_setWidth, Bool.and_eq_true] at hset'
    have hb : b < 8 := by
      by_contra hb
      rw [BitVec.getLsbD_of_ge _ _ (by omega)] at hset'
      simp at hset'
    have hhigh : s.highestReadyPriority = 8 * n + b := by
      rw [Sched.highestReadyPriority, if_pos hwide]
      dsimp only
      rw [hffs, Nat.add_sub_cancel]
      omega
    rw [hhigh, bitmapSize, if_pos hwide]
    refine ⟨by omega, (hrep.wide_bit hwide hn hb).mp hset'.2, fun q hq hP => ?_⟩
    have hbit : (s.readyTable (q / 8)).getLsbD (q % 8) = true := by
      apply (hrep.wide_bit hwide (by omega) (by omega)).mpr
      rwa [show 8 * (q / 8) + q % 8 = q by omega]
    have hgroupBit : s.readyPriorityGroup.getLsbD (q / 8) = true := by
      apply (hrep.group hwide _ (by omega)).mpr
      intro h
      rw [h] at hbit
      simp at hbit
    have hle : n ≤ q / 8 := by
      by_contra hlt
      rw [hbelow _ (by omega)] at hgroupBit
      cases hgroupBit
    by_cases hsame : n = q / 8
    · have hle' : b ≤ q % 8 := by
        by_contra hlt
        have := hbelow' (q % 8) (by omega)
        rw [BitVec.getLsbD_setWidth, hsame, hbit] at this
        simp at this
        omega
      omega
    · omega
  · have hhigh : s.highestReadyPriority = n := by
      rw [Sched.highestReadyPriority, if_neg hwide, hffs, Nat.add_sub_cancel]
    have hbit : ∀ q < 32, s.readyPriorityGroup.getLsbD q = true ↔ P q := by
      intro q hq
      rw [← hrep.bit q (by rwa [bitmapSize, if_neg hwide]), readyBit, if_neg hwide]
    rw [hhigh, bitmapSize, if_neg hwide]
    refine ⟨hn, (hbit n hn).mp hset, fun q hq hP => ?_⟩
    by_contra hlt
    have := hbelow q (by omega)
    rw [(hbit q hq).mpr hP] at this
    cases this

/-- A bitmap with a member is not empty. -/
theorem Represents.group_ne_zero (hrep : s.Represents P) (hp : p < s.bitmapSize) (hP : P p) :
    s.readyPriorityGroup ≠ 0 := by
  intro h
  have hbit := (hrep.bit p hp).mpr hP
  rw [readyBit, h] at hbit
  split at hbit <;> simp at hbit

end Sched

end RtThread.Kernel
