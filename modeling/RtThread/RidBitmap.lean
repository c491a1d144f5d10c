import Mathlib.Data.BitVec
import Mathlib.Data.Set.Insert
import RtThread.Completion.Basic
import RtThread.Lib.Transition

/-!
# Ids from a bitmap

Bit `i` stands for the id `min_id + i`. `rid_bitmap_get_named` and `rid_bitmap_put` compare the bit with
`min_id` instead of zero: with any other base the lower ids cannot be named and are never put back.
-/

namespace RtThread.RidBitmap

open Lib Completion Function

/-- `rt_bitmap_t *`. -/
abbrev Bitmap := ℕ → BitVec 64

/-- `rt_bitmap_set_bit`. -/
def setBit (b : Bitmap) (bit : ℕ) : Bitmap := update b (bit / 64) (b (bit / 64) ||| .twoPow 64 (bit % 64))

/-- `rt_bitmap_test_bit`. -/
def testBit (b : Bitmap) (bit : ℕ) : Bool := (b (bit / 64)).getLsbD (bit % 64)

/-- `rt_bitmap_clear_bit`. -/
def clearBit (b : Bitmap) (bit : ℕ) : Bitmap := update b (bit / 64) (b (bit / 64) &&& ~~~.twoPow 64 (bit % 64))

/-- The loop of `rt_bitmap_next_clear_bit`, with the number of bits that are left. -/
def nextClearBit (b : Bitmap) : ℕ → ℕ → ℕ
  | 0, bit => bit
  | left + 1, bit => if testBit b bit then nextClearBit b left (bit + 1) else bit

/-- What `rid_bitmap_init` is given. The count is a positive `int`, so every bit is a `rt_uint32_t`. -/
structure Mgr where
  minId : ℕ
  totalIdCount : ℕ
  pos : 0 < totalIdCount
  isInt : totalIdCount < 2 ^ 31

variable {b : Bitmap} {m : Mgr} {i j bit left : ℕ} {no : ℤ} {held : Set ℤ}

namespace Mgr

/-- `rid_bitmap_get`. -/
def get (m : Mgr) (b : Bitmap) : Bitmap × ℤ :=
  let id := nextClearBit b m.totalIdCount 0
  if id = m.totalIdCount then (b, -1) else (setBit b id, id + m.minId)

/-- `rid_bitmap_get_named`. -/
def getNamed (m : Mgr) (b : Bitmap) (no : ℤ) : Bitmap × ℤ :=
  let idRelative := no - m.minId
  if idRelative ≥ m.minId ∧ idRelative < m.totalIdCount then
    if testBit b idRelative.toNat then (b, -rtEbusy)
    else (setBit b idRelative.toNat, idRelative + m.minId)
  else (b, -1)

/-- `rid_bitmap_put`. -/
def put (m : Mgr) (b : Bitmap) (no : ℤ) : Bitmap :=
  let idRelative := no - m.minId
  if idRelative ≥ m.minId ∧ idRelative < m.totalIdCount ∧ testBit b idRelative.toNat then
    clearBit b idRelative.toNat
  else b

end Mgr

/-- The calls. -/
inductive Op where
  | get
  | getNamed (no : ℤ)
  | put (no : ℤ)

/-- The ids that a call may name. -/
def Op.InRange (m : Mgr) : Op → Prop
  | .get => True
  | .getNamed no | .put no => m.minId ≤ no ∧ no < m.minId + m.totalIdCount

/-- A call, with the ids that are handed out and not put back. -/
def Mgr.next (m : Mgr) (s : Bitmap × Set ℤ) : Op → Bitmap × Set ℤ
  | .get => ((m.get s.1).1, if (m.get s.1).2 = -1 then s.2 else insert (m.get s.1).2 s.2)
  | .getNamed no => ((m.getNamed s.1 no).1, if (m.getNamed s.1 no).2 = no then insert no s.2 else s.2)
  | .put no => (m.put s.1 no, s.2 \ {no})

/-- The sequences of calls on a clear bitmap. -/
def Mgr.runs (m : Mgr) : TransitionSystem (Bitmap × Set ℤ) Op where
  init s := s = (fun _ => 0, ∅)
  step s op s' := op.InRange m ∧ s' = m.next s op

/-- The bits are the ids that are held; an id is refused exactly when it is held, and none is given twice. -/
structure Mgr.Exact (m : Mgr) (b : Bitmap) (held : Set ℤ) : Prop where
  bits : ∀ i < m.totalIdCount, testBit b i = true ↔ (m.minId + i : ℤ) ∈ held
  get : (m.get b).2 = -1 ↔ ∀ i < m.totalIdCount, (m.minId + i : ℤ) ∈ held
  fresh : (m.get b).2 ≠ -1 → (m.get b).2 ∉ held
  named : ∀ i < m.totalIdCount, (m.getNamed b (m.minId + i)).2 = m.minId + i ↔ (m.minId + i : ℤ) ∉ held

/-- The bits after one is set. -/
theorem testBit_setBit : testBit (setBit b i) j = (decide (j = i) || testBit b j) := by
  unfold testBit setBit
  by_cases hword : j / 64 = i / 64
  · have hbit : j % 64 = i % 64 ↔ j = i := by omega
    simp [hword, Nat.mod_lt, hbit, Bool.or_comm]
  · have hne : j ≠ i := fun h => hword (by rw [h])
    simp [update_of_ne hword, hne]

/-- The bits after one is cleared. -/
theorem testBit_clearBit : testBit (clearBit b i) j = (decide (j ≠ i) && testBit b j) := by
  unfold testBit clearBit
  by_cases hword : j / 64 = i / 64
  · have hbit : j % 64 = i % 64 ↔ j = i := by omega
    simp [hword, Nat.mod_lt, hbit, Bool.and_comm]
  · have hne : j ≠ i := fun h => hword (by rw [h])
    simp [update_of_ne hword, hne]

/-- The search finds a clear bit, or every bit is set. -/
theorem nextClearBit_cases (b : Bitmap) (left bit : ℕ) :
    nextClearBit b left bit = bit + left ∧ (∀ j, bit ≤ j → j < bit + left → testBit b j = true) ∨
      nextClearBit b left bit < bit + left ∧ testBit b (nextClearBit b left bit) = false := by
  induction left generalizing bit with
  | zero => exact .inl ⟨rfl, fun j hj hlt => absurd hlt (Nat.not_lt.mpr hj)⟩
  | succ left ih =>
    rw [nextClearBit]
    split
    next hset =>
      obtain ⟨heq, hall⟩ | ⟨hlt, hclear⟩ := ih (bit + 1)
      · refine .inl ⟨by omega, fun j hj hlt => ?_⟩
        obtain rfl | hj := hj.eq_or_lt
        · exact hset
        · exact hall j hj (by omega)
      · exact .inr ⟨by omega, hclear⟩
    next hclear => exact .inr ⟨by omega, by simpa using hclear⟩

/-- `rid_bitmap_get` refuses when every bit is set, and sets a clear bit otherwise. -/
theorem get_cases (m : Mgr) (b : Bitmap) : (∀ i < m.totalIdCount, testBit b i = true) ∧ m.get b = (b, -1) ∨
      ∃ i < m.totalIdCount, testBit b i = false ∧ m.get b = (setBit b i, (i + m.minId : ℤ)) := by
  obtain ⟨heq, hall⟩ | ⟨hlt, hclear⟩ := nextClearBit_cases b m.totalIdCount 0 <;> rw [Nat.zero_add] at *
  · exact .inl ⟨fun i => hall i (Nat.zero_le i), if_pos heq⟩
  · exact .inr ⟨_, hlt, hclear, if_neg hlt.ne⟩

/-- With the base zero the bits say what the calls return. -/
theorem exact_of_bits (hmin : m.minId = 0) (h : ∀ i < m.totalIdCount, testBit b i = true ↔ (i : ℤ) ∈ held) :
    m.Exact b held := by
  have hbits : ∀ i < m.totalIdCount, testBit b i = true ↔ (m.minId + i : ℤ) ∈ held := by simpa [hmin] using h
  have hnamed : ∀ i < m.totalIdCount,
      (m.getNamed b (m.minId + i)).2 = m.minId + i ↔ (m.minId + i : ℤ) ∉ held := by
    intro i hi
    rw [← hbits i hi]
    by_cases hset : testBit b i = true <;> simp [Mgr.getNamed, hmin, hi, hset, rtEbusy]
  obtain ⟨hall, hget⟩ | ⟨i, hi, hclear, hget⟩ := get_cases m b
  · exact ⟨hbits, iff_of_true (by rw [hget]) fun i hi => (hbits i hi).mp (hall i hi), by simp [hget], hnamed⟩
  · have hfree : (m.minId + i : ℤ) ∉ held := by simp [← hbits i hi, hclear]
    exact ⟨hbits, iff_of_false (by rw [hget]; omega) fun hheld => hfree (hheld i hi),
      fun _ => by rwa [hget, add_comm], hnamed⟩

/-- With the base zero a call keeps the bits. -/
theorem bits_next (hmin : m.minId = 0) {s : Bitmap × Set ℤ} {op : Op} (hrange : op.InRange m)
    (h : ∀ i < m.totalIdCount, testBit s.1 i = true ↔ (i : ℤ) ∈ s.2) :
    ∀ i < m.totalIdCount, testBit (m.next s op).1 i = true ↔ (i : ℤ) ∈ (m.next s op).2 := by
  intro i hi
  have hi' := h i hi
  cases op with
  | get =>
    obtain ⟨-, hget⟩ | ⟨n, -, -, hget⟩ := get_cases m s.1
    · simpa [Mgr.next, hget] using hi'
    · have hne : (n : ℤ) ≠ -1 := by omega
      simpa [Mgr.next, hget, hmin, testBit_setBit] using or_congr_right hi'
  | getNamed no | put no =>
    obtain ⟨n, rfl⟩ := Int.eq_ofNat_of_zero_le ((Int.natCast_nonneg _).trans hrange.1)
    have hn : n < m.totalIdCount := by simpa [hmin] using hrange.2
    have hbusy : -rtEbusy ≠ n := by unfold rtEbusy; omega
    by_cases hset : testBit s.1 n = true <;>
      simp [Mgr.next, Mgr.getNamed, Mgr.put, hmin, hset, hn, testBit_setBit, testBit_clearBit] <;> grind

/-- The bits are exact in every run if and only if the base is zero. -/
theorem ids_exact_iff (m : Mgr) : (∀ s, m.runs.Reachable s → m.Exact s.1 s.2) ↔ m.minId = 0 := by
  refine ⟨fun h => ?_, fun hmin s hs => exact_of_bits hmin ?_⟩
  · have hnamed := (h _ (.init rfl)).named 0 m.pos
    by_contra hne
    simp [Mgr.getNamed, hne] at hnamed
  · refine hs.invariant (I := fun s => ∀ i < m.totalIdCount, testBit s.1 i = true ↔ (i : ℤ) ∈ s.2) ?_ ?_
    · rintro _ rfl
      simp [testBit]
    · rintro s op _ hbits ⟨hrange, rfl⟩
      exact bits_next hmin hrange hbits

/-- Four ids from 10 on. -/
def fourIds : Mgr := ⟨10, 4, by decide, by decide⟩

/-- Id 10 is handed out and put back, and its bit stays set; id 11 cannot be named. -/
theorem put_keeps_bit : ∃ s : Bitmap × Set ℤ, fourIds.runs.Reachable s ∧ testBit s.1 0 = true ∧
    10 ∉ s.2 ∧ 11 ∉ s.2 ∧ (fourIds.getNamed s.1 11).2 = -1 := by
  have hget := (TransitionSystem.Reachable.init (M := fourIds.runs) rfl).step (e := Op.get) ⟨trivial, rfl⟩
  exact ⟨_, hget.step (e := .put 10) ⟨by simp [Op.InRange, fourIds], rfl⟩, by decide, by simp [Mgr.next],
    by simp [Mgr.next, Mgr.get, nextClearBit, testBit, fourIds], by decide⟩

end RtThread.RidBitmap
