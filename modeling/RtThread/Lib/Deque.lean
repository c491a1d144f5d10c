import Mathlib.Data.List.Range
import Mathlib.Data.Nat.ModEq
import Mathlib.Logic.Function.Basic
import RtThread.Lib.Transition

/-!
# Bounded double-ended queues and rings

A bounded double-ended queue is a list with four operations. A ring represents such a list by a pool
of `size` places, the place of the first element and the number of elements.
-/

namespace RtThread.Lib

open Function List Nat

/-- The operations of a double-ended queue, with the value that is put or taken. -/
inductive DequeOp (α : Type*) where
  | pushBack (value : α)
  | pushFront (value : α)
  | popFront (value : α)
  | clear

/-- The double-ended queue of at most `size` elements. -/
def boundedDeque (α : Type*) (size : ℕ) : TransitionSystem (List α) (DequeOp α) where
  init queue := queue = []
  step queue op queue' := match op with
    | .pushBack value => queue.length < size ∧ queue' = queue ++ [value]
    | .pushFront value => queue.length < size ∧ queue' = value :: queue
    | .popFront value => queue = value :: queue'
    | .clear => queue' = []

/-- The elements of a ring. -/
def ringList {α : Type*} (pool : ℕ → α) (size start count : ℕ) : List α :=
  (List.range count).map fun i => pool ((start + i) % size)

variable {α : Type*} {pool : ℕ → α} {size start count : ℕ}

/-- A ring holds as many elements as it counts. -/
@[simp] theorem length_ringList : (ringList pool size start count).length = count := by
  simp [ringList]

/-- Two places of a ring that are less than `size` apart differ. -/
theorem ring_index_ne {i j : ℕ} (hi : i < size) (hj : j < size) (hij : i ≠ j) :
    (start + i) % size ≠ (start + j) % size := by
  intro heq
  have hmod : i ≡ j [MOD size] := Nat.ModEq.add_left_cancel' start heq
  exact hij (by rwa [Nat.ModEq, mod_eq_of_lt hi, mod_eq_of_lt hj] at hmod)

/-- A place that is not counted may be written. -/
theorem ringList_update {index : ℕ} {value : α} (hindex : ∀ i < count, (start + i) % size ≠ index) :
    ringList (Function.update pool index value) size start count = ringList pool size start count := by
  refine map_congr_left fun i hi => ?_
  exact update_of_ne (hindex i (mem_range.mp hi)) _ _

/-- Another element at the end. -/
theorem ringList_pushBack {value : α} (hroom : count < size) :
    ringList (Function.update pool ((start + count) % size) value) size start (count + 1) =
      ringList pool size start count ++ [value] := by
  have hold : ringList (Function.update pool ((start + count) % size) value) size start count =
      ringList pool size start count :=
    ringList_update fun i hi => ring_index_ne (hi.trans hroom) hroom hi.ne
  rw [← hold]
  simp [ringList, range_succ]

/-- A block of elements at the end, in a pool that keeps the elements before. -/
theorem ringList_append {pool' : ℕ → α} {block : List α}
    (hold : ∀ i < count, pool' ((start + i) % size) = pool ((start + i) % size))
    (hnew : ∀ i (h : i < block.length), pool' ((start + count + i) % size) = block[i]) :
    ringList pool' size start (count + block.length) = ringList pool size start count ++ block := by
  unfold ringList
  rw [range_add, map_append]
  congr 1
  · exact map_congr_left fun i hi => hold i (mem_range.mp hi)
  · refine ext_getElem (by simp) fun i _ hi => ?_
    simpa [add_assoc] using hnew i hi

/-- The elements after the first `n`. -/
theorem ringList_drop (n : ℕ) : (ringList pool size start count).drop n =
    ringList pool size ((start + n) % size) (count - n) := by
  refine ext_getElem (by simp) fun i _ _ => ?_
  simp [ringList, add_assoc]

/-- The first `n` elements. -/
theorem ringList_take (n : ℕ) :
    (ringList pool size start count).take n = ringList pool size start (min n count) := by
  simp [ringList, ← map_take]

/-- The first element, and the others. -/
theorem ringList_succ : ringList pool size start (count + 1) =
    pool (start % size) :: ringList pool size ((start + 1) % size) count := by
  simp [ringList, range_succ_eq_map, add_assoc, add_comm 1]

/-- Another element at the beginning. -/
theorem ringList_pushFront {first : ℕ} {value : α} (hroom : count < size) (hfirst : first < size)
    (hstart : (first + 1) % size = start) :
    ringList (Function.update pool first value) size first (count + 1) =
      value :: ringList pool size start count := by
  rw [ringList_succ, mod_eq_of_lt hfirst, update_self, hstart]
  congr 1
  refine ringList_update fun i hi => ?_
  have hne : (first + (1 + i)) % size ≠ (first + 0) % size :=
    ring_index_ne (by omega) (by omega) (by omega)
  rwa [add_zero, mod_eq_of_lt hfirst, ← add_assoc, ← mod_add_mod, hstart] at hne

end RtThread.Lib
