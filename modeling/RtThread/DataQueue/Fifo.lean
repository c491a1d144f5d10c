import RtThread.DataQueue.Poppers

/-!
# The data queue as a bounded queue

The calls of a data queue that do not wait, against a list of at most `size` items. The indices are
15-bit fields, so they run through at most `2 ^ 15` places: a queue of that size or a smaller one is such
a list for every sequence of calls. The size is a 16-bit number, and a larger queue is full too early.
-/

namespace RtThread.DataQueue

open Kernel Lib List State

/-- A call that does not wait; `push` and `pop` are made with the timeout `0`. -/
inductive Op where
  | push (item : Item)
  | pop
  | peek
  | len
  | reset
  deriving DecidableEq

/-- What a call returns. -/
inductive Ret where
  | eok
  | etimeout
  | eempty
  | item (item : Item)
  | len (n : ℕ)
  deriving DecidableEq

namespace Queue

/-- `rt_data_queue_peek`. -/
def rtDataQueuePeek (q : Queue) : Ret := if q.isEmpty then .eempty else .item (q.queue q.getIndex)

/-- `rt_data_queue_reset`, when no thread waits. -/
def rtDataQueueReset (q : Queue) : Queue :=
  { q with getIndex := 0, putIndex := 0, isEmpty := true, isFull := false }

/-- A call that does not wait. -/
def exec (q : Queue) : Op → Queue × Ret
  | .push item => if q.isFull then (q, .etimeout) else (q.put item, .eok)
  | .pop => if q.isEmpty then (q, .etimeout) else (q.get.1, .item q.get.2)
  | .peek => (q, q.rtDataQueuePeek)
  | .len => (q, .len q.rtDataQueueLen)
  | .reset => (q.rtDataQueueReset, .eok)

/-- A sequence of calls, with what they return. -/
def execAll (q : Queue) : List Op → Queue × List Ret
  | [] => (q, [])
  | op :: ops =>
    let r := q.exec op
    let rest := r.1.execAll ops
    (rest.1, r.2 :: rest.2)

end Queue

/-- The call on a list of at most `size` items. -/
def Op.fifo (size : ℕ) (items : List Item) : Op → List Item × Ret
  | .push item => if items.length = size then (items, .etimeout) else (items ++ [item], .eok)
  | .pop =>
    match items with
    | [] => ([], .etimeout)
    | item :: rest => (rest, .item item)
  | .peek =>
    match items with
    | [] => ([], .eempty)
    | item :: rest => (item :: rest, .item item)
  | .len => (items, .len items.length)
  | .reset => ([], .eok)

/-- A sequence of calls on a list, with what they return. -/
def fifoAll (size : ℕ) (items : List Item) : List Op → List Item × List Ret
  | [] => (items, [])
  | op :: ops =>
    let r := op.fifo size items
    let rest := fifoAll size r.1 ops
    (rest.1, r.2 :: rest.2)

/-- The circular buffer denotes the list: it is in the places from `get_index` on, and the flags say
whether it is empty and whether it has `size` items. -/
structure Queue.Denotes (q : Queue) (items : List Item) : Prop where
  length_le : items.length ≤ q.size
  items_eq : ringList q.queue q.size q.getIndex items.length = items
  isFull_iff : q.isFull = true ↔ items.length = q.size
  isEmpty_iff : q.isEmpty = true ↔ items = []

/-- Every sequence of calls on a new queue returns what it returns on the empty list, and leaves a buffer
that denotes the list. -/
def RefinesFifo (size lwm : ℕ) : Prop :=
  ∀ ops, ((Queue.init size lwm).execAll ops).2 = (fifoAll size [] ops).2 ∧
    ((Queue.init size lwm).execAll ops).1.Denotes (fifoAll size [] ops).1

section Calls

variable {T : Type*} [DecidableEq T] {s : State T} {thread : T} {id : ℕ}

/-- The error code of a call that returns no item. -/
def Ret.code : Ret → ℤ
  | .etimeout => -rtEtimeout
  | _ => rtEok

/-- `rt_data_queue_push` with the timeout `0` does to the queue what the call does. -/
theorem rtDataQueuePush_zero (s : State T) (thread : T) (id : ℕ) (item : Item) :
    ∃ s' moved, s.rtDataQueuePush thread id item 0 =
        some (s', moved, some ((s.queue id).exec (.push item)).2.code) ∧
      s'.queue = Function.update s.queue id ((s.queue id).exec (.push item)).1 := by
  cases hfull : (s.queue id).isFull with
  | true =>
    simp only [rtDataQueuePush, Queue.exec, hfull]
    exact ⟨_, _, rfl, (Function.update_eq_self id s.queue).symm⟩
  | false =>
    simp only [rtDataQueuePush, Queue.exec, hfull, if_false]
    exact ⟨_, _, rfl, (wakePush_frame _ id).2⟩

/-- `rt_data_queue_pop` with the timeout `0` does to the queue what the call does. -/
theorem rtDataQueuePop_zero (s : State T) (thread : T) (id : ℕ) :
    ∃ s' moved, s.rtDataQueuePop thread id 0 = some (s', moved, some ((s.queue id).exec .pop).2.code) ∧
      s'.queue = Function.update s.queue id ((s.queue id).exec .pop).1 ∧
      ∀ item, ((s.queue id).exec .pop).2 = .item item ↔ moved = some (.got id item) := by
  cases hempty : (s.queue id).isEmpty with
  | true =>
    simp only [rtDataQueuePop, Queue.exec, hempty]
    exact ⟨_, _, rfl, (Function.update_eq_self id s.queue).symm, by simp⟩
  | false =>
    simp only [rtDataQueuePop, Queue.exec, hempty, Bool.false_eq_true, if_false]
    refine ⟨_, _, rfl, ?_, by simp⟩
    split_ifs
    · exact (wakePush_frame _ id).2
    · rfl

end Calls

namespace Queue

variable {q : Queue} {items : List Item}

/-- The calls keep the size. -/
theorem size_exec (q : Queue) (op : Op) : (q.exec op).1.size = q.size := by
  cases op with
  | push item =>
    simp only [exec]
    split_ifs
    · rfl
    · rw [put_def]
  | pop =>
    simp only [exec]
    split_ifs
    · rfl
    · rw [get_def]
  | _ => rfl

/-- A queue after a reset. -/
theorem Holds.reset (h : q.Holds items) : q.rtDataQueueReset.Holds [] where
  places_pos := h.places_pos
  get_lt := h.places_pos
  length_le := Nat.zero_le _
  put_eq := (Nat.zero_mod _).symm
  isEmpty_iff := by simp [rtDataQueueReset]
  isFull_iff := by
    have hpos := h.places_pos
    simp only [rtDataQueueReset, places, length_nil, Bool.false_eq_true, false_iff] at hpos ⊢
    omega
  items_eq := rfl

section

variable (h : q.Holds items) (hsize : q.size ≤ 2 ^ 15)
include h hsize

/-- The length is computed from the indices, which are equal for a full queue and for an empty one. -/
theorem Holds.len_eq : q.rtDataQueueLen = items.length := by
  have hplaces : q.places = q.size := Nat.min_eq_left hsize
  have hget := h.get_lt
  have hle := h.length_le
  have hput := h.put_eq
  rw [hplaces] at hget hle hput
  unfold rtDataQueueLen
  split_ifs with hempty hlt
  · exact (h.isEmpty_iff.mp hempty).symm
  · by_cases hwrap : q.getIndex + items.length < q.size
    · rw [Nat.mod_eq_of_lt hwrap] at hput
      omega
    · rw [Nat.mod_eq_sub_mod (by omega), Nat.mod_eq_of_lt (by omega)] at hput
      omega
  · have hpos : items.length ≠ 0 := fun hzero => hempty (h.isEmpty_iff.mpr hzero)
    by_cases hwrap : q.getIndex + items.length < q.size
    · rw [Nat.mod_eq_of_lt hwrap] at hput
      omega
    · rw [Nat.mod_eq_sub_mod (by omega), Nat.mod_eq_of_lt (by omega)] at hput
      omega

/-- One call returns what it returns on the list. -/
theorem Holds.exec (op : Op) :
    (q.exec op).1.Holds (op.fifo q.size items).1 ∧ (q.exec op).2 = (op.fifo q.size items).2 := by
  have hplaces : q.places = q.size := Nat.min_eq_left hsize
  have hfull := h.isFull_iff
  rw [hplaces] at hfull
  cases op with
  | push item =>
    unfold Queue.exec Op.fifo
    dsimp only
    by_cases hlast : items.length = q.size
    · rw [if_pos (hfull.mpr hlast), if_pos hlast]
      exact ⟨h, rfl⟩
    · have hroom : q.isFull = false := Bool.eq_false_iff.mpr fun hf => hlast (hfull.mp hf)
      rw [if_neg (by simp [hroom]), if_neg hlast]
      exact ⟨h.put hroom item, rfl⟩
  | pop =>
    unfold Queue.exec Op.fifo
    cases hempty : q.isEmpty with
    | true =>
      obtain rfl := length_eq_zero_iff.mp (h.isEmpty_iff.mp hempty)
      exact ⟨h, rfl⟩
    | false =>
      obtain ⟨rest, rfl, hrest⟩ := h.get hempty
      exact ⟨hrest, rfl⟩
  | peek =>
    unfold Queue.exec Op.fifo rtDataQueuePeek
    cases hempty : q.isEmpty with
    | true =>
      obtain rfl := length_eq_zero_iff.mp (h.isEmpty_iff.mp hempty)
      exact ⟨h, rfl⟩
    | false =>
      obtain ⟨rest, rfl, -⟩ := h.get hempty
      refine ⟨h, ?_⟩
      rfl
  | len => exact ⟨h, congrArg Ret.len (h.len_eq hsize)⟩
  | reset => exact ⟨h.reset, rfl⟩

/-- A sequence of calls. -/
theorem Holds.execAll (ops : List Op) :
    (q.execAll ops).1.Holds (fifoAll q.size items ops).1 ∧ (q.execAll ops).1.size = q.size ∧
      (q.execAll ops).2 = (fifoAll q.size items ops).2 := by
  induction ops generalizing q items with
  | nil => exact ⟨h, rfl, rfl⟩
  | cons op ops ih =>
    obtain ⟨hstep, hret⟩ := h.exec hsize op
    have hsame := size_exec q op
    obtain ⟨hrest, hkept, hrets⟩ := ih hstep (hsame ▸ hsize)
    rw [hsame] at hrest hkept hrets
    exact ⟨hrest, hkept, by simp only [Queue.execAll, fifoAll, hret, hrets]⟩

/-- A queue whose indices run through all its places denotes its items. -/
theorem Holds.denotes : q.Denotes items := by
  have hplaces : q.places = q.size := Nat.min_eq_left hsize
  refine ⟨hplaces ▸ h.length_le, hplaces ▸ h.items_eq, hplaces ▸ h.isFull_iff, ?_⟩
  rw [h.isEmpty_iff, length_eq_zero_iff]

end

/-- Pushes to a queue of more than `2 ^ 15` places, as long as the places that the indices reach have
room: the queue and the list grow alike. -/
theorem Holds.pushes {n : ℕ} (h : q.Holds items) (hsize : 2 ^ 15 < q.size) (hn : items.length + n ≤ 2 ^ 15)
    (item : Item) : (q.execAll (List.replicate n (.push item))).1.Holds (items ++ List.replicate n item) ∧
      (q.execAll (List.replicate n (.push item))).1.size = q.size ∧
      (fifoAll q.size items (List.replicate n (.push item))).1 = items ++ List.replicate n item := by
  induction n generalizing q items with
  | zero =>
    simp only [replicate_zero, append_nil]
    exact ⟨h, rfl, rfl⟩
  | succ n ih =>
    have hplaces : q.places = 2 ^ 15 := Nat.min_eq_right (by omega)
    have hroom : q.isFull = false := Bool.eq_false_iff.mpr fun hf => by
      have hlength := h.isFull_iff.mp hf
      omega
    have hexec : q.exec (.push item) = (q.put item, .eok) := by simp [Queue.exec, hroom]
    have hfifo : (Op.push item).fifo q.size items = (items ++ [item], .eok) := by
      simp [Op.fifo, show items.length ≠ q.size by omega]
    have hput : (q.put item).size = q.size := by rw [put_def]
    obtain ⟨hrest, hkept, hlist⟩ := ih (h.put hroom item) (hput ▸ hsize)
      (by rw [length_append, length_singleton]; omega)
    rw [hput] at hkept hlist
    rw [append_assoc] at hrest hlist
    simp only [replicate_succ, Queue.execAll, fifoAll, hexec, hfifo]
    exact ⟨hrest, hkept, hlist⟩

end Queue

/-- A queue of more than `2 ^ 15` places is full after `2 ^ 15` pushes. -/
theorem not_refinesFifo {size : ℕ} (lwm : ℕ) (hsize : 2 ^ 15 < size) : ¬ RefinesFifo size lwm := by
  intro hrefines
  have hinit : (Queue.init size lwm).Holds [] := Queue.holds_init lwm (by omega)
  obtain ⟨hholds, hkept, hlist⟩ := hinit.pushes (n := 2 ^ 15) hsize (by simp) ⟨0, 0⟩
  have hdenotes := (hrefines (List.replicate (2 ^ 15) (.push ⟨0, 0⟩))).2
  have hlist' : (fifoAll size [] (List.replicate (2 ^ 15) (.push ⟨0, 0⟩))).1 = _ := hlist
  rw [hlist', nil_append] at hdenotes
  rw [nil_append] at hholds
  have hplaces : ((Queue.init size lwm).execAll (List.replicate (2 ^ 15) (.push ⟨0, 0⟩))).1.places =
      2 ^ 15 := by
    rw [Queue.places, hkept]
    exact Nat.min_eq_right hsize.le
  have hfull := hholds.isFull_iff.mpr (by rw [hplaces, length_replicate])
  have hlength := hdenotes.isFull_iff.mp hfull
  rw [hkept, length_replicate] at hlength
  exact absurd hlength (Nat.ne_of_lt hsize)

/-- The data queue is a bounded queue of its size exactly if the 15-bit indices reach all its places. -/
theorem refinesFifo_iff {size : ℕ} (lwm : ℕ) (hsize : 0 < size) :
    RefinesFifo size lwm ↔ size ≤ 2 ^ 15 := by
  constructor
  · intro hrefines
    by_contra hlarge
    exact not_refinesFifo lwm (by omega) hrefines
  · intro hle ops
    obtain ⟨hholds, hkept, hrets⟩ := (Queue.holds_init lwm hsize).execAll hle ops
    exact ⟨hrets, hholds.denotes (hkept ▸ hle)⟩

/-- A queue of three places. -/
theorem refinesFifo_three : 0 < 3 ∧ RefinesFifo 3 1 :=
  ⟨by decide, (refinesFifo_iff 1 (by decide)).mpr (by decide)⟩

/-- A queue of forty thousand places. -/
theorem not_refinesFifo_large : 40000 < 2 ^ 16 ∧ ¬ RefinesFifo 40000 0 :=
  ⟨by decide, not_refinesFifo 0 (by decide)⟩

end RtThread.DataQueue
