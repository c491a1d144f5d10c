import Mathlib.Data.Fin.VecNotation
import Mathlib.Data.Fintype.Basic
import Mathlib.Data.Set.Card
import RtThread.DataQueue.Basic
import RtThread.Kernel.SchedFrame
import RtThread.Lib.Deque

/-!
# The threads that wait for items of a data queue

`rt_data_queue_push` wakes the first thread of the push list; no function wakes a thread of the pop
list. A thread goes to sleep there when the queue is empty, so the threads that sleep miss nothing as
long as no item is put while one of them sleeps.
-/

namespace RtThread.DataQueue

open Kernel Lib List Option Sched Nat TransitionSystem

namespace Queue

/-- The number of places that the indices run through. -/
def places (q : Queue) : ℕ := min q.size (2 ^ 15)

/-- The queue holds the items, the next one to be taken first. -/
structure Holds (q : Queue) (items : List Item) : Prop where
  places_pos : 0 < q.places
  get_lt : q.getIndex < q.places
  length_le : items.length ≤ q.places
  put_eq : q.putIndex = (q.getIndex + items.length) % q.places
  isEmpty_iff : q.isEmpty = true ↔ items.length = 0
  isFull_iff : q.isFull = true ↔ items.length = q.places
  items_eq : ringList q.queue q.places q.getIndex items.length = items

variable {q : Queue} {items : List Item} {item : Item}

/-- A fresh queue is empty. -/
theorem holds_init {size : ℕ} (lwm : ℕ) (hsize : 0 < size) : (init size lwm).Holds [] := by
  have hpos : 0 < min size (2 ^ 15) := by omega
  exact ⟨hpos, hpos, zero_le _, (zero_mod _).symm, by simp [init], by simp [init, places]; omega, rfl⟩

/-- The indices run through the places. -/
theorem nextIndex_eq {index : ℕ} (hindex : index < q.places) :
    q.nextIndex index = (index + 1) % q.places := by
  unfold nextIndex places at *
  dsimp only
  by_cases hlast : index + 1 = min q.size (2 ^ 15)
  · rw [← hlast, mod_self]
    split_ifs <;> omega
  · rw [mod_eq_of_lt (b := min q.size (2 ^ 15)) (by omega)]
    split_ifs <;> omega

/-- The fields after an item is stored. -/
theorem put_def (q : Queue) (item : Item) : q.put item = { q with
    queue := Function.update q.queue q.putIndex item
    putIndex := q.nextIndex q.putIndex
    isEmpty := false
    isFull := if q.nextIndex q.putIndex = q.getIndex then true else q.isFull } := by
  unfold put
  dsimp only
  split_ifs <;> rfl

/-- The fields after an item is taken. -/
theorem get_def (q : Queue) : q.get = ({ q with
    getIndex := q.nextIndex q.getIndex
    isFull := false
    isEmpty := if q.putIndex = q.nextIndex q.getIndex then true else q.isEmpty }, q.queue q.getIndex) := by
  unfold get
  dsimp only
  split_ifs <;> rfl

/-- Storing an item. -/
theorem Holds.put (h : q.Holds items) (hfull : q.isFull = false) (item : Item) :
    (q.put item).Holds (items ++ [item]) := by
  have hroom : items.length < q.places := by
    have hne : items.length ≠ q.places := fun heq => by simp [h.isFull_iff.mpr heq] at hfull
    have hle := h.length_le
    omega
  have hnext : q.nextIndex q.putIndex = (q.getIndex + (items.length + 1)) % q.places := by
    rw [nextIndex_eq (h.put_eq ▸ mod_lt _ h.places_pos), h.put_eq, mod_add_mod, add_assoc]
  have hlast : q.nextIndex q.putIndex = q.getIndex ↔ items.length + 1 = q.places := by
    rw [hnext]
    refine ⟨fun heq => ?_, fun heq => by rw [heq, add_mod_right, mod_eq_of_lt h.get_lt]⟩
    by_contra hne
    have hapart : (q.getIndex + (items.length + 1)) % q.places ≠ (q.getIndex + 0) % q.places :=
      ring_index_ne (by omega) h.places_pos (by omega)
    exact hapart (by rw [heq, add_zero, mod_eq_of_lt h.get_lt])
  have hpush : ringList (Function.update q.queue ((q.getIndex + items.length) % q.places) item)
      q.places q.getIndex (items.length + 1) = _ ++ [item] := ringList_pushBack hroom
  rw [h.items_eq, ← h.put_eq] at hpush
  have hlength : (items ++ [item]).length = items.length + 1 := length_append
  rw [put_def]
  refine ⟨h.places_pos, h.get_lt, ?_, ?_, ?_, ?_, ?_⟩ <;> rw [hlength]
  · exact hroom
  · exact hnext
  · simp
  · simp [hlast, hfull, places]
  · exact hpush

/-- Taking an item. -/
theorem Holds.get (h : q.Holds items) (hempty : q.isEmpty = false) :
    ∃ rest, items = q.get.2 :: rest ∧ q.get.1.Holds rest := by
  cases items with
  | nil => simp [h.isEmpty_iff.mpr rfl] at hempty
  | cons first rest =>
    have hle := h.length_le
    rw [length_cons] at hle
    have hring := h.items_eq
    rw [length_cons, ringList_succ, List.cons.injEq, mod_eq_of_lt h.get_lt] at hring
    have hnext : q.nextIndex q.getIndex = (q.getIndex + 1) % q.places := nextIndex_eq h.get_lt
    have hput : q.putIndex = (q.nextIndex q.getIndex + rest.length) % q.places := by
      rw [h.put_eq, length_cons, hnext, mod_add_mod, add_assoc, add_comm 1]
    have hlt : q.nextIndex q.getIndex < q.places := hnext ▸ mod_lt _ h.places_pos
    have hlast : q.putIndex = q.nextIndex q.getIndex ↔ rest.length = 0 := by
      rw [hput]
      refine ⟨fun heq => ?_, fun heq => by rw [heq, add_zero, mod_eq_of_lt hlt]⟩
      by_contra hne
      have hapart : (q.nextIndex q.getIndex + rest.length) % q.places ≠
          (q.nextIndex q.getIndex + 0) % q.places := ring_index_ne (by omega) h.places_pos hne
      exact hapart (by rw [heq, add_zero, mod_eq_of_lt hlt])
    rw [get_def]
    refine ⟨rest, by rw [hring.1], h.places_pos, hlt, by simp only [places] at *; omega, hput, ?_, ?_, ?_⟩
    · simp [hlast, hempty]
    · simp only [places] at *
      simp
      omega
    · rw [← hnext] at hring
      exact hring.2

end Queue

namespace State

variable {T : Type*} {s s' s'' : State T} {thread : T} {id : ℕ} {moved : Option Moved} {ret : Option ℤ}
variable {entered : Option ℕ} {timeout : ℤ}

/-- Threads leave the pop lists, and none enters but that of one queue. -/
def PopsThin (s s' : State T) (entered : Option ℕ) : Prop :=
  ∀ id, entered ≠ some id → (s'.lists (.dqPop id)).Sublist (s.lists (.dqPop id))

/-- The scheduler lets no thread into a pop list. -/
theorem PopsThin.of_thins (h : Sched.Thins s.toSched s'.toSched) : PopsThin s s' entered :=
  fun id _ => h (.dqPop id) rfl

/-- What an event does to the data queues and to the threads that wait for items. -/
inductive Step (s s' : State T) : Option Moved → Prop where
  /-- No item is moved; a thread may begin to wait for an item of an empty queue. -/
  | still (entered : Option ℕ) : PopsThin s s' entered → s'.queue = s.queue →
      (∀ id, entered = some id → (s.queue id).isEmpty = true) → Step s s' none
  /-- An item is stored in a queue that is not full. -/
  | put (id : ℕ) (item : Item) : PopsThin s s' none → (s.queue id).isFull = false →
      s'.queue = Function.update s.queue id ((s.queue id).put item) → Step s s' (some (.put id item))
  /-- An item is taken from a queue that is not empty. -/
  | got (id : ℕ) : PopsThin s s' none → (s.queue id).isEmpty = false →
      s'.queue = Function.update s.queue id (s.queue id).get.1 →
      Step s s' (some (.got id (s.queue id).get.2))

/-- A step of the scheduler. -/
theorem step_of_frame (hframe : Sched.Frame (fun _ => False) s.toSched s'.toSched)
    (hqueue : s'.queue = s.queue) : Step s s' none :=
  .still none (.of_thins hframe.thins) hqueue fun _ h => by cases h

/-- A function of the scheduler. -/
theorem step_onSched {f : Sched T → Sched T} (hf : ∀ sched, Sched.Frame (fun _ => False) sched (f sched)) :
    Step s (s.onSched f) none :=
  step_of_frame (hf _) rfl

variable [DecidableEq T]

/-- Waking a thread that waits to push. -/
theorem wakePush_frame (s : State T) (id : ℕ) :
    Sched.Frame (fun _ => False) s.toSched (s.wakePush id).toSched ∧ (s.wakePush id).queue = s.queue := by
  have hdequeue : Sched.Frame (fun _ => False) s.toSched (s.rtSuspListDequeue (.dqPush id)).1.toSched ∧
      (s.rtSuspListDequeue (.dqPush id)).1.queue = s.queue := by
    unfold rtSuspListDequeue
    split
    · exact ⟨.of_eq rfl rfl, rfl⟩
    · exact ⟨frame_rtSchedThreadReady _ _, rfl⟩
  unfold wakePush
  dsimp only
  split
  · exact ⟨hdequeue.1.trans (frame_rtSchedule _), hdequeue.2⟩
  · exact hdequeue

/-- A thread that waits. -/
theorem suspend_popsThin {head : ListHead} {pc : Pc} {ok : Bool}
    (heq : s.suspend thread head timeout pc = some (s', ok))
    (hentered : ∀ id, head = .dqPop id → entered = some id) :
    PopsThin s s' entered ∧ s'.queue = s.queue := by
  obtain ⟨⟨sched, ok'⟩, hsuspend, heq⟩ := map_eq_some_iff.mp heq
  have hlists : ∀ id, entered ≠ some id →
      (sched.lists (.dqPop id)).Sublist (s.lists (.dqPop id)) := fun id hid =>
    (rtThreadSuspendToList_frame hsuspend).2 _ fun hhead => hid (hentered id hhead.symm)
  split at heq
  · cases heq
    refine ⟨fun id hid => ?_, by split_ifs <;> rfl⟩
    have hrun : ∀ s1 : Sched T, Sched.Frame (fun _ => False) s1 s1.rtSchedule := (frame_rtSchedule ·)
    refine ((hrun _).thins (.dqPop id) rfl).trans ?_
    split_ifs <;> exact hlists id hid
  · cases heq
    exact ⟨hlists, rfl⟩

/-- A call of `rt_data_queue_push`. -/
theorem step_rtDataQueuePush {item : Item}
    (heq : s.rtDataQueuePush thread id item timeout = some (s', moved, ret)) : Step s s' moved := by
  unfold rtDataQueuePush at heq
  split at heq
  · split at heq
    · cases heq
      exact step_of_frame (.of_eq rfl rfl) rfl
    · obtain ⟨⟨s1, ok⟩, hsuspend, heq⟩ := map_eq_some_iff.mp heq
      obtain ⟨hpops, hqueue⟩ : PopsThin s s1 none ∧ s1.queue = s.queue :=
        suspend_popsThin hsuspend fun id hhead => by cases hhead
      split at heq <;> cases heq <;> exact .still none hpops hqueue fun _ h => by cases h
  next hfull =>
    cases heq
    have hwake := wakePush_frame ((s.setQueue id ((s.queue id).put item)).setPc thread .idle) id
    exact .put id item (.of_thins hwake.1.thins) (Bool.eq_false_iff.mpr hfull) hwake.2

/-- A call of `rt_data_queue_pop`. -/
theorem step_rtDataQueuePop
    (heq : s.rtDataQueuePop thread id timeout = some (s', moved, ret)) : Step s s' moved := by
  unfold rtDataQueuePop at heq
  split at heq
  next hempty =>
    split at heq
    · cases heq
      exact step_of_frame (.of_eq rfl rfl) rfl
    · obtain ⟨⟨s1, ok⟩, hsuspend, heq⟩ := bind_eq_some_iff.mp heq
      obtain ⟨hpops, hqueue⟩ : PopsThin s s1 (some id) ∧ s1.queue = s.queue :=
        suspend_popsThin hsuspend fun id' hhead => by cases hhead; rfl
      split at heq
      · cases heq
        refine .still (some id) hpops hqueue fun id' h => ?_
        cases h
        exact hempty
      · cases heq
  next hempty =>
    cases heq
    have hget : Sched.Thins s.toSched
        ((s.setQueue id (s.queue id).get.1).setPc thread .idle).toSched := .of_lists rfl
    have hwake := wakePush_frame ((s.setQueue id (s.queue id).get.1).setPc thread .idle) id
    refine .got id ?_ (Bool.eq_false_iff.mpr hempty) ?_ <;> split_ifs
    · exact .of_thins (hget.trans hwake.1.thins)
    · exact .of_thins hget
    · exact hwake.2
    · rfl

/-- The running thread goes on in its call. -/
theorem step_proceed (heq : s.proceed thread = some (s', moved, ret)) : Step s s' moved := by
  unfold proceed at heq
  split at heq
  · cases heq
  · split at heq
    · cases heq
      exact step_of_frame (.of_eq rfl rfl) rfl
    · exact step_rtDataQueuePush heq
  · split at heq
    · cases heq
      exact step_of_frame (.of_eq rfl rfl) rfl
    · exact step_rtDataQueuePop heq

/-- Every event is such a step. -/
theorem step_exec {e : Event T} (heq : s.exec e = some (s', moved, ret)) : Step s s' moved := by
  cases e with
  | startup thread =>
    obtain ⟨sched, hstart, ⟨⟩⟩ := map_eq_some_iff.mp heq
    exact step_of_frame (frame_rtThreadStartup hstart) rfl
  | yield =>
    obtain ⟨thread, -, ⟨⟩⟩ := map_eq_some_iff.mp heq
    exact step_of_frame (frame_rtThreadYield _ _) rfl
  | push id item timeout =>
    obtain ⟨thread, -, heq⟩ := bind_eq_some_iff.mp heq
    exact step_rtDataQueuePush heq
  | pop id timeout =>
    obtain ⟨thread, -, heq⟩ := bind_eq_some_iff.mp heq
    exact step_rtDataQueuePop heq
  | proceed =>
    obtain ⟨thread, -, heq⟩ := bind_eq_some_iff.mp heq
    exact step_proceed heq
  | timerDue thread =>
    obtain ⟨sched, hdue, ⟨⟩⟩ := map_eq_some_iff.mp heq
    exact step_of_frame (frame_timerDue hdue) rfl
  | timeout thread =>
    obtain ⟨s1, htimeout, ⟨⟩⟩ := map_eq_some_iff.mp heq
    obtain ⟨sched, hsched, rfl⟩ := map_eq_some_iff.mp htimeout
    exact step_of_frame (frame_threadTimeout hsched) rfl
  | tick =>
    obtain ⟨thread, -, heq⟩ := map_eq_some_iff.mp heq
    rw [Prod.mk.injEq, Prod.mk.injEq] at heq
    rw [← heq.1, ← heq.2.1]
    exact step_onSched fun sched => sched.frame_rtSchedTickIncrease thread
  | schedulerStart =>
    simp only [exec] at heq
    split_ifs at heq
    obtain ⟨sched, hstart, ⟨⟩⟩ := map_eq_some_iff.mp heq
    exact step_of_frame (frame_rtSystemSchedulerStart hstart) rfl
  | dispatch thread =>
    obtain ⟨cur, -, heq⟩ := bind_eq_some_iff.mp heq
    split at heq
    · cases heq
      exact step_of_frame (frame_switchTo _ _ _ _) rfl
    · cases heq

/-- The items of a queue after a step moved one. -/
def record (items : ℕ → List Item) : Option Moved → ℕ → List Item
  | none => items
  | some (.put id item) => Function.update items id (items id ++ [item])
  | some (.got id _) => Function.update items id (items id).tail

/-- The data queues have been initialised and no thread has been started. -/
def Booted (s : State T) : Prop :=
  ∃ (priorityMax : ℕ) (priority tick : T → ℕ) (queue : ℕ → Queue), priorityMax ≤ 256 ∧
    (∀ t, priority t < priorityMax) ∧
    (∀ id, ∃ size lwm, 0 < size ∧ size < 2 ^ 16 ∧ lwm < 2 ^ 16 ∧ queue id = .init size lwm) ∧
    s = boot priorityMax priority tick queue

/-- The data queues, with the items that were put and not yet taken. -/
def popSystem (T : Type*) [DecidableEq T] :
    TransitionSystem (State T × (ℕ → List Item)) (Event T) where
  init s := s.1.Booted ∧ s.2 = fun _ => []
  step s e s' := ∃ moved ret, s.1.exec e = some (s'.1, moved, ret) ∧ s'.2 = record s.2 moved

/-- No item is put into a queue while a thread sleeps on its pop list. -/
def NoPopperSleeps (s : State T) (e : Event T) : Prop :=
  ∀ id item, (s.exec e).bind (fun r => r.2.1) = some (.put id item) → s.lists (.dqPop id) = []

/-- The thread left the pop list of the queue and has not gone on yet. -/
def DequeuedPopper (s : State T) (id : ℕ) (thread : T) : Prop :=
  (∃ timeout, s.pc thread = .popWoken id timeout) ∧ thread ∉ s.lists (.dqPop id)

/-- The queues hold their items, and the threads of a pop list sleep on an empty queue. -/
structure PopOk (s : State T) (items : ℕ → List Item) : Prop where
  holds : ∀ id, (s.queue id).Holds (items id)
  empty : ∀ id, s.lists (.dqPop id) ≠ [] → items id = []

omit [DecidableEq T] in
/-- A step keeps this, if no item is put while a thread sleeps on the pop list. -/
theorem PopOk.step {items : ℕ → List Item} (h : s.PopOk items) (hstep : Step s s' moved)
    (hput : ∀ id item, moved = some (.put id item) → s.lists (.dqPop id) = []) :
    s'.PopOk (record items moved) := by
  have hnil : ∀ {entered : Option ℕ} {id : ℕ}, PopsThin s s' entered → entered ≠ some id →
      s'.lists (.dqPop id) ≠ [] → s.lists (.dqPop id) ≠ [] := by
    intro entered id hpops hid hne heq
    have hsub := hpops id hid
    rw [heq] at hsub
    exact hne (sublist_nil.mp hsub)
  cases hstep with
  | still entered hpops hqueue hentered =>
    refine ⟨fun id => hqueue ▸ h.holds id, fun id hne => ?_⟩
    by_cases hid : entered = some id
    · exact length_eq_zero_iff.mp ((h.holds id).isEmpty_iff.mp (hentered id hid))
    · exact h.empty id (hnil hpops hid hne)
  | put id item hpops hfull hqueue =>
    refine ⟨fun id' => ?_, fun id' hne => ?_⟩ <;> by_cases hid : id' = id
    · subst hid
      simpa [record, hqueue] using (h.holds id').put hfull item
    · simpa [record, hqueue, hid] using h.holds id'
    · subst hid
      exact absurd (hput id' item rfl) (hnil hpops (by simp) hne)
    · simpa [record, hid] using h.empty id' (hnil hpops (by simp) hne)
  | got id hpops hempty hqueue =>
    obtain ⟨rest, hitems, hholds⟩ := (h.holds id).get hempty
    refine ⟨fun id' => ?_, fun id' hne => ?_⟩ <;> by_cases hid : id' = id
    · subst hid
      simpa [record, hqueue, hitems] using hholds
    · simpa [record, hqueue, hid] using h.holds id'
    · subst hid
      have hnone := h.empty id' (hnil hpops (by simp) hne)
      simp [hnone] at hitems
    · simpa [record, hid] using h.empty id' (hnil hpops (by simp) hne)

/-- In every run in which no item is put while a thread sleeps on the pop list of the queue, a thread that
is suspended there has missed nothing: the queue holds at most as many items as threads were dequeued
from the list and have not gone on. -/
theorem poppers_woken {s : State T × (ℕ → List Item)}
    (h : ((popSystem T).guarded fun s e => s.1.NoPopperSleeps e).Reachable s) (id : ℕ)
    (hsleeps : thread ∈ s.1.lists (.dqPop id)) :
    ((s.2 id).length : ℕ∞) ≤ {t | s.1.DequeuedPopper id t}.encard := by
  have hinv : s.1.PopOk s.2 := by
    refine h.invariant (I := fun s => s.1.PopOk s.2) ?_ ?_
    · rintro ⟨s, items⟩ ⟨⟨priorityMax, priority, tick, queue, -, -, hqueue, rfl⟩, rfl⟩
      refine ⟨fun id => ?_, fun id hne => absurd rfl hne⟩
      obtain ⟨size, lwm, hsize, -, -, heq⟩ := hqueue id
      simpa [boot, heq] using Queue.holds_init lwm hsize
    · rintro ⟨s, items⟩ e ⟨s', items'⟩ hok ⟨hguard, moved, ret, hexec, rfl⟩
      refine hok.step (step_exec hexec) fun id item hmoved => hguard id item ?_
      rw [hexec, hmoved]
      rfl
  rw [hinv.empty id (ne_nil_of_mem hsleeps)]
  simp

/-- Whether an event meets the condition can be evaluated. -/
instance (s : State T) (e : Event T) : Decidable (s.NoPopperSleeps e) :=
  match h : (s.exec e).bind (fun r => r.2.1) with
  | some (.put id item) => decidable_of_iff (s.lists (.dqPop id) = []) (by
      simp [NoPopperSleeps, h])
  | some (.got _ _) => isTrue (by simp [NoPopperSleeps, h])
  | none => isTrue (by simp [NoPopperSleeps, h])

/-- The next state, with the items, when the event meets a condition. -/
def nextWhen (ok : State T → Event T → Bool) (s : State T × (ℕ → List Item)) (e : Event T) :
    Option (State T × (ℕ → List Item)) :=
  if ok s.1 e then (s.1.exec e).map fun r => (r.1, record s.2 r.2.1) else none

/-- Such a step is a step of the system. -/
theorem popSystem_step_of_nextWhen {ok : State T → Event T → Bool} {s s' : State T × (ℕ → List Item)}
    {e : Event T} (h : nextWhen ok s e = some s') : ok s.1 e = true ∧ (popSystem T).step s e s' := by
  obtain ⟨hok, h⟩ := ite_none_right_eq_some.mp h
  obtain ⟨⟨s1, moved, ret⟩, hexec, rfl⟩ := map_eq_some_iff.mp h
  exact ⟨hok, moved, ret, hexec, rfl⟩

/-- Two threads, the second of higher priority, and queues of four items. -/
def bootTwo : State (Fin 2) :=
  boot 32 ![20, 10] (fun _ => 10) fun _ => .init 4 2

/-- This is a state before any thread is started. -/
theorem booted_bootTwo : bootTwo.Booted :=
  ⟨32, ![20, 10], fun _ => 10, fun _ => .init 4 2, by decide, by decide,
    fun _ => ⟨4, 2, by decide, by decide, by decide, rfl⟩, rfl⟩

/-- The first thread pushes an item; the second takes it and then sleeps on the empty queue. -/
theorem poppers_woken_empty : ∃ s : State (Fin 2) × (ℕ → List Item),
    ((popSystem (Fin 2)).guarded fun s e => s.1.NoPopperSleeps e).Reachable s ∧
    1 ∈ s.1.lists (.dqPop 0) ∧ ((s.2 0).length : ℕ∞) ≤ {t | s.1.DequeuedPopper 0 t}.encard :=
  Reachable.exists_and (Reachable.exists_run
    (nextWhen fun s e => decide (s.NoPopperSleeps e))
    [.startup 0, .schedulerStart, .push 0 ⟨8, 1⟩ (-1), .startup 1, .pop 0 (-1), .pop 0 (-1)]
    (.init (s := (bootTwo, fun _ => [])) ⟨booted_bootTwo, rfl⟩)
    (fun _ _ _ _ _ h => (popSystem_step_of_nextWhen h).imp_left of_decide_eq_true)) fun _ hreach hsleeps =>
    poppers_woken hreach 0 hsleeps

/-- A popper that is not woken. The second thread sleeps on the empty queue, then the first pushes an
item: the push looks for threads in the push list, and the second thread sleeps on with an item in
the queue. -/
theorem popper_not_woken : ∃ s : State (Fin 2) × (ℕ → List Item), (popSystem (Fin 2)).Reachable s ∧
    1 ∈ s.1.lists (.dqPop 0) ∧ ¬ ((s.2 0).length : ℕ∞) ≤ {t | s.1.DequeuedPopper 0 t}.encard := by
  obtain ⟨s, hreach, hlists, hlength, hpc⟩ := Reachable.exists_run
    (M := popSystem (Fin 2))
    (P := fun s => s.1.lists (.dqPop 0) = [1] ∧ (s.2 0).length = 1 ∧ s.1.pc 0 = .idle)
    (nextWhen fun _ _ => true)
    [.startup 0, .schedulerStart, .startup 1, .pop 0 (-1), .push 0 ⟨8, 1⟩ (-1)]
    (.init (s := (bootTwo, fun _ => [])) ⟨booted_bootTwo, rfl⟩)
    (fun _ _ _ _ _ h => (popSystem_step_of_nextWhen h).2)
  have hnone : {t | s.1.DequeuedPopper 0 t} = ∅ := by
    refine Set.eq_empty_iff_forall_notMem.mpr fun t ht => ?_
    obtain ⟨⟨timeout, hwoken⟩, hleft⟩ := ht
    rw [hlists] at hleft
    obtain rfl | rfl : t = 0 ∨ t = 1 := by omega
    · rw [hpc] at hwoken
      cases hwoken
    · simp at hleft
  refine ⟨s, hreach, by rw [hlists]; decide, ?_⟩
  rw [hnone, hlength]
  simp

end State

end RtThread.DataQueue
