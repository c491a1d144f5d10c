import RtThread.Kernel.Inheritance
import RtThread.Kernel.PrioritySteps

/-!
# What the kernel says about its mutexes

`State.locks` is what the kernel state says about mutexes, their owners and the waiting threads.
`MutexCalls` ties the place of every thread in its call to its pending mutex and its timer. The loop
of `_thread_update_priority` passes a priority on as the inheritance protocol does.

A thread that has given up keeps its `pending_object` for a moment; in `State.locks` it has none.
-/

namespace RtThread.Kernel

open Lib Function Option

/-- The mutex that a thread at this place waits for. -/
def Pc.pending (pendingObject : Option ℕ) : Pc → Option ℕ
  | .mutexClear _ => none
  | _ => pendingObject

namespace State

variable {T : Type*} {k k' : State T} {t : T} {id : ℕ}

/-- The view of a kernel state. -/
def locks (k : State T) : Locks T where
  init := k.waits.initPriority
  current := k.waits.currentPriority
  suspended := k.waits.suspended
  firing := k.waits.timerFiring
  waiting := fun id => k.waits.waiting (.mutex id)
  mutex := k.mutex
  taken := k.takenObjectList
  pending := fun t => (k.pc t).pending (k.pendingObject t)

namespace ThreadView

/-- A thread that waits for a mutex, was given it, or has timed out. -/
structure MutexWait (th : ThreadView) (id : ℕ) : Prop where
  waiting : th.suspended = true → th.pendingObject = some id ∧ th.error = rtEok
  given : th.suspended = false → th.error = rtEok → th.pendingObject = none
  expired : th.error ≠ rtEok → th.pendingObject = some id

/-- What the place of a thread in its call says about its pending mutex. -/
def PlaceOk (th : ThreadView) : Pc → Prop
  | .idle => th.pendingObject = none
  | .resched _ => th.pendingObject = none
  | .mutexResched id => th.MutexWait id
  | .mutexWoken id => th.MutexWait id
  | .mutexClear _ => th.suspended = false
  | _ => False

/-- A thread is in a mutex call or in none, and its timer runs if it is set. -/
structure InMutexCall (th : ThreadView) : Prop where
  timer : th.suspended = true → th.ttmrSet = true → th.timerActive = true ∨ th.timerFiring = true
  place : th.PlaceOk th.pc
  fresh : th.fresh = true → th.pc = .idle

end ThreadView

/-- All threads are in mutex calls or in none. -/
structure MutexCalls (k : State T) : Prop where
  queue : k.ReadyQueue
  thread : ∀ t, (k.view t).InMutexCall

/-- Only priorities and the wait lists have changed. -/
structure Repriced (k k' : State T) : Prop where
  queue : k'.ReadyQueue
  view : ∀ t, k'.view t = k.view t

/-- Passing priorities on changes priorities and the wait lists. -/
theorem Reprioritized.repriced (h : Reprioritized k k') : Repriced k k' := ⟨h.queue, h.view⟩

/-- `_mutex_update_priority` on the view. -/
theorem locks_mutexUpdatePriority (k : State T) (id : ℕ) :
    (k.mutexUpdatePriority id).locks = k.locks.refresh id := by
  have hhead : k.headPriority id = firstKey k.locks.current 0xff (k.locks.waiting id) := by
    unfold headPriority
    change _ = firstKey k.currentPriority 0xff (k.lists (.mutex id))
    cases k.lists (.mutex id) <;> rfl
  rw [mutexUpdatePriority, hhead]
  rfl

/-- `_thread_get_mutex_priority` computes the inherited priority. -/
theorem threadGetMutexPriority_eq (hceiling : ∀ id, (k.mutex id).ceilingPriority = 0xff)
    (hbound : ∀ id, (k.mutex id).priority ≤ 0xff) (thread : T) :
    k.threadGetMutexPriority thread = k.locks.inherited thread := by
  unfold threadGetMutexPriority Locks.inherited leastKey
  change _ = (k.takenObjectList thread).foldl (fun m id => min m (k.mutex id).priority)
    (k.initPriority thread)
  congr 1
  funext priority id
  have hceiling := hceiling id
  have hbound := hbound id
  have hprio : (if (k.mutex id).priority < (k.mutex id).ceilingPriority then (k.mutex id).priority
      else (k.mutex id).ceilingPriority) = (k.mutex id).priority := by
    split <;> omega
  dsimp only
  rw [hprio]
  split <;> omega

/-- The pending mutex of a suspended thread is seen. -/
def PendingShown (k : State T) : Prop :=
  ∀ t, k.waits.suspended t = true → k.locks.pending t = k.pendingObject t

/-- Changes of priorities leave the pending mutexes. -/
theorem PendingShown.repriced (h : k.PendingShown) (hk : Repriced k k') : k'.PendingShown := by
  intro t ht
  have hview := hk.view t
  have hpc : k'.pc t = k.pc t := congrArg ThreadView.pc hview
  have hpending : k'.pendingObject t = k.pendingObject t := congrArg ThreadView.pendingObject hview
  have hsusp : k'.waits.suspended t = k.waits.suspended t := congrArg ThreadView.suspended hview
  change (k'.pc t).pending (k'.pendingObject t) = k'.pendingObject t
  rw [hpc, hpending]
  exact h t (hsusp.symm.trans ht)

/-- In a mutex call the pending mutex of a suspended thread is seen. -/
theorem MutexCalls.shown (h : k.MutexCalls) : k.PendingShown := by
  intro t ht
  have hplace := (h.thread t).place
  change (k.pc t).pending _ = _
  cases hpc : k.pc t <;> try rfl
  rw [show (k.view t).pc = k.pc t from rfl, hpc] at hplace
  have hfalse : k.waits.suspended t = false := hplace
  rw [hfalse] at ht
  cases ht

/-- A state that differs only in what the mutexes do not depend on. -/
theorem locks_congr (hwaits : k'.waits = k.waits) (hmutex : k'.mutex = k.mutex)
    (htaken : k'.takenObjectList = k.takenObjectList)
    (hpending : ∀ t, k'.locks.pending t = k.locks.pending t) : k'.locks = k.locks := by
  apply Locks.ext
  case pending =>
    funext t
    exact hpending t
  case mutex => exact hmutex
  case taken => exact htaken
  all_goals
    unfold locks
    rw [hwaits]

/-- A change of the scheduler that the waiting threads do not see. -/
theorem locks_toSched {s : Sched T} (hwaits : s.waits = k.waits) :
    ({ k with toSched := s }).locks = k.locks := locks_congr hwaits rfl rfl fun _ => rfl

/-- The running thread at thread level has no pending mutex. -/
theorem MutexCalls.pending_of_idle (h : k.MutexCalls) (ht : k.pc t = .idle) :
    k.pendingObject t = none := by
  have hplace := (h.thread t).place
  rw [show (k.view t).pc = k.pc t from rfl, ht] at hplace
  exact hplace

/-- In the view, too. -/
theorem MutexCalls.locks_pending_of_idle (h : k.MutexCalls) (ht : k.pc t = .idle) :
    k.locks.pending t = none := by
  change (k.pc t).pending (k.pendingObject t) = none
  rw [ht]
  exact h.pending_of_idle ht

/-- A thread that was suspended in its mutex call. -/
theorem MutexCalls.mutexWait (h : k.MutexCalls) (hpc : k.pc t = .mutexWoken id) :
    (k.view t).MutexWait id := by
  have hplace := (h.thread t).place
  rw [show (k.view t).pc = k.pc t from rfl, hpc] at hplace
  exact hplace

/-- While no timer is firing, every suspended thread can be woken. -/
theorem MutexCalls.canStop {u : T} (h : k.MutexCalls) (hfiring : ∀ u, k.waits.timerFiring u = false)
    (hu : k.waits.suspended u = true) : k.waits.canStop u = true := by
  unfold Waits.canStop
  cases hset : k.waits.ttmrSet u with
  | false => rfl
  | true =>
    rcases (h.thread u).timer hu hset with hactive | hfire
    · exact hactive
    · cases (hfiring u).symm.trans hfire

variable [DecidableEq T]

/-- `rt_sched_thread_change_priority` on the view. -/
theorem changePriority_locks {thread : T} {priority : ℕ} (hqueue : k.ReadyQueue)
    (heq : k.changePriority thread priority = some k') :
    k'.locks = k.locks.setPriority thread priority := by
  obtain ⟨s, hs, rfl⟩ := map_eq_some_iff.mp heq
  unfold locks
  rw [hqueue.waits_rtSchedThreadChangePriority hs]
  rfl

/-- Moving a thread to its place on the view. -/
theorem requeue_locks (howned : k.locks.Owned) (ht : t ∈ k.locks.waiting id) :
    (k.requeue t id).locks = k.locks.requeue t id := by
  have hwaits := waits_requeue k t id
  have hwaiting : ∀ id', (k.requeue t id).locks.waiting id' = (k.locks.requeue t id).waiting id' := by
    intro id'
    unfold locks
    by_cases hid : id' = id
    · subst hid
      rw [Locks.requeue_self]
      exact update_self ..
    · rw [Locks.requeue_of_ne _ _ hid]
      refine (update_of_ne (by simpa using hid) ..).trans ?_
      apply List.filter_eq_self.mpr
      intro u hu
      apply decide_eq_true
      rintro rfl
      exact howned.ne_of_mem_waiting ht hid u hu rfl
  apply Locks.ext
  case waiting =>
    funext id'
    exact hwaiting id'
  case mutex => rfl
  case taken => rfl
  case pending => rfl
  all_goals
    unfold locks
    rfl

/-- The loop of `_thread_update_priority` passes a priority on. -/
theorem updatePriorityLoop_spread {fuel : ℕ} (hqueue : k.ReadyQueue) (hshown : k.PendingShown)
    (hexact : k.locks.Exact (some t) none) (heq : updatePriorityLoop fuel k t = some k') :
    Locks.Spread k.locks t k'.locks := by
  induction fuel generalizing k t with
  | zero => cases heq
  | succ fuel ih =>
    unfold updatePriorityLoop at heq
    split at heq
    next hsusp =>
      split at heq
      next id hid =>
        have hpending : k.locks.pending t = some id := (hshown t hsusp).trans hid
        have ht : t ∈ k.locks.waiting id := (hexact.owned.waiting t id).mpr ⟨hsusp, hpending⟩
        have hmid := hexact.requeue_refresh ht
        have hrequeue := reprioritized_requeue hqueue hsusp hid
        have hrep1 : Repriced k ((k.requeue t id).mutexUpdatePriority id) :=
          (hrequeue.trans (reprioritized_setMutex hrequeue.queue id _)).repriced
        have hlocks1 : ((k.requeue t id).mutexUpdatePriority id).locks =
            (k.locks.requeue t id).refresh id := by
          rw [locks_mutexUpdatePriority, requeue_locks hexact.owned ht]
        generalize (k.requeue t id).mutexUpdatePriority id = k1 at heq hrep1 hlocks1
        dsimp only at heq
        split at heq
        next owner howner =>
          have howner' : (k.locks.mutex id).owner = some owner := by
            rw [← howner, show k1.mutex = k1.locks.mutex from rfl, hlocks1, Locks.refresh,
              Locks.setMutex_self]
            rfl
          rw [howner', ← hlocks1] at hmid
          rw [threadGetMutexPriority_eq hmid.owned.ceiling hmid.owned.mutexBound] at heq
          split at heq
          · obtain ⟨k2, hk2, hloop⟩ := bind_eq_some_iff.mp heq
            have hlocks2 := changePriority_locks hrep1.queue hk2
            have hrep2 := (reprioritized_changePriority hrep1.queue hk2).repriced
            have hexact2 := hmid.setPriority
            rw [← hlocks2] at hexact2
            have hspread := ih hrep2.queue ((hshown.repriced hrep1).repriced hrep2) hexact2 hloop
            rw [hlocks2, hlocks1] at hspread
            exact Locks.Spread.next hsusp hpending howner' hspread
          next hsame =>
            obtain rfl := some.inj heq
            rw [hlocks1] at hsame ⊢
            have hcur : k1.currentPriority owner = k.locks.current owner :=
              congrFun (congrArg Locks.current hlocks1) owner
            exact Locks.Spread.settled hsusp hpending howner' (hcur.symm.trans (not_not.mp hsame).symm)
        · cases heq
      next hid =>
        obtain rfl := some.inj heq
        exact Locks.Spread.stop (.inr ((hshown t hsusp).trans hid))
    next hsusp =>
      obtain rfl := some.inj heq
      exact Locks.Spread.stop (.inl (Bool.eq_false_of_not_eq_true hsusp))

/-- `_thread_update_priority` gives the owner its inherited priority and passes it on. -/
theorem threadUpdatePriority_spread {fuel priority : ℕ} (hqueue : k.ReadyQueue)
    (hshown : k.PendingShown) (hexact : k.locks.Exact none (some t)) (hprio : priority = k.locks.inherited t)
    (heq : threadUpdatePriority fuel k t priority = some k') :
    Locks.Spread (k.locks.setPriority t priority) t k'.locks := by
  obtain ⟨k1, hk1, hloop⟩ := bind_eq_some_iff.mp heq
  have hlocks := changePriority_locks hqueue hk1
  have hrep := (reprioritized_changePriority hqueue hk1).repriced
  have hset := hexact.setPriority
  rw [← hprio, ← hlocks] at hset
  rw [← hlocks]
  exact updatePriorityLoop_spread hrep.queue (hshown.repriced hrep) hset hloop

/-- Leaving the spinlock of a mutex is not seen. -/
theorem locks_rtExitCritical (hqueue : k.ReadyQueue) :
    (k.onSched (·.rtExitCritical)).locks = k.locks := locks_toSched hqueue.waits_rtExitCritical

/-- The spinlock of a mutex is left at the end of a step of the protocol. -/
theorem step_rtExitCritical {v : Locks T} (hqueue : k.ReadyQueue) (hstep : Locks.Step v k.locks) :
    Locks.Step v (k.onSched (·.rtExitCritical)).locks := by
  rw [locks_rtExitCritical hqueue]
  exact hstep

/-- Starting a timer leaves the places. -/
theorem startTimerIf_pc (k : State T) (t : T) (timeout : ℤ) : (k.startTimerIf t timeout).pc = k.pc := by
  unfold startTimerIf
  split <;> rfl

/-- A timer is not seen by the mutexes. -/
theorem locks_startTimerIf (k : State T) (t : T) (timeout : ℤ) :
    (k.startTimerIf t timeout).locks = k.locks := by
  unfold startTimerIf
  split <;> rfl

/-- A new place in a call, with the same pending mutex. -/
theorem locks_setPc {pc : Pc} (h : ∀ pending, pc.pending pending = (k.pc t).pending pending) :
    (k.setPc t pc).locks = k.locks := by
  refine locks_congr ?_ ?_ ?_ ?_ <;> try rfl
  exact (forall_update_iff k.pc fun u pc => pc.pending (k.pendingObject u) = k.locks.pending u).mpr
    ⟨h _, fun _ _ => rfl⟩

end State

end RtThread.Kernel
