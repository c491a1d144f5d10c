import RtThread.Kernel.Basic

/-!
# The mutex

`rt_mutex_take` and `rt_mutex_release` with priority inheritance. The spinlock of a mutex is a
critical section of the scheduler on one processor, so releasing it reschedules.

The loop of `_thread_update_priority` follows a chain of suspended owners. Its number of rounds is
not bounded by the state, so it runs on fuel; `none` also stands for fuel that did not suffice.
-/

namespace RtThread.Kernel.State

variable {T : Type*} [DecidableEq T]

/-- Write a mutex. -/
def setMutex (k : State T) (id : ℕ) (mutex : Mutex T) : State T :=
  { k with mutex := Function.update k.mutex id mutex }

/-- `rt_list_insert_after(&thread->taken_object_list, &mutex->taken_list)`. -/
def takenInsert (k : State T) (thread : T) (id : ℕ) : State T :=
  { k with
    takenObjectList := Function.update k.takenObjectList thread
      (id :: k.takenObjectList thread) }

/-- `rt_list_remove(&mutex->taken_list)`: the mutex has one node. -/
def takenRemove (k : State T) (id : ℕ) : State T :=
  { k with takenObjectList := fun thread => (k.takenObjectList thread).filter (· ≠ id) }

/-- The priority of the first waiting thread, 0xff without one. -/
def headPriority (k : State T) (id : ℕ) : ℕ :=
  match k.lists (.mutex id) with
  | thread :: _ => k.currentPriority thread
  | [] => 0xff

/-- `_mutex_update_priority`. -/
def mutexUpdatePriority (k : State T) (id : ℕ) : State T :=
  k.setMutex id ((k.mutex id).withPriority (k.headPriority id))

/-- `_thread_get_mutex_priority`. -/
def threadGetMutexPriority (k : State T) (thread : T) : ℕ :=
  (k.takenObjectList thread).foldl
    (fun priority id =>
      let m := k.mutex id
      let mutexPrio := if m.priority < m.ceilingPriority then m.priority else m.ceilingPriority
      if priority > mutexPrio then mutexPrio else priority)
    (k.initPriority thread)

/-- `rt_sched_thread_change_priority`. -/
def changePriority (k : State T) (thread : T) (priority : ℕ) : Option (State T) :=
  (k.rtSchedThreadChangePriority thread priority).map fun s => { k with toSched := s }

/-- Re-insert a suspended thread into the list of its mutex. -/
def requeue (k : State T) (thread : T) (id : ℕ) : State T :=
  k.onSched fun s => (s.listRemove thread).rtSuspListEnqueue (.mutex id) thread .prio

/-- The loop of `_thread_update_priority`, entered after a priority has been changed. -/
def updatePriorityLoop : ℕ → State T → T → Option (State T)
  | 0, _, _ => none
  | fuel + 1, k, thread =>
    if k.isSuspended thread then
      match k.pendingObject thread with
      | some id =>
        let k := (k.requeue thread id).mutexUpdatePriority id
        match (k.mutex id).owner with
        | some owner =>
          let priority := k.threadGetMutexPriority owner
          if priority ≠ k.currentPriority owner then
            (k.changePriority owner priority).bind fun k => updatePriorityLoop fuel k owner
          else some k
        | none => none
      | none => some k
    else some k

/-- `_thread_update_priority`. -/
def threadUpdatePriority (fuel : ℕ) (k : State T) (thread : T) (priority : ℕ) :
    Option (State T) :=
  (k.changePriority thread priority).bind fun k => updatePriorityLoop fuel k thread

/-- `_check_and_update_prio`. -/
def checkAndUpdatePrio (k : State T) (thread : T) (id : ℕ) : Option (State T × Bool) :=
  if (k.mutex id).ceilingPriority ≠ 0xff ∨ k.currentPriority thread = (k.mutex id).priority then
    (k.changePriority thread (k.threadGetMutexPriority thread)).map fun k => (k, true)
  else some (k, false)

/-- The part of `_rt_mutex_take` that notes the priority of a thread that has started to wait. -/
def noteWaiter (fuel : ℕ) (k : State T) (thread : T) (id : ℕ) : Option (State T) :=
  let priority := k.currentPriority thread
  if priority < (k.mutex id).priority then
    let k := k.setMutex id ((k.mutex id).withPriority priority)
    match (k.mutex id).owner with
    | some owner =>
      if priority < k.currentPriority owner then threadUpdatePriority fuel k owner priority
      else some k
    | none => none
  else some k

/-- The part of `_rt_mutex_take` that waits: up to the release of the spinlock. -/
def mutexSuspend (fuel : ℕ) (k : State T) (thread : T) (id : ℕ) (timeout : ℤ)
    (suspendFlag : SuspendFlag) : Option (State T × Option ℤ) :=
  (k.rtThreadSuspendToList thread (some (.mutex id)) .prio suspendFlag).bind fun (s, ok) =>
    let k := { k with toSched := s }
    if ok then
      (noteWaiter fuel (k.setPendingObject thread (some id)) thread id).map fun k =>
        let k := (k.startTimerIf thread timeout).setPc thread (.mutexResched id)
        (k.onSched (·.rtExitCritical), none)
    else some (k.onSched (·.rtExitCritical), some (-rtError))

/-- `_rt_mutex_take`, up to its return or its suspension. -/
def mutexTake (fuel : ℕ) (k : State T) (id : ℕ) (timeout : ℤ) (suspendFlag : SuspendFlag) :
    Option (State T × Option ℤ) :=
  match k.current with
  | none => none
  | some thread =>
    let k := (k.onSched (·.rtEnterCritical)).setError thread rtEok
    let m := k.mutex id
    if m.owner = some thread then
      if m.hold < rtMutexHoldMax then
        let k := k.setMutex id { m with hold := m.hold + 1 }
        some (k.onSched (·.rtExitCritical), some rtEok)
      else some (k.onSched (·.rtExitCritical), some (-rtEfull))
    else if m.owner = none then
      let k := k.setMutex id { m with owner := some thread, priority := 0xff, hold := 1 }
      let raised := if m.ceilingPriority ≠ 0xff ∧ m.ceilingPriority < k.currentPriority thread then
          threadUpdatePriority fuel k thread m.ceilingPriority
        else some k
      raised.map fun k => ((k.takenInsert thread id).onSched (·.rtExitCritical), some rtEok)
    else if timeout = 0 then
      some ((k.setError thread rtEtimeout).onSched (·.rtExitCritical), some (-rtEtimeout))
    else mutexSuspend fuel k thread id timeout suspendFlag

/-- `rt_mutex_take`. -/
def rtMutexTake (fuel : ℕ) (k : State T) (id : ℕ) (timeout : ℤ) : Option (State T × Option ℤ) :=
  mutexTake fuel k id timeout .uninterruptible

/-- The part of `_rt_mutex_take` that updates the priorities after a timeout; `need_update` is
decided before the priority of the mutex is updated. -/
def giveUp (fuel : ℕ) (k : State T) (thread : T) (id : ℕ) : Option (State T) :=
  match (k.mutex id).owner with
  | some owner =>
    let needUpdate : Bool := k.currentPriority owner = k.currentPriority thread
    let k := k.mutexUpdatePriority id
    if needUpdate then
      let priority := k.threadGetMutexPriority owner
      if priority ≠ k.currentPriority owner then threadUpdatePriority fuel k owner priority
      else some k
    else some k
  | none => some (k.mutexUpdatePriority id)

/-- The end of `_rt_mutex_take` for a thread that was suspended: it owns the mutex, or gives up. -/
def mutexTakeWoken (fuel : ℕ) (k : State T) (thread : T) (id : ℕ) :
    Option (State T × Option ℤ) :=
  let k := k.onSched (·.rtEnterCritical)
  if k.error thread = rtEok then
    if (k.mutex id).owner = some thread then
      some ((k.setPc thread .idle).onSched (·.rtExitCritical), some rtEok)
    else none
  else if (k.mutex id).owner = some thread then none
  else
    let ret := k.error thread
    (giveUp fuel k thread id).map fun k =>
      let k := k.setPc thread (.mutexClear (if 0 < ret then -ret else ret))
      (k.onSched (·.rtExitCritical), none)

/-- The wake-up loop of `rt_mutex_release`: the first waiting thread that is not just timing out.
Every round takes the head out of the list, so the length of the list bounds the rounds. -/
def releaseWake (id : ℕ) : ℕ → Sched T → Option (Sched T × Option T)
  | 0, s => some (s, none)
  | rounds + 1, s =>
    match s.lists (.mutex id) with
    | [] => some (s, none)
    | next :: _ =>
      if s.isSuspended next then
        let r := (s.listRemove next).rtSchedThreadReady next
        if r.2 then some (r.1, some next) else releaseWake id rounds r.1
      else none

/-- The rounds of the wake-up loop: nobody waits any more, the first thread is woken, or it is skipped. -/
theorem releaseWake_induct {id rounds : ℕ} {s s' : Sched T} {next : Option T}
    {C : Sched T → Sched T → Option T → Prop} (hnone : ∀ s, C s s none)
    (hsome : ∀ s n, n ∈ s.lists (.mutex id) → s.isSuspended n = true →
      ((s.listRemove n).rtSchedThreadReady n).2 = true →
      C s ((s.listRemove n).rtSchedThreadReady n).1 (some n))
    (hskip : ∀ s s' n next, n ∈ s.lists (.mutex id) → s.isSuspended n = true →
      ((s.listRemove n).rtSchedThreadReady n).2 = false →
      C ((s.listRemove n).rtSchedThreadReady n).1 s' next → C s s' next)
    (heq : releaseWake id rounds s = some (s', next)) : C s s' next := by
  induction rounds generalizing s with
  | zero =>
    cases heq
    exact hnone _
  | succ rounds ih =>
    unfold releaseWake at heq
    split at heq
    · cases heq
      exact hnone _
    next n rest hlist =>
      have hmem : n ∈ s.lists (.mutex id) := by simp [hlist]
      split_ifs at heq with hsusp
      dsimp only at heq
      split at heq
      next hok =>
        cases heq
        exact hsome s n hmem hsusp hok
      next hfail =>
        exact hskip s s' n next hmem hsusp (Bool.eq_false_of_not_eq_true hfail) (ih heq)

/-- The part of `rt_mutex_release` that makes the woken thread the owner. -/
def setNewOwner (k : State T) (next : T) (id : ℕ) : State T :=
  let k := k.setMutex id { k.mutex id with owner := some next, hold := 1 }
  let k := (k.takenInsert next id).setPendingObject next none
  k.mutexUpdatePriority id

/-- `rt_mutex_release` after its last `hold` has gone: up to the release of the spinlock, with
`need_schedule`. -/
def releaseLast (k : State T) (thread : T) (id : ℕ) : Option (State T × Bool) :=
  ((k.takenRemove id).checkAndUpdatePrio thread id).bind fun (k, needSchedule) =>
    (releaseWake id (k.lists (.mutex id)).length k.toSched).map fun (s, next) =>
      let k := { k with toSched := s }
      match next with
      | some next => (k.setNewOwner next id, true)
      | none =>
        (k.setMutex id { k.mutex id with owner := none, priority := 0xff }, needSchedule)

/-- `rt_mutex_release`. -/
def rtMutexRelease (k : State T) (id : ℕ) : Option (State T × Option ℤ) :=
  match k.current with
  | none => none
  | some thread =>
    let k := k.onSched (·.rtEnterCritical)
    let m := k.mutex id
    if m.owner = some thread then
      let k := k.setMutex id { m with hold := m.hold - 1 }
      if (k.mutex id).hold = 0 then
        (k.releaseLast thread id).map fun (k, needSchedule) =>
          if needSchedule then
            ((k.setPc thread (.resched rtEok)).onSched (·.rtExitCritical), none)
          else (k.onSched (·.rtExitCritical), some rtEok)
      else some (k.onSched (·.rtExitCritical), some rtEok)
    else
      some ((k.setError thread (-rtError)).onSched (·.rtExitCritical), some (-rtError))

/-- `rt_mutex_release` inside a critical section: the last `rt_schedule` does nothing, and the call goes
on. -/
def mutexReleaseNested (k : State T) (id : ℕ) : Option (State T) :=
  (k.rtMutexRelease id).map fun r =>
    match k.current with
    | some thread => r.1.setPc thread (k.pc thread)
    | none => r.1

/-- `rt_mutex_drop_thread`. -/
def rtMutexDropThread (fuel : ℕ) (k : State T) (id : ℕ) (thread : T) : Option (State T) :=
  if k.pendingObject thread = some id then
    let k := (k.onSched (·.rtEnterCritical)).onSched (·.listRemove thread)
    (giveUp fuel k thread id).map (·.onSched (·.rtExitCritical))
  else none

/-- `rt_mutex_setprioceiling`; it returns the old ceiling. -/
def rtMutexSetprioceiling (fuel : ℕ) (k : State T) (id priority : ℕ) :
    Option (State T × Option ℤ) :=
  if priority < k.priorityMax then
    let k := k.onSched (·.rtEnterCritical)
    let old := (k.mutex id).ceilingPriority
    let k := k.setMutex id { k.mutex id with ceilingPriority := priority }
    let updated := match (k.mutex id).owner with
      | some owner =>
        let highest := k.threadGetMutexPriority owner
        if highest ≠ k.currentPriority owner then threadUpdatePriority fuel k owner highest
        else some k
      | none => some k
    updated.map fun k => (k.onSched (·.rtExitCritical), some (old : ℤ))
  else some (k, some 0xff)

end RtThread.Kernel.State
