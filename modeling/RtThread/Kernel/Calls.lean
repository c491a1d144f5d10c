import RtThread.Kernel.Event
import RtThread.Kernel.Mailbox
import RtThread.Kernel.MessageQueue
import RtThread.Kernel.Semaphore
import RtThread.Kernel.Thread
import RtThread.Lib.Transition

/-!
# The kernel as a transition system

The running thread makes a call or goes on inside one; interrupts call the functions that do not
wait, let a thread timer expire in its two steps, and count ticks. A switch to any ready thread is
an event of its own, for the results that hold under every interleaving and not only under the
ones that `rt_schedule` chooses.
-/

namespace RtThread.Kernel

open Option

/-- The calls that a thread makes. -/
inductive Call (T : Type*) where
  | startup (thread : T)
  | resume (thread : T)
  | yield
  | changePriority (thread : T) (priority : ℕ)
  | mutexTake (id : ℕ) (timeout : ℤ)
  | mutexRelease (id : ℕ)
  | semTake (id : ℕ) (timeout : ℤ)
  | semRelease (id : ℕ)
  | semDetach (id : ℕ)
  | eventSend (id : ℕ) (set : BitVec 32)
  | eventRecv (id : ℕ) (set : BitVec 32) (option : EventFlags) (timeout : ℤ)
  | eventDetach (id : ℕ)
  | mbSend (id value : ℕ) (timeout : ℤ)
  | mbUrgent (id value : ℕ)
  | mbRecv (id : ℕ) (timeout : ℤ)
  | mqSend (id : ℕ) (bytes : List ℕ) (prio timeout : ℤ)
  | mqUrgent (id : ℕ) (bytes : List ℕ)
  | mqRecv (id size : ℕ) (timeout : ℤ)
  | mutexSetprioceiling (id priority : ℕ)
  | eventReset (id : ℕ)
  | mbReset (id : ℕ)
  | mqReset (id : ℕ)
  | exit
  | detach (thread : T)

/-- The calls that an interrupt makes; start-up code also starts threads this way. -/
inductive IsrCall (T : Type*) where
  | startup (thread : T)
  | resume (thread : T)
  | semRelease (id : ℕ)
  | eventSend (id : ℕ) (set : BitVec 32)
  | mbSend (id value : ℕ)
  | mbUrgent (id value : ℕ)
  | mqSend (id : ℕ) (bytes : List ℕ)

/-- One event of the kernel. -/
inductive KernelEvent (T : Type*) where
  /-- The running thread makes a call. -/
  | call (call : Call T)
  /-- The running thread goes on inside its call. -/
  | proceed
  /-- An interrupt makes a call. -/
  | isr (call : IsrCall T)
  /-- `rt_timer_check` deactivates the due timer of a thread. -/
  | timerDue (thread : T)
  /-- `_thread_timeout` runs. -/
  | timeout (thread : T)
  /-- `rt_tick_increase`, without the timers. -/
  | tick
  /-- `rt_system_scheduler_start`. -/
  | schedulerStart
  /-- Some ready thread is switched to. -/
  | dispatch (thread : T)

namespace State

variable {T : Type*}
variable {fuel : ℕ} {k k' : State T} {ret : Option ℤ}

/-- A call that has returned. -/
def returned (r : State T × ℤ) : State T × Option ℤ := (r.1, some r.2)

/-- A kernel before any thread is started: no mutex is held and no call is in progress. -/
structure Booted (k : State T) : Prop where
  sched : ∃ (priorityMax : ℕ) (priority tick : T → ℕ), priorityMax ≤ 256 ∧
    (∀ t, priority t < priorityMax) ∧ k.toSched = Sched.boot priorityMax priority tick
  pc : ∀ t, k.pc t = .idle
  pendingObject : ∀ t, k.pendingObject t = none
  takenObjectList : ∀ t, k.takenObjectList t = []
  mutex : ∀ id, k.mutex id = ⟨0xff, 0xff, 0, none⟩

/-- The kernel at start-up, with empty IPC objects. -/
def boot (priorityMax : ℕ) (priority tick : T → ℕ) : State T where
  toSched := Sched.boot priorityMax priority tick
  tick := 0
  error := fun _ => rtEok
  pendingObject := fun _ => none
  takenObjectList := fun _ => []
  eventSet := fun _ => 0
  eventInfo := fun _ => ⟨false, false, false⟩
  pc := fun _ => .idle
  mutex := fun _ => ⟨0xff, 0xff, 0, none⟩
  sem := fun _ => ⟨0, 0xffff, .prio⟩
  event := fun _ => ⟨0, .prio⟩
  mailbox := fun _ => ⟨fun _ => 0, 1, 0, 0, 0, .prio⟩
  messageQueue := fun _ => ⟨false, fun _ => ⟨none, 0, 0, []⟩, 0, 0, 0, none, none, none, .prio⟩
  recved := fun _ => 0
  mail := fun _ => 0
  message := fun _ => ([], 0)

/-- The kernel at start-up is booted. -/
theorem booted_boot {priorityMax : ℕ} {priority tick : T → ℕ} (hmax : priorityMax ≤ 256 := by decide)
    (hprio : ∀ t, priority t < priorityMax := by decide) : (boot priorityMax priority tick).Booted :=
  ⟨⟨priorityMax, priority, tick, hmax, hprio, rfl⟩, fun _ => rfl, fun _ => rfl, fun _ => rfl, fun _ => rfl⟩

variable [DecidableEq T]

/-- A call of the running thread, up to its return or to the place where another thread may run. -/
def call (fuel : ℕ) (k : State T) : Call T → Option (State T × Option ℤ)
  | .startup thread =>
    (k.rtThreadStartup thread).map fun s => ({ k with toSched := s }, some rtEok)
  | .resume thread =>
    let r := k.rtThreadResume thread
    some ({ k with toSched := r.1 },
      some (if r.2 then rtEok else if k.isSuspended thread then -rtError else -rtEinval))
  | .yield => k.current.map fun thread => (k.onSched (·.rtThreadYield thread), some rtEok)
  | .changePriority thread priority =>
    (k.changePriority thread priority).map fun k => (k, some rtEok)
  | .mutexTake id timeout => rtMutexTake fuel k id timeout
  | .mutexRelease id => k.rtMutexRelease id
  | .semTake id timeout => k.rtSemTake id timeout
  | .semRelease id => some (returned (k.rtSemRelease id))
  | .semDetach id => some (returned (k.rtSemDetach id))
  | .eventSend id set => some (returned (k.rtEventSend id set))
  | .eventRecv id set option timeout => k.rtEventRecv id set option timeout
  | .eventDetach id => some (returned (k.rtEventDetach id))
  | .mbSend id value timeout => k.mbSendWait id value timeout .uninterruptible
  | .mbUrgent id value => some (returned (k.rtMbUrgent id value))
  | .mbRecv id timeout => k.mbRecv id timeout .uninterruptible
  | .mqSend id bytes prio timeout => k.mqSendWait id bytes prio timeout .uninterruptible
  | .mqUrgent id bytes => k.mqUrgent id bytes
  | .mqRecv id size timeout => k.mqRecv id size timeout .uninterruptible
  | .mutexSetprioceiling id priority => rtMutexSetprioceiling fuel k id priority
  | .eventReset id => some (returned (k.rtEventReset id))
  | .mbReset id => some (returned (k.rtMbReset id))
  | .mqReset id => (k.rtMqReset id).map returned
  | .exit => k.threadExit
  | .detach thread => threadDetach fuel k thread

/-- The running thread goes on inside its call. -/
def proceed (fuel : ℕ) (k : State T) (thread : T) : Option (State T × Option ℤ) :=
  match k.pc thread with
  | .idle => none
  | .resched ret => some ((k.setPc thread .idle).onSched (·.rtSchedule), some ret)
  | .mutexResched id => some ((k.setPc thread (.mutexWoken id)).onSched (·.rtSchedule), none)
  | .mutexWoken id => mutexTakeWoken fuel k thread id
  | .mutexClear ret => some ((k.setPendingObject thread none).setPc thread .idle, some ret)
  | .semWoken _ => some (k.semTakeWoken thread)
  | .eventWoken _ => some (k.eventRecvWoken thread)
  | .mbSendWoken id value timeout suspendFlag start =>
    k.mbSendWoken thread id value timeout suspendFlag start
  | .mbRecvWoken id timeout suspendFlag start => k.mbRecvWoken thread id timeout suspendFlag start
  | .mqSendWoken id bytes prio timeout suspendFlag start =>
    k.mqSendWoken thread id bytes prio timeout suspendFlag start
  | .mqSendFill id cell bytes prio =>
    some (returned ((k.setPc thread .idle).mqSendLink id cell bytes prio))
  | .mqUrgentFill id cell bytes =>
    some (returned ((k.setPc thread .idle).mqUrgentLink id cell bytes))
  | .mqRecvWoken id size timeout suspendFlag start =>
    k.mqRecvWoken thread id size timeout suspendFlag start
  | .mqRecvCopy id cell size => some (k.mqRecvCopy thread id cell size)

/-- A call of an interrupt. -/
def isrCall (k : State T) : IsrCall T → Option (State T)
  | .startup thread => (k.rtThreadStartup thread).map fun s => { k with toSched := s }
  | .resume thread => some { k with toSched := (k.rtThreadResume thread).1 }
  | .semRelease id => some (k.rtSemRelease id).1
  | .eventSend id set => some (k.rtEventSend id set).1
  | .mbSend id value => some (k.rtMbSend id value).1
  | .mbUrgent id value => some (k.rtMbUrgent id value).1
  | .mqSend id bytes => (k.rtMqSend id bytes).map Prod.fst

/-- An event, with the return value of a call that returned. -/
def exec (fuel : ℕ) (k : State T) : KernelEvent T → Option (State T × Option ℤ)
  | .call call => k.caller.bind fun _ => State.call fuel k call
  | .proceed => k.runner.bind fun thread => proceed fuel k thread
  | .isr call => (k.isrCall call).map fun k => (k, none)
  | .timerDue thread => (k.timerDue thread).map fun s => ({ k with toSched := s }, none)
  | .timeout thread => (k.threadTimeout thread).map fun k => (k, none)
  | .tick => k.current.map fun thread =>
    ({ k.onSched (·.rtSchedTickIncrease thread) with tick := (k.tick + 1) % 2 ^ 32 }, none)
  | .schedulerStart =>
    if k.current = none then
      k.rtSystemSchedulerStart.map fun s => ({ k with toSched := s }, none)
    else none
  | .dispatch thread => k.current.bind fun cur =>
    if (k.stat thread).code = .ready ∧ k.lockNest = 0 then
      some (k.onSched (·.switchTo cur thread ((k.stat cur).code = .running)), none)
    else none

/-- A call is made by the running thread. -/
theorem exec_call {c : Call T} (h : exec fuel k (.call c) = some (k', ret)) :
    ∃ t, k.caller = some t ∧ call fuel k c = some (k', ret) := bind_eq_some_iff.mp h

/-- The running thread goes on. -/
theorem exec_proceed (h : exec fuel k .proceed = some (k', ret)) :
    ∃ t, k.runner = some t ∧ proceed fuel k t = some (k', ret) := bind_eq_some_iff.mp h

/-- A call of an interrupt does not return to a thread. -/
theorem exec_isr {c : IsrCall T}
    (h : exec fuel k (.isr c) = some (k', ret)) : k.isrCall c = some k' ∧ ret = none := by
  obtain ⟨k1, hk1, ⟨⟩⟩ := map_eq_some_iff.mp h
  exact ⟨hk1, rfl⟩

/-- The kernel. -/
def system (T : Type*) [DecidableEq T] : Lib.TransitionSystem (State T) (KernelEvent T) where
  init := Booted
  step k e k' := ∃ fuel ret, exec fuel k e = some (k', ret)

/-- An event, as a function to the next state, when it meets a condition. -/
def nextWhen (ok : State T → KernelEvent T → Prop) [∀ k e, Decidable (ok k e)] (fuel : ℕ)
    (k : State T) (e : KernelEvent T) : Option (State T) :=
  if ok k e then (exec fuel k e).map Prod.fst else none

/-- A computed step is a step of the guarded system. -/
theorem guarded_step_of_nextWhen {ok : State T → KernelEvent T → Prop} [∀ k e, Decidable (ok k e)]
    {e : KernelEvent T} (h : nextWhen ok fuel k e = some k') : ((system T).guarded ok).step k e k' := by
  obtain ⟨hok, h⟩ := ite_none_right_eq_some.mp h
  obtain ⟨⟨_, ret⟩, heq, rfl⟩ := map_eq_some_iff.mp h
  exact ⟨hok, fuel, ret, heq⟩

/-- A computed run reaches a state of which the computed facts hold, in every system that has its steps. -/
theorem exists_run {M : Lib.TransitionSystem (State T) (KernelEvent T)} {P : State T → Prop}
    [DecidablePred P] (ok : State T → KernelEvent T → Prop) [∀ k e, Decidable (ok k e)] (fuel : ℕ)
    (k : State T) (events : List (KernelEvent T)) (hinit : M.init k)
    (hstep : ∀ k e k', ok k e → (system T).step k e k' → M.step k e k')
    (hrun : (Lib.TransitionSystem.runEvents (nextWhen ok fuel) k events).any (P ·) := by decide +kernel) :
    ∃ k', M.Reachable k' ∧ P k' := by
  refine Lib.TransitionSystem.Reachable.exists_run _ events (.init hinit) (fun k k' _ e _ h => ?_) hrun
  obtain ⟨hok, hexec⟩ := guarded_step_of_nextWhen h
  exact hstep k e k' hok hexec

end State

end RtThread.Kernel
