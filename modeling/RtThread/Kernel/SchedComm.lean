import RtThread.Kernel.Sched
import RtThread.Lib.KeyedList

/-!
# Suspending, readying and re-prioritising threads

`scheduler_comm.c`, the suspend lists of `ipc.c` and the scheduling part of `thread.c`. A result
`none` is a failed assertion; where a function of the source reports an error code, the Boolean
beside the state is true for `RT_EOK`.

On one processor `rt_sched_lock` only disables interrupts, so a function here is one atomic step.
-/

namespace RtThread.Kernel

open Function (update)

/-- `RT_IPC_FLAG_FIFO` and `RT_IPC_FLAG_PRIO`. -/
inductive IpcFlag where
  | fifo
  | prio
  deriving Repr, DecidableEq

namespace Sched

variable {T : Type*} [DecidableEq T]

/-- The state after `rt_system_scheduler_init` in which every thread has been initialised. -/
def boot (priorityMax : ℕ) (priority tick : T → ℕ) : Sched T where
  priorityMax := priorityMax
  stat := fun _ => ⟨.init, false, 0⟩
  initPriority := priority
  currentPriority := priority
  number := fun _ => 0
  numberMask := fun _ => 0
  highMask := fun _ => 0
  initTick := tick
  remainingTick := tick
  ttmrSet := fun _ => false
  timerActive := fun _ => false
  timerFiring := fun _ => false
  lists := fun _ => []
  readyPriorityGroup := 0
  readyTable := fun _ => 0
  current := none
  lockNest := 0

/-- `rt_timer_start` on the thread's timer. -/
def rtTimerStart (s : Sched T) (thread : T) : Sched T :=
  { s with
    ttmrSet := update s.ttmrSet thread true
    timerActive := update s.timerActive thread true }

/-- `rt_sched_thread_timer_stop`: the flag is masked out no matter whether the stop succeeds. -/
def rtSchedThreadTimerStop (s : Sched T) (thread : T) : Sched T × Bool :=
  if s.ttmrSet thread then
    ({ s with
        ttmrSet := update s.ttmrSet thread false
        timerActive := update s.timerActive thread false },
      s.timerActive thread)
  else (s, true)

/-- `rt_sched_thread_ready`: stop the thread's timer, unlink the thread and make it ready. -/
def rtSchedThreadReady (s : Sched T) (thread : T) : Sched T × Bool :=
  if s.isSuspended thread then
    let (s, ok) := s.rtSchedThreadTimerStop thread
    if ok then ((s.listRemove thread).rtSchedInsertThread thread, true) else (s, false)
  else (s, false)

/-- `rt_sched_unlock_n_resched`. -/
def rtSchedUnlockNResched (s : Sched T) : Sched T :=
  if s.current.isSome then s.rtSchedule else s

/-- `rt_enter_critical`. -/
def rtEnterCritical (s : Sched T) : Sched T := { s with lockNest := s.lockNest + 1 }

/-- `rt_exit_critical`. -/
def rtExitCritical (s : Sched T) : Sched T :=
  let s := { s with lockNest := s.lockNest - 1 }
  if s.lockNest = 0 ∧ s.current.isSome then s.rtSchedule else s

/-- `rt_susp_list_enqueue`: at the end, or before the first thread of lower priority. -/
def rtSuspListEnqueue (s : Sched T) (head : ListHead) (thread : T) : IpcFlag → Sched T
  | .fifo => s.listInsertBefore head thread
  | .prio =>
    { s with
      lists := update s.lists head
        (Lib.insertBy s.currentPriority thread (s.lists head)) }

/-- `rt_thread_suspend_to_list`; without a list it is `rt_thread_suspend_with_flag`. -/
def rtThreadSuspendToList (s : Sched T) (thread : T) (head : Option ListHead) (flag : IpcFlag)
    (suspendFlag : SuspendFlag) : Option (Sched T × Bool) :=
  if s.current = some thread then
    if (s.stat thread).code = .ready ∨ (s.stat thread).code = .running then
      let s := (s.rtSchedRemoveThread thread).setCode thread (.suspend suspendFlag)
      let s := match head with
        | some head => s.rtSuspListEnqueue head thread flag
        | none => s
      some ((s.rtSchedThreadTimerStop thread).1, true)
    else some (s, false)
  else none

/-- `rt_sched_thread_change_priority`. -/
def rtSchedThreadChangePriority (s : Sched T) (thread : T) (priority : ℕ) : Option (Sched T) :=
  if priority < s.priorityMax then
    if (s.stat thread).code = .ready then
      let s := s.rtSchedRemoveThread thread
      let s := (s.setCurrentPriority thread priority).setMasks thread
      let s := s.setStat thread ⟨.init, false, 0⟩
      some (s.rtSchedInsertThread thread)
    else some ((s.setCurrentPriority thread priority).setMasks thread)
  else none

/-- `rt_sched_thread_yield`. -/
def rtSchedThreadYield (s : Sched T) (thread : T) : Sched T :=
  let s := { s with remainingTick := update s.remainingTick thread (s.initTick thread) }
  s.setStat thread { s.stat thread with yield := true }

/-- `rt_sched_tick_increase`, on the current thread; the counter is a 32-bit word. -/
def rtSchedTickIncrease (s : Sched T) (thread : T) : Sched T :=
  let left := (s.remainingTick thread + 2 ^ 32 - 1) % 2 ^ 32
  let s := { s with remainingTick := update s.remainingTick thread left }
  if left ≠ 0 then s else (s.rtSchedThreadYield thread).rtSchedUnlockNResched

/-- `rt_thread_resume`. -/
def rtThreadResume (s : Sched T) (thread : T) : Sched T × Bool :=
  let (s, ok) := s.rtSchedThreadReady thread
  if ok then (s.rtSchedUnlockNResched, true) else (s, false)

/-- `rt_sched_thread_startup`: the masks are computed and the thread can be resumed. -/
def rtSchedThreadStartup (s : Sched T) (thread : T) : Sched T :=
  (s.setMasks thread).setStat thread ⟨.suspend .interruptible, false, 0⟩

/-- `rt_thread_startup`. -/
def rtThreadStartup (s : Sched T) (thread : T) : Option (Sched T) :=
  if (s.stat thread).code = .init then some ((s.rtSchedThreadStartup thread).rtThreadResume thread).1
  else none

/-- `rt_thread_yield`, by the current thread. -/
def rtThreadYield (s : Sched T) (thread : T) : Sched T :=
  (s.rtSchedThreadYield thread).rtSchedUnlockNResched

/-- The first step of an expiry: `rt_timer_check` takes the due timer out of its list and
deactivates it; the callback is still to come. -/
def timerDue (s : Sched T) (thread : T) : Option (Sched T) :=
  if s.timerActive thread ∧ ¬ s.timerFiring thread then
    some { s with
      timerActive := update s.timerActive thread false
      timerFiring := update s.timerFiring thread true }
  else none

/-- The scheduling part of `_thread_timeout`, the second step of an expiry. -/
def threadTimeout (s : Sched T) (thread : T) : Option (Sched T) :=
  if s.timerFiring thread then
    let s := { s with timerFiring := update s.timerFiring thread false }
    if s.isSuspended thread then
      some ((s.listRemove thread).rtSchedInsertThread thread).rtSchedUnlockNResched
    else none
  else none

/-- `rt_timer_detach` on the thread's timer. -/
def rtTimerDetach (s : Sched T) (thread : T) : Sched T :=
  { s with timerActive := update s.timerActive thread false }

/-- `rt_sched_thread_close`. -/
def rtSchedThreadClose (s : Sched T) (thread : T) : Sched T := s.setStat thread ⟨.close, false, 0⟩

/-- `rt_thread_defunct_enqueue`. -/
def rtThreadDefunctEnqueue (s : Sched T) (thread : T) : Sched T :=
  s.listInsertAfter .defunct thread

/-- `_thread_exit`, by the current thread. -/
def threadExit (s : Sched T) (thread : T) : Sched T :=
  let s := s.rtEnterCritical
  let s := s.rtSchedRemoveThread thread
  let s := (s.rtTimerDetach thread).rtSchedThreadClose thread
  let s := s.rtThreadDefunctEnqueue thread
  s.rtExitCritical.rtSchedule

/-- The section of `_thread_detach` under the scheduler lock; it reports whether it closed the
thread, which it does unless the thread was closed before. -/
def threadDetachSched (s : Sched T) (thread : T) : Sched T × Bool :=
  if (s.stat thread).code = .close then (s, false)
  else
    let s := if (s.stat thread).code = .init then s else s.rtSchedRemoveThread thread
    ((s.rtTimerDetach thread).rtSchedThreadClose thread, true)

/-- `_thread_detach` of a thread that has no mutex to give back. -/
def threadDetach (s : Sched T) (thread : T) : Sched T :=
  let r := s.rtEnterCritical.threadDetachSched thread
  (if r.2 then r.1.rtThreadDefunctEnqueue thread else r.1).rtExitCritical

/-- `rt_system_scheduler_start`. -/
def rtSystemSchedulerStart (s : Sched T) : Option (Sched T) :=
  match s.schedulerGetHighestPriorityThread with
  | some best =>
    let s := { s with current := some best }
    some ((s.rtSchedRemoveThread best).setStat best ⟨.running, false, 0⟩)
  | none => none

end Sched

end RtThread.Kernel
