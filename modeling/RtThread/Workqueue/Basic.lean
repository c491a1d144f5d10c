import RtThread.Lib.Fair
import Mathlib.Logic.Function.Basic
import Mathlib.Order.Basic

/-!
# Work queues

`rt-thread/components/drivers/ipc/workqueue.c`. The sections under the spinlock of the queue are one
step each, and so is everything between two of them that another thread can tell apart: the worker's
write of `work_current` after a work function, each semaphore call of its completion loop, the read
of `work_current` that a synchronous cancel starts with, and what it does next. The soft timer of a
work item goes from its list (`active`) through `_soft_timer_check`, which takes it out (`expired`),
to its handler, which reads the item (`entered`) and then locks the queue.

A failed `RT_ASSERT` ends a run. Thread priorities play no part: the steps interleave in any order.
-/

namespace RtThread.Workqueue

open Lib TransitionSystem

/-- `RT_TICK_MAX`. -/
abbrev rtTickMax : ℕ := 0xFFFFFFFF

/-- The error codes of the work queue. -/
inductive Err where
  | eok
  | error
  | ebusy
  deriving DecidableEq

/-- Where the timer of a work item is; `RT_TIMER_FLAG_ACTIVATED` is set in `active` only and
`RT_TIMER_FLAG_PROCESSING` in the last two. -/
inductive TimerPhase where
  | idle
  | active
  | expired
  | entered
  deriving DecidableEq

namespace TimerPhase

/-- `rt_timer_start`, with its result. -/
def rtTimerStart : TimerPhase → TimerPhase × Err
  | idle | active => (active, .eok)
  | expired => (expired, .error)
  | entered => (entered, .error)

/-- `rt_timer_stop`, with its result. -/
def rtTimerStop : TimerPhase → TimerPhase × Err
  | active => (idle, .eok)
  | phase => (phase, .error)

/-- `rt_timer_control` with `RT_TIMER_CTRL_SET_TIME`: an active timer is taken out of its list. -/
def rtTimerControl : TimerPhase → TimerPhase
  | active => idle
  | phase => phase

end TimerPhase

/-- `struct rt_work`: its flags `RT_WORK_STATE_PENDING` and `RT_WORK_STATE_SUBMITTING`, whether
`workqueue` is set, and its timer. -/
structure Work where
  pending : Bool
  submitting : Bool
  workqueue : Bool
  timer : TimerPhase
  deriving DecidableEq

/-- The item after `rt_work_init`. -/
def rtWorkInit : Work := ⟨false, false, false, .idle⟩

/-- Where the worker thread is: before it locks the queue, suspended, in a work function, and in
`_workqueue_work_completion` before `rt_sem_trytake` or `rt_sem_release`. -/
inductive Worker where
  | check
  | suspended
  | running
  | completing
  | releasing
  deriving DecidableEq

/-- Where a thread is in `rt_workqueue_cancel_work_sync`: outside, after the read of `work_current`
with what it saw, and in `rt_sem_take`. -/
inductive Caller (W : Type*) where
  | idle
  | checked (work : W) (current : Bool)
  | waiting
  deriving DecidableEq

/-- `struct rt_workqueue` with the work items, the worker and the threads that cancel. -/
structure State (W T : Type*) where
  workList : List W
  delayedList : List W
  workCurrent : Option W
  work : W → Work
  worker : Worker
  sem : ℕ
  waiters : List T
  caller : T → Caller W

namespace State

variable {W T : Type*} [DecidableEq W] [DecidableEq T]

/-- The queue after `rt_workqueue_create`, with initialised work items. -/
def created : State W T :=
  ⟨[], [], none, fun _ => rtWorkInit, .check, 0, [], fun _ => .idle⟩

/-- `rt_list_remove` of a work item's node. -/
def rtListRemove (s : State W T) (w : W) : State W T :=
  { s with workList := s.workList.erase w, delayedList := s.delayedList.erase w }

/-- A write to one work item. -/
def setWork (s : State W T) (w : W) (x : Work) : State W T :=
  { s with work := Function.update s.work w x }

/-- `rt_thread_resume` of the worker, which the callers do when no work is current. It fails unless
the worker is suspended. -/
def resumeWorker (s : State W T) : State W T :=
  { s with worker := if s.workCurrent = none ∧ s.worker = .suspended then .check else s.worker }

/-- `_workqueue_submit_work`. -/
def workqueueSubmitWork (s : State W T) (w : W) (ticks : ℕ) : State W T × Err :=
  let x := { s.work w with pending := false }
  let s := s.rtListRemove w
  if ticks = 0 then
    let s := { s with workList := s.workList ++ [w] }
    ((s.setWork w { x with pending := true, workqueue := true }).resumeWorker, .eok)
  else if ticks < rtTickMax / 2 then
    -- `rt_timer_init` starts from an idle timer
    let x := if x.submitting then { x with timer := x.timer.rtTimerControl }
      else { x with timer := .idle, submitting := true }
    let s := { s with delayedList := s.delayedList ++ [w] }
    (s.setWork w { x with workqueue := true, timer := x.timer.rtTimerStart.1 }, x.timer.rtTimerStart.2)
  else (s.setWork w x, .error)

/-- `rt_workqueue_dowork`. -/
def rtWorkqueueDowork (s : State W T) (w : W) : State W T × Err := s.workqueueSubmitWork w 0

/-- `rt_workqueue_urgent_work`. -/
def rtWorkqueueUrgentWork (s : State W T) (w : W) : State W T × Err :=
  let s := s.rtListRemove w
  (resumeWorker { s with workList := w :: s.workList }, .eok)

/-- `_workqueue_cancel_work`. -/
def workqueueCancelWork (s : State W T) (w : W) : State W T × Err :=
  let x := { s.work w with pending := false }
  let s := s.rtListRemove w
  let err : Err := if s.workCurrent ≠ some w then .eok else .ebusy
  if x.submitting then
    if x.timer.rtTimerStop.2 ≠ .eok then (s.setWork w x, x.timer.rtTimerStop.2)
    else (s.setWork w { x with timer := .idle, submitting := false, workqueue := false }, err)
  else (s.setWork w { x with workqueue := false }, err)

/-- The assertions of `_delayed_work_timeout_handler`. -/
def handlerAsserts (s : State W T) (w : W) : Bool := (s.work w).submitting && (s.work w).workqueue

/-- The section under the lock of `_delayed_work_timeout_handler`. -/
def delayedWorkTimeoutHandler (s : State W T) (w : W) : State W T :=
  let x := { s.work w with timer := .idle, submitting := false }
  let s := s.rtListRemove w
  if s.workCurrent ≠ some w then
    let s := { s with workList := s.workList ++ [w] }
    (s.setWork w { x with pending := true }).resumeWorker
  else (s.setWork w x).resumeWorker

/-- The next step of a timer that has been started. -/
def timerNext (s : State W T) (w : W) : Option (State W T) :=
  match (s.work w).timer with
  | .idle => none
  | .active => some (s.setWork w { s.work w with timer := .expired })
  | .expired =>
    if s.handlerAsserts w then some (s.setWork w { s.work w with timer := .entered }) else none
  | .entered => some (s.delayedWorkTimeoutHandler w)

/-- `rt_sem_release` of the completion semaphore: the first thread that waits goes on. -/
def rtSemRelease (s : State W T) : State W T :=
  match s.waiters with
  | [] => { s with sem := s.sem + 1 }
  | t :: rest => { s with waiters := rest, caller := Function.update s.caller t .idle }

/-- `rt_sem_take` of the completion semaphore with `RT_WAITING_FOREVER`. -/
def rtSemTake (s : State W T) (t : T) : State W T :=
  if 0 < s.sem then { s with sem := s.sem - 1, caller := Function.update s.caller t .idle }
  else { s with waiters := s.waiters ++ [t], caller := Function.update s.caller t .waiting }

/-- The next step of `_workqueue_thread_entry`; the step from `running` is the return of the work
function and the write of `work_current`. -/
def workerNext (s : State W T) : Option (State W T) :=
  match s.worker with
  | .check =>
    match s.workList with
    | [] => some { s with worker := .suspended }
    | w :: rest =>
      let s := { s with workList := rest, workCurrent := some w, worker := .running }
      some (s.setWork w { s.work w with pending := false, workqueue := false })
  | .suspended => none
  | .running => some { s with workCurrent := none, worker := .completing }
  | .completing =>
    if s.sem = 0 then some { s with worker := .releasing }
    else some { s with sem := s.sem - 1, worker := .check }
  | .releasing => some { s.rtSemRelease with worker := .completing }

/-- The step of `rt_workqueue_cancel_work_sync` after the read of `work_current`. -/
def callerNext (s : State W T) (t : T) : Option (State W T) :=
  match s.caller t with
  | .idle | .waiting => none
  | .checked w current =>
    if current then some (s.rtSemTake t)
    else
      let s := (s.workqueueCancelWork w).1
      some { s with caller := Function.update s.caller t .idle }

end State

/-- The calls of the environment and the steps of the threads; `other` is a step elsewhere. -/
inductive Event (W T : Type*) where
  | submit (work : W) (ticks : ℕ)
  | urgent (work : W)
  | cancel (work : W)
  | timer (work : W)
  | worker
  | cancelSync (thread : T) (work : W)
  | proceed (thread : T)
  | other
  deriving DecidableEq

section System

variable {W T : Type*} [DecidableEq W] [DecidableEq T]

/-- The state after an event; `rt_workqueue_submit_work` asserts the bound of its delay. -/
def next (s : State W T) : Event W T → Option (State W T)
  | .submit w ticks => if ticks < rtTickMax / 2 then some (s.workqueueSubmitWork w ticks).1 else none
  | .urgent w => some (s.rtWorkqueueUrgentWork w).1
  | .cancel w => some (s.workqueueCancelWork w).1
  | .timer w => s.timerNext w
  | .worker => s.workerNext
  | .cancelSync t w =>
    if s.caller t = .idle then
      some { s with caller := Function.update s.caller t (.checked w (s.workCurrent = some w)) }
    else none
  | .proceed t => s.callerNext t
  | .other => some s

/-- A work queue from its creation on. -/
def system (W T : Type*) [DecidableEq W] [DecidableEq T] : TransitionSystem (State W T) (Event W T) :=
  ofNext (· = State.created) next

/-- The run through a sequence of events, after which nothing happens. -/
def runThrough {events : List (Event W T)} {s' : State W T}
    (hrun : runEvents next State.created events = some s') : (system W T).Run :=
  Run.ofEvents rfl hrun .other rfl

/-- After its events such a run stays in its last state. -/
theorem runThrough_of_le {events : List (Event W T)} {s' : State W T}
    (hrun : runEvents next State.created events = some s') {n : ℕ} (hn : events.length ≤ n) :
    (runThrough hrun).state n = s' ∧ (runThrough hrun).event n = .other :=
  ⟨pathState_of_le hrun hn, by simp [runThrough, Run.ofEvents, hn]⟩

end System

end RtThread.Workqueue
