import RtThread.Kernel.Basic
import RtThread.Lib.Transition

/-!
# Completions

`rt-thread/components/drivers/ipc/completion.c`, on the uniprocessor scheduler. A completion is one word
with the thread that waits and a flag. A call is one step up to the `rt_schedule` where its thread waits.

On one processor the spinlock only disables interrupts, so `rt_thread_resume` switches to a thread of
higher priority at once: `_completion_done` then writes its word when its thread runs again. Inside an
interrupt the switch comes after the whole call.
-/

namespace RtThread.Completion

open Kernel

/-- `RT_EEMPTY`. -/
def rtEempty : ℤ := 4
/-- `RT_EBUSY`. -/
def rtEbusy : ℤ := 7

/-- `struct rt_completion`: `RT_COMPLETION_THREAD` and `RT_COMPLETION_FLAG` of its word. -/
structure Word (T : Type*) where
  thread : Option T
  flag : Bool
  deriving DecidableEq

/-- The word after `rt_completion_init`, and after a wait. -/
def Word.clear {T : Type*} : Word T := ⟨none, false⟩

/-- The word after a done. -/
def Word.completed {T : Type*} : Word T := ⟨none, true⟩

/-- The place where a thread goes on when it runs again: at thread level, after the `rt_schedule` of
`rt_completion_wait`, or after the `rt_thread_resume` of `_completion_done`. -/
inductive Pc where
  | idle
  | waitWoken (id : ℕ)
  | doneResumed (id : ℕ) (error : ℤ)
  deriving DecidableEq

/-- The scheduler and the completions. -/
structure State (T : Type*) extends Sched T where
  error : T → ℤ
  pc : T → Pc
  word : ℕ → Word T

/-- The return of a call, with its value. -/
inductive Return where
  | wait (id : ℕ) (ret : ℤ)
  | done (id : ℕ) (ret : ℤ)
  deriving DecidableEq

/-- One event. -/
inductive Event (T : Type*) where
  /-- A thread is started, by another thread or by start-up code. -/
  | startup (thread : T)
  /-- The running thread yields. -/
  | yield
  /-- The running thread calls `rt_completion_wait`. -/
  | wait (id : ℕ) (timeout : ℤ)
  /-- The running thread calls `rt_completion_done` or `rt_completion_wakeup`. -/
  | done (id : ℕ)
  /-- An interrupt calls one of them. -/
  | isrDone (id : ℕ)
  /-- The running thread goes on inside its call. -/
  | proceed
  /-- `rt_timer_check` deactivates the due timer of a thread. -/
  | timerDue (thread : T)
  /-- `_thread_timeout` runs. -/
  | timeout (thread : T)
  /-- `rt_tick_increase`, without the timers. -/
  | tick
  /-- `rt_system_scheduler_start`. -/
  | schedulerStart
  /-- Some ready thread is switched to. -/
  | dispatch (thread : T)
  deriving DecidableEq

namespace State

variable {T : Type*} [DecidableEq T]

/-- Run a function of the scheduler. -/
def onSched (s : State T) (f : Sched T → Sched T) : State T := { s with toSched := f s.toSched }

/-- Write `thread->error`. -/
def setError (s : State T) (thread : T) (error : ℤ) : State T :=
  { s with error := Function.update s.error thread error }

/-- Set the place a thread goes on from. -/
def setPc (s : State T) (thread : T) (pc : Pc) : State T :=
  { s with pc := Function.update s.pc thread pc }

/-- Write the word of a completion. -/
def setWord (s : State T) (id : ℕ) (word : Word T) : State T :=
  { s with word := Function.update s.word id word }

/-- `rt_completion_wait`, up to its return or its suspension. -/
def rtCompletionWait (s : State T) (thread : T) (id : ℕ) (timeout : ℤ) :
    Option (State T × Option Return) :=
  if (s.word id).flag then some (s.setWord id .clear, some (.wait id rtEok))
  -- only one thread can suspend on complete
  else if (s.word id).thread ≠ none then none
  else if timeout = 0 then some (s, some (.wait id (-rtEtimeout)))
  else
    let s := s.setError thread rtEok
    (s.rtThreadSuspendToList thread none .fifo .uninterruptible).map fun r =>
      let s := { s with toSched := r.1 }
      if r.2 then
        let s := s.setWord id ⟨some thread, false⟩
        let s := if 0 < timeout then s.onSched (·.rtTimerStart thread) else s
        ((s.setPc thread (.waitWoken id)).onSched (·.rtSchedule), none)
      else (s.setWord id .clear, some (.wait id (-rtError)))

/-- The end of `rt_completion_wait` after its `rt_schedule`. -/
def completionWaitWoken (s : State T) (thread : T) (id : ℕ) : State T × Option Return :=
  ((s.setWord id .clear).setPc thread .idle, some (.wait id (s.error thread)))

/-- The result of `rt_thread_resume`, which the state before it decides. -/
def resumeResult (s : State T) (thread : T) : ℤ :=
  if (s.rtThreadResume thread).2 then rtEok
  else if s.isSuspended thread then -rtError else -rtEinval

/-- `_completion_done`, up to its return or to a switch inside `rt_thread_resume`; `caller` is the
thread that calls, or none for an interrupt. -/
def completionDone (s : State T) (caller : Option T) (id : ℕ) : State T × Option Return :=
  if (s.word id).flag then (s, some (.done id (-rtEbusy)))
  else
    match (s.word id).thread with
    | none => (s.setWord id .completed, some (.done id (-rtEempty)))
    | some suspendThread =>
      let error := s.resumeResult suspendThread
      let s' := s.onSched fun sched => (sched.rtThreadResume suspendThread).1
      match caller with
      | none => (s'.setWord id .completed, some (.done id error))
      | some thread =>
        if s'.current = some thread then (s'.setWord id .completed, some (.done id error))
        else (s'.setPc thread (.doneResumed id error), none)

/-- The running thread goes on inside its call. -/
def proceed (s : State T) (thread : T) : Option (State T × Option Return) :=
  match s.pc thread with
  | .idle => none
  | .waitWoken id => some (s.completionWaitWoken thread id)
  | .doneResumed id error =>
    some ((s.setWord id .completed).setPc thread .idle, some (.done id error))

/-- `_thread_timeout`, the second step of an expiry. -/
def threadTimeout (s : State T) (thread : T) : Option (State T) :=
  (s.toSched.threadTimeout thread).map fun s' =>
    { s with toSched := s', error := Function.update s.error thread (-rtEtimeout) }

/-- The current thread, when it runs. -/
def runner (s : State T) : Option T :=
  s.current.bind fun thread => if (s.stat thread).code = .running then some thread else none

/-- The thread that can make a call: the running thread, at thread level. -/
def caller (s : State T) : Option T :=
  s.runner.bind fun thread => if s.pc thread = .idle then some thread else none

/-- An event, with the return of a call. -/
def exec (s : State T) : Event T → Option (State T × Option Return)
  | .startup thread =>
    (s.rtThreadStartup thread).map fun s' => ({ s with toSched := s' }, none)
  | .yield => s.caller.map fun thread => (s.onSched (·.rtThreadYield thread), none)
  | .wait id timeout => s.caller.bind fun thread => s.rtCompletionWait thread id timeout
  | .done id => s.caller.map fun thread => s.completionDone (some thread) id
  | .isrDone id => some (s.completionDone none id)
  | .proceed => s.runner.bind fun thread => s.proceed thread
  | .timerDue thread => (s.timerDue thread).map fun s' => ({ s with toSched := s' }, none)
  | .timeout thread => (s.threadTimeout thread).map fun s => (s, none)
  | .tick => s.current.map fun thread => (s.onSched (·.rtSchedTickIncrease thread), none)
  | .schedulerStart =>
    if s.current = none then
      s.rtSystemSchedulerStart.map fun s' => ({ s with toSched := s' }, none)
    else none
  | .dispatch thread => s.current.bind fun cur =>
    if (s.stat thread).code = .ready ∧ s.lockNest = 0 then
      some (s.onSched (·.switchTo cur thread ((s.stat cur).code = .running)), none)
    else none

/-- The state before any thread is started. -/
def boot (priorityMax : ℕ) (priority tick : T → ℕ) : State T where
  toSched := Sched.boot priorityMax priority tick
  error := fun _ => rtEok
  pc := fun _ => .idle
  word := fun _ => .clear

/-- The completions have been initialised and no thread has been started. -/
def Booted (s : State T) : Prop :=
  ∃ (priorityMax : ℕ) (priority tick : T → ℕ), priorityMax ≤ 256 ∧
    (∀ t, priority t < priorityMax) ∧ s = boot priorityMax priority tick

end State

end RtThread.Completion
