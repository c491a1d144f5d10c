import RtThread.Lib.Transition
import RtThread.WaitQueue
import Mathlib.Data.Nat.Notation
import Mathlib.Data.Int.Notation

/-!
# Condition variables

`rt-thread/components/drivers/ipc/condvar.c`. Every locked section of `rt_condvar_timedwait`,
`rt_condvar_signal` and `rt_condvar_broadcast` is one step, and so is every atomic access between two of
them; the threads' steps interleave in any order. A mutex is its owner and its hold count: the order in
which waiting threads get it is left open. A failed `RT_ASSERT` ends a run.
-/

namespace RtThread.Condvar

open Lib TransitionSystem

/-- `RT_MUTEX_HOLD_MAX`. -/
abbrev rtMutexHoldMax : ℕ := 255

/-- The results of the mutex functions and of `rt_condvar_timedwait`. -/
inductive Err where
  | sleep (error : SleepErr)
  | error
  | efull
  | ebusy
  deriving DecidableEq

/-- `RT_EOK`. -/
abbrev Err.eok : Err := .sleep .eok

/-- `struct rt_mutex`: its owner and how often the owner holds it. -/
structure Mutex (T : Type*) where
  owner : Option T
  hold : ℕ
  deriving DecidableEq

namespace Mutex

variable {T : Type*} [DecidableEq T]

/-- `rt_mutex_take` with `RT_WAITING_FOREVER`, as far as the call returns without another thread's
help. -/
def rtMutexTake (mutex : Mutex T) (t : T) : Option (Mutex T × Err) :=
  match mutex.owner with
  | none => some (⟨some t, 1⟩, .eok)
  | some owner =>
    if owner = t then
      if mutex.hold < rtMutexHoldMax then some ({ mutex with hold := mutex.hold + 1 }, .eok)
      else some (mutex, .efull)
    else none

/-- `rt_mutex_release`. -/
def rtMutexRelease (mutex : Mutex T) (t : T) : Mutex T × Err :=
  if mutex.owner = some t then
    if mutex.hold - 1 = 0 then (⟨none, 0⟩, .eok) else ({ mutex with hold := mutex.hold - 1 }, .eok)
  else (mutex, .error)

end Mutex

/-- Where a thread is. In `rt_condvar_timedwait`: after `CV_ASSERT_LOCKED` (`called`), after the first
section under the spinlock (`joined`), after the increment of `waiters_cnt` (`counted`), in or past
`rt_schedule` (`waiting`), after `rt_get_errno` (`woken`), after `rt_wqueue_remove` (`removed`) and after
the second section under the spinlock (`left`). In a signal or a broadcast: after the load of
`waiters_cnt` (`waking`) and before the write of `event.flag` (`resetting`). -/
inductive Pc (M : Type*) where
  | idle
  | called (mtx : M) (timed : Bool)
  | joined (mtx : M) (timed : Bool)
  | counted (mtx : M) (timed : Bool)
  | waiting (mtx : M) (timed : Bool)
  | woken (mtx : M) (rc : SleepErr)
  | removed (mtx : M) (rc : SleepErr)
  | left (mtx : M) (rc : SleepErr)
  | waking (all : Bool)
  | resetting
  deriving DecidableEq

/-- The condition variable (`event`, `waiters_cnt`, `waiting_mtx`), the mutexes and the threads, with
what the last wait of each thread returned. -/
structure State (T M : Type*) where
  event : WaitQueue T
  waitersCnt : ℤ
  waitingMtx : Option M
  mutex : M → Mutex T
  sleepers : Sleepers T
  pc : T → Pc M
  rc : T → Err

variable {T M : Type*}

/-- After `rt_condvar_init`, with free mutexes. -/
def State.rtCondvarInit : State T M where
  event := WaitQueue.init
  waitersCnt := 0
  waitingMtx := none
  mutex := fun _ => ⟨none, 0⟩
  sleepers := Sleepers.allAwake
  pc := fun _ => .idle
  rc := fun _ => .eok

namespace State

/-- `CV_ASSERT_LOCKED`. -/
def cvAssertLocked [DecidableEq T] (s : State T M) (t : T) : Bool :=
  s.waitingMtx.all fun m => (s.mutex m).owner = some t

variable [DecidableEq T] [DecidableEq M]

/-- The thread goes on at another place. -/
def goto (s : State T M) (t : T) (pc : Pc M) : State T M := { s with pc := Function.update s.pc t pc }

/-- The thread returns from `rt_condvar_timedwait`. -/
def returns (s : State T M) (t : T) (rc : Err) : State T M :=
  { s.goto t .idle with rc := Function.update s.rc t rc }

/-- A mutex changes. -/
def setMutex (s : State T M) (m : M) (mutex : Mutex T) : State T M :=
  { s with mutex := Function.update s.mutex m mutex }

/-- The first section under the spinlock, with what follows from its outcome. -/
def acquireWaitingMtx (s : State T M) (t : T) (m : M) (timed : Bool) : State T M :=
  match s.waitingMtx with
  | none => { s with waitingMtx := some m }.goto t (.joined m timed)
  | some m' => if m' = m then s.goto t (.joined m timed) else s.returns t .ebusy

/-- `_waitq_inqueue`. -/
def waitqInqueue (s : State T M) (t : T) : State T M :=
  if s.event.flag then s else { s with event := s.event.add t, sleepers := s.sleepers.suspend t }

/-- The second section under the spinlock. -/
def releaseWaitingMtx (s : State T M) : State T M :=
  { s with
    waitersCnt := s.waitersCnt - 1
    waitingMtx := if s.waitersCnt = 1 then none else s.waitingMtx }

/-- The assertions that a thread's next step in `rt_condvar_timedwait` makes. -/
def stepAsserts (s : State T M) (t : T) : Bool :=
  match s.pc t with
  | .counted m _ => ((s.mutex m).rtMutexRelease t).2 = .eok
  | .removed m _ => s.waitersCnt = 1 → s.waitingMtx = some m
  | .left m _ => ((s.mutex m).rtMutexTake t).all (·.2 = .eok)
  | _ => true

/-- The next step of a thread, if it can run. -/
def threadNext (s : State T M) (t : T) : Option (State T M) :=
  match s.pc t with
  | .idle => none
  | .called m timed => some (s.acquireWaitingMtx t m timed)
  | .joined m timed => some ({ s with waitersCnt := s.waitersCnt + 1 }.goto t (.counted m timed))
  | .counted m timed =>
    -- one critical section: the thread is in the queue before the mutex is free
    let s' := s.waitqInqueue t
    some ((s'.setMutex m ((s'.mutex m).rtMutexRelease t).1).goto t (.waiting m timed))
  | .waiting m _ => if s.sleepers.suspended t then none else some (s.goto t (.woken m (s.sleepers.error t)))
  | .woken m rc => some ({ s with event := s.event.remove t }.goto t (.removed m rc))
  | .removed m rc => some (s.releaseWaitingMtx.goto t (.left m rc))
  | .left m rc => ((s.mutex m).rtMutexTake t).map fun r => (s.setMutex m r.1).returns t (.sleep rc)
  | .waking all =>
    let (event, sleepers) :=
      if all then s.event.wakeupAll s.sleepers else s.event.wakeup s.sleepers
    some ({ s with event, sleepers }.goto t .resetting)
  | .resetting => some ({ s with event.flag := false }.goto t .idle)

/-- `rt_condvar_signal` and `rt_condvar_broadcast` up to their wake-up. -/
def signalOrBroadcast (s : State T M) (t : T) (all : Bool) : Option (State T M) :=
  if s.pc t = .idle ∧ s.cvAssertLocked t then
    some (s.goto t (if 0 < s.waitersCnt then .waking all else .resetting))
  else none

end State

/-- One event: a thread takes or releases a mutex, calls one of the functions or goes on in it, and a
suspended thread is resumed by its timer or by a signal. -/
inductive Event (T M : Type*) where
  | take (thread : T) (mtx : M)
  | release (thread : T) (mtx : M)
  | timedwait (thread : T) (mtx : M) (timed : Bool)
  | signal (thread : T)
  | broadcast (thread : T)
  | proceed (thread : T)
  | timeout (thread : T)
  | interrupt (thread : T)
  deriving DecidableEq

variable [DecidableEq T] [DecidableEq M]

/-- The state after an event. -/
def next (s : State T M) : Event T M → Option (State T M)
  | .take t m =>
    if s.pc t = .idle then ((s.mutex m).rtMutexTake t).map fun r => s.setMutex m r.1 else none
  | .release t m =>
    if s.pc t = .idle then some (s.setMutex m ((s.mutex m).rtMutexRelease t).1) else none
  | .timedwait t m timed =>
    if s.pc t = .idle ∧ s.cvAssertLocked t then some (s.goto t (.called m timed)) else none
  | .signal t => s.signalOrBroadcast t false
  | .broadcast t => s.signalOrBroadcast t true
  | .proceed t => if s.stepAsserts t then s.threadNext t else none
  | .timeout t =>
    match s.pc t with
    | .waiting _ true =>
      if s.sleepers.suspended t then some { s with sleepers := s.sleepers.resume t .etimeout } else none
    | _ => none
  | .interrupt t =>
    if s.sleepers.suspended t then some { s with sleepers := s.sleepers.resume t .eintr } else none

/-- A condition variable from its initialisation on. -/
def system (T M : Type*) [DecidableEq T] [DecidableEq M] : TransitionSystem (State T M) (Event T M) :=
  ofNext (· = State.rtCondvarInit) next

end RtThread.Condvar
