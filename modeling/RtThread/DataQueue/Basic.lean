import RtThread.Kernel.Basic
import RtThread.Lib.Transition

/-!
# The data queue

`rt-thread/components/drivers/ipc/dataqueue.c`: a ring of items with two wait lists. A call is one
step up to the `rt_schedule` where its thread waits; a step says which item it moved. The callback
`evt_notify` and the magic number are not part of the model.
-/

namespace RtThread.DataQueue

open Kernel

/-- `struct rt_data_item`. -/
structure Item where
  dataPtr : ℕ
  dataSize : ℕ
  deriving DecidableEq

/-- `struct rt_data_queue`; the threads that wait are in the lists `ListHead.dqPush` and
`ListHead.dqPop`. -/
structure Queue where
  size : ℕ
  lwm : ℕ
  getIndex : ℕ
  isEmpty : Bool
  putIndex : ℕ
  isFull : Bool
  queue : ℕ → Item

namespace Queue

/-- The queue after `rt_data_queue_init`. -/
def init (size lwm : ℕ) : Queue := ⟨size, lwm, 0, true, 0, false, fun _ => ⟨0, 0⟩⟩

/-- The index after another: a 15-bit field, which starts again at `size`. -/
def nextIndex (q : Queue) (index : ℕ) : ℕ :=
  let index := (index + 1) % 2 ^ 15
  if index = q.size then 0 else index

/-- The part of `rt_data_queue_push` that stores the item. -/
def put (q : Queue) (item : Item) : Queue :=
  let q := { q with
    queue := Function.update q.queue q.putIndex item
    putIndex := q.nextIndex q.putIndex
    isEmpty := false }
  if q.putIndex = q.getIndex then { q with isFull := true } else q

/-- The part of `rt_data_queue_pop` that takes the item. -/
def get (q : Queue) : Queue × Item :=
  let item := q.queue q.getIndex
  let q := { q with getIndex := q.nextIndex q.getIndex, isFull := false }
  (if q.putIndex = q.getIndex then { q with isEmpty := true } else q, item)

/-- `rt_data_queue_len`. -/
def rtDataQueueLen (q : Queue) : ℕ :=
  if q.isEmpty then 0
  else if q.putIndex > q.getIndex then (q.putIndex - q.getIndex) % 2 ^ 16
  else (q.size + q.putIndex - q.getIndex) % 2 ^ 16

end Queue

/-- The place where a thread goes on when it runs again: at thread level, or after the `rt_schedule`
of a call that waited. -/
inductive Pc where
  | idle
  | pushWoken (id : ℕ) (item : Item) (timeout : ℤ)
  | popWoken (id : ℕ) (timeout : ℤ)
  deriving DecidableEq

/-- The scheduler and the data queues. -/
structure State (T : Type*) extends Sched T where
  error : T → ℤ
  pc : T → Pc
  queue : ℕ → Queue

/-- The item that a step moves. -/
inductive Moved where
  | put (id : ℕ) (item : Item)
  | got (id : ℕ) (item : Item)
  deriving DecidableEq

/-- One event. -/
inductive Event (T : Type*) where
  /-- A thread is started, by another thread or by start-up code. -/
  | startup (thread : T)
  /-- The running thread yields. -/
  | yield
  /-- The running thread calls `rt_data_queue_push`. -/
  | push (id : ℕ) (item : Item) (timeout : ℤ)
  /-- The running thread calls `rt_data_queue_pop`. -/
  | pop (id : ℕ) (timeout : ℤ)
  /-- The running thread goes on inside its call. -/
  | proceed
  /-- `rt_timer_check` deactivates the due timer of a thread. -/
  | timerDue (thread : T)
  /-- `_thread_timeout` runs. -/
  | timeout (thread : T)
  /-- `rt_tick_increase`, without the timers. -/
  | tick
  /-- `rt_system_scheduler_start`. -/
  | schedulerStart
  /-- Some ready thread is switched to. -/
  | dispatch (thread : T)

namespace State

variable {T : Type*} [DecidableEq T]

/-- Run a function of the scheduler. -/
def onSched (s : State T) (f : Sched T → Sched T) : State T := { s with toSched := f s.toSched }

/-- Write `thread->error`. -/
def setError (s : State T) (thread : T) (error : ℤ) : State T :=
  { s with error := Function.update s.error thread error }

/-- Set the place a thread goes on from. -/
def setPc (s : State T) (thread : T) (pc : Pc) : State T :=
  { s with pc := Function.update s.pc thread pc }

/-- Write a data queue. -/
def setQueue (s : State T) (id : ℕ) (q : Queue) : State T :=
  { s with queue := Function.update s.queue id q }

/-- `rt_susp_list_dequeue` with `RT_THREAD_RESUME_RES_THR_ERR`, which leaves the error of the thread;
it says whether a thread was made ready. -/
def rtSuspListDequeue (s : State T) (head : ListHead) : State T × Bool :=
  match s.lists head with
  | [] => (s, false)
  | thread :: _ =>
    let r := s.rtSchedThreadReady thread
    ({ s with toSched := r.1 }, r.2)

/-- Wake the first thread of the push list, and reschedule if there was one. -/
def wakePush (s : State T) (id : ℕ) : State T :=
  let r := s.rtSuspListDequeue (.dqPush id)
  if r.2 then r.1.onSched (·.rtSchedule) else r.1

/-- The suspension of the current thread in `rt_data_queue_push` and `rt_data_queue_pop`, with its
timer and the `rt_schedule`; it says whether the thread was suspended. -/
def suspend (s : State T) (thread : T) (head : ListHead) (timeout : ℤ) (pc : Pc) :
    Option (State T × Bool) :=
  let s := s.setError thread rtEok
  (s.rtThreadSuspendToList thread (some head) .fifo .uninterruptible).map fun r =>
    let s := { s with toSched := r.1 }
    if r.2 then
      let s := if 0 < timeout then s.onSched (·.rtTimerStart thread) else s
      ((s.setPc thread pc).onSched (·.rtSchedule), true)
    else (s, false)

/-- `rt_data_queue_push`, up to its return or its suspension. -/
def rtDataQueuePush (s : State T) (thread : T) (id : ℕ) (item : Item) (timeout : ℤ) :
    Option (State T × Option Moved × Option ℤ) :=
  if (s.queue id).isFull then
    if timeout = 0 then some (s.setPc thread .idle, none, some (-rtEtimeout))
    else
      (s.suspend thread (.dqPush id) timeout (.pushWoken id item timeout)).map fun r =>
        if r.2 then (r.1, none, none) else (r.1.setPc thread .idle, none, some (-rtError))
  else
    let s := (s.setQueue id ((s.queue id).put item)).setPc thread .idle
    some (s.wakePush id, some (.put id item), some rtEok)

/-- `rt_data_queue_pop`, up to its return or its suspension; if the suspension fails, the source tries
again for ever. -/
def rtDataQueuePop (s : State T) (thread : T) (id : ℕ) (timeout : ℤ) :
    Option (State T × Option Moved × Option ℤ) :=
  if (s.queue id).isEmpty then
    if timeout = 0 then some (s.setPc thread .idle, none, some (-rtEtimeout))
    else
      (s.suspend thread (.dqPop id) timeout (.popWoken id timeout)).bind fun r =>
        if r.2 then some (r.1, none, none) else none
  else
    let r := (s.queue id).get
    let s := (s.setQueue id r.1).setPc thread .idle
    some (if r.1.rtDataQueueLen ≤ r.1.lwm then s.wakePush id else s, some (.got id r.2), some rtEok)

/-- The running thread goes on after the `rt_schedule` of its call: with an error it returns, otherwise
it looks at the queue again. -/
def proceed (s : State T) (thread : T) : Option (State T × Option Moved × Option ℤ) :=
  match s.pc thread with
  | .idle => none
  | .pushWoken id item timeout =>
    if s.error thread ≠ rtEok then some (s.setPc thread .idle, none, some (s.error thread))
    else s.rtDataQueuePush thread id item timeout
  | .popWoken id timeout =>
    if s.error thread ≠ rtEok then some (s.setPc thread .idle, none, some (s.error thread))
    else s.rtDataQueuePop thread id timeout

/-- `_thread_timeout`, the second step of an expiry. -/
def threadTimeout (s : State T) (thread : T) : Option (State T) :=
  (s.toSched.threadTimeout thread).map fun s' =>
    { s with toSched := s', error := Function.update s.error thread (-rtEtimeout) }

/-- The current thread, when it runs. -/
def runner (s : State T) : Option T :=
  s.current.bind fun thread => if (s.stat thread).code = .running then some thread else none

/-- The thread that can make a call: the running thread, at thread level. -/
def caller (s : State T) : Option T :=
  s.runner.bind fun thread => if s.pc thread = .idle then some thread else none

/-- An event, with the item that it moves and the return value of a call that returned. -/
def exec (s : State T) : Event T → Option (State T × Option Moved × Option ℤ)
  | .startup thread =>
    (s.rtThreadStartup thread).map fun s' => ({ s with toSched := s' }, none, none)
  | .yield => s.caller.map fun thread => (s.onSched (·.rtThreadYield thread), none, none)
  | .push id item timeout => s.caller.bind fun thread => s.rtDataQueuePush thread id item timeout
  | .pop id timeout => s.caller.bind fun thread => s.rtDataQueuePop thread id timeout
  | .proceed => s.runner.bind fun thread => s.proceed thread
  | .timerDue thread => (s.timerDue thread).map fun s' => ({ s with toSched := s' }, none, none)
  | .timeout thread => (s.threadTimeout thread).map fun s => (s, none, none)
  | .tick => s.current.map fun thread => (s.onSched (·.rtSchedTickIncrease thread), none, none)
  | .schedulerStart =>
    if s.current = none then
      s.rtSystemSchedulerStart.map fun s' => ({ s with toSched := s' }, none, none)
    else none
  | .dispatch thread => s.current.bind fun cur =>
    if (s.stat thread).code = .ready ∧ s.lockNest = 0 then
      some (s.onSched (·.switchTo cur thread ((s.stat cur).code = .running)), none, none)
    else none

/-- The state before any thread is started. -/
def boot (priorityMax : ℕ) (priority tick : T → ℕ) (queue : ℕ → Queue) : State T where
  toSched := Sched.boot priorityMax priority tick
  error := fun _ => rtEok
  pc := fun _ => .idle
  queue := queue

end State

end RtThread.DataQueue
