import RtThread.Kernel.SchedComm

/-!
# The kernel state

The scheduler together with the IPC objects of `ipc.c`. Objects are numbered; a thread's call of a
kernel function that has been switched away is kept as the point it will go on from.

A function of the source is one step up to the place where another thread can run. The result of
such a step is the new state and, when the call has returned, its return value; a failed assertion
or a null dereference is `none`.
-/

namespace RtThread.Kernel

/-- `RT_EOK`. -/
def rtEok : ℤ := 0
/-- `RT_ERROR`. -/
def rtError : ℤ := 1
/-- `RT_ETIMEOUT`. -/
def rtEtimeout : ℤ := 2
/-- `RT_EFULL`. -/
def rtEfull : ℤ := 3
/-- `RT_EINTR`. -/
def rtEintr : ℤ := 9
/-- `RT_EINVAL`. -/
def rtEinval : ℤ := 10

/-- `RT_MUTEX_HOLD_MAX`. -/
def rtMutexHoldMax : ℕ := 255
/-- `RT_MB_ENTRY_MAX`. -/
def rtMbEntryMax : ℕ := 65535
/-- `RT_MQ_ENTRY_MAX`. -/
def rtMqEntryMax : ℕ := 65535

/-- `struct rt_mutex`. The waiting threads are in the list `ListHead.mutex`; the flag of a mutex is
always `RT_IPC_FLAG_PRIO`. -/
structure Mutex (T : Type*) where
  ceilingPriority : ℕ
  priority : ℕ
  hold : ℕ
  owner : Option T

/-- `mutex->priority = priority`. -/
def Mutex.withPriority {T : Type*} (m : Mutex T) (priority : ℕ) : Mutex T :=
  { m with priority := priority }

/-- `struct rt_semaphore`. -/
structure Semaphore where
  value : ℕ
  maxValue : ℕ
  flag : IpcFlag

/-- `struct rt_event`. -/
structure Event where
  set : BitVec 32
  flag : IpcFlag

/-- The option bits of `rt_event_recv`, and `event_info` of a thread. -/
structure EventFlags where
  and : Bool
  or : Bool
  clear : Bool
  deriving DecidableEq

/-- `struct rt_mailbox`. -/
structure Mailbox where
  msgPool : ℕ → ℕ
  size : ℕ
  entry : ℕ
  inOffset : ℕ
  outOffset : ℕ
  flag : IpcFlag

/-- `struct rt_mq_message` with its bytes. -/
structure MqMessage where
  next : Option ℕ
  length : ℕ
  prio : ℤ
  bytes : List ℕ

/-- `struct rt_messagequeue`. The cells of the pool are numbered; `usingPriority` is
`RT_USING_MESSAGEQUEUE_PRIORITY`. -/
structure MessageQueue where
  usingPriority : Bool
  cell : ℕ → MqMessage
  msgSize : ℕ
  maxMsgs : ℕ
  entry : ℕ
  msgQueueHead : Option ℕ
  msgQueueTail : Option ℕ
  msgQueueFree : Option ℕ
  flag : IpcFlag

/-- The place where a thread goes on when it runs again: at thread level, or inside a call. -/
inductive Pc where
  | idle
  /-- A last `rt_schedule`, then the call returns. -/
  | resched (ret : ℤ)
  /-- `_rt_mutex_take`, at the `rt_schedule` after the suspension. -/
  | mutexResched (id : ℕ)
  /-- `_rt_mutex_take`, after that `rt_schedule`. -/
  | mutexWoken (id : ℕ)
  /-- `_rt_mutex_take`, before `pending_object` is cleared on the way out. -/
  | mutexClear (ret : ℤ)
  /-- `_rt_sem_take`, after its `rt_schedule`. -/
  | semWoken (id : ℕ)
  /-- `_rt_event_recv`, after its `rt_schedule`. -/
  | eventWoken (id : ℕ)
  /-- `_rt_mb_send_wait`, after its `rt_schedule`. -/
  | mbSendWoken (id value : ℕ) (timeout : ℤ) (suspendFlag : SuspendFlag) (start : ℕ)
  /-- `_rt_mb_recv`, after its `rt_schedule`. -/
  | mbRecvWoken (id : ℕ) (timeout : ℤ) (suspendFlag : SuspendFlag) (start : ℕ)
  /-- `_rt_mq_send_wait`, after its `rt_schedule`. -/
  | mqSendWoken (id : ℕ) (bytes : List ℕ) (prio timeout : ℤ) (suspendFlag : SuspendFlag)
      (start : ℕ)
  /-- `_rt_mq_send_wait`, between its two locked sections, with its cell. -/
  | mqSendFill (id cell : ℕ) (bytes : List ℕ) (prio : ℤ)
  /-- `rt_mq_urgent`, between its two locked sections, with its cell. -/
  | mqUrgentFill (id cell : ℕ) (bytes : List ℕ)
  /-- `_rt_mq_recv`, after its `rt_schedule`. -/
  | mqRecvWoken (id size : ℕ) (timeout : ℤ) (suspendFlag : SuspendFlag) (start : ℕ)
  /-- `_rt_mq_recv`, between its two locked sections, with its cell. -/
  | mqRecvCopy (id cell size : ℕ)
  deriving DecidableEq

/-- The state of the kernel. The last fields are the objects a thread receives into: `*recved`,
`*value` and the buffer with its priority. -/
structure State (T : Type*) extends Sched T where
  tick : ℕ
  error : T → ℤ
  pendingObject : T → Option ℕ
  takenObjectList : T → List ℕ
  eventSet : T → BitVec 32
  eventInfo : T → EventFlags
  pc : T → Pc
  mutex : ℕ → Mutex T
  sem : ℕ → Semaphore
  event : ℕ → Event
  mailbox : ℕ → Mailbox
  messageQueue : ℕ → MessageQueue
  recved : T → BitVec 32
  mail : T → ℕ
  message : T → List ℕ × ℤ

namespace State

variable {T : Type*} [DecidableEq T]

/-- Run a function of the scheduler. -/
def onSched (k : State T) (f : Sched T → Sched T) : State T := { k with toSched := f k.toSched }

/-- Write `thread->error`. -/
def setError (k : State T) (thread : T) (error : ℤ) : State T :=
  { k with error := Function.update k.error thread error }

/-- Set the place a thread goes on from. -/
def setPc (k : State T) (thread : T) (pc : Pc) : State T :=
  { k with pc := Function.update k.pc thread pc }

/-- Write `thread->pending_object`, which only ever points to a mutex. -/
def setPendingObject (k : State T) (thread : T) (pending : Option ℕ) : State T :=
  { k with pendingObject := Function.update k.pendingObject thread pending }

/-- Start the thread's timer if there is a waiting time. -/
def startTimerIf (k : State T) (thread : T) (timeout : ℤ) : State T :=
  if 0 < timeout then k.onSched (·.rtTimerStart thread) else k

/-- Suspend the current thread on a list, start its timer if there is a waiting time, and
reschedule; the call goes on at `pc`. Every blocking call but `rt_mutex_take` waits this way. -/
def blockOn (k : State T) (thread : T) (head : ListHead) (flag : IpcFlag)
    (suspendFlag : SuspendFlag) (timeout : ℤ) (pc : Pc) : Option (State T × Option ℤ) :=
  (k.rtThreadSuspendToList thread (some head) flag suspendFlag).map fun r =>
    let k := { k with toSched := r.1 }
    if r.2 then (((k.startTimerIf thread timeout).setPc thread pc).onSched (·.rtSchedule), none)
    else (k.setPc thread .idle, some (-rtError))

/-- The waiting time that is left when a thread goes on: `timeout -= rt_tick_get() - tick_delta`
on 32-bit words, at least 0. -/
def timeoutLeft (k : State T) (timeout : ℤ) (start : ℕ) : ℤ :=
  if 0 < timeout then
    let left := Int.bmod (timeout - ((k.tick + 2 ^ 32 - start) % 2 ^ 32 : ℕ)) (2 ^ 32)
    if left < 0 then 0 else left
  else timeout

/-- `rt_susp_list_dequeue`: the head of the list is made ready, unless it is just timing out. -/
def rtSuspListDequeue (k : State T) (head : ListHead) (threadError : ℤ) : State T × Option T :=
  match k.lists head with
  | [] => (k, none)
  | thread :: _ =>
    let r := k.rtSchedThreadReady thread
    let k := { k with toSched := r.1 }
    if r.2 then (if 0 ≤ threadError then k.setError thread threadError else k, some thread)
    else (k, none)

/-- Wake the first thread of a list and reschedule, if the list is not empty. -/
def wakeFirst (k : State T) (head : ListHead) : State T :=
  if k.lists head = [] then k else (k.rtSuspListDequeue head rtEok).1.onSched (·.rtSchedule)

/-- `rt_susp_list_resume_all`; every round but the last shortens the list. -/
def rtSuspListResumeAll (k : State T) (head : ListHead) (threadError : ℤ) : State T :=
  go (k.lists head).length k
where
  go : ℕ → State T → State T
    | 0, k => (k.rtSuspListDequeue head threadError).1
    | fuel + 1, k =>
      match k.rtSuspListDequeue head threadError with
      | (k, none) => k
      | (k, some _) => go fuel k

/-- What `rt_susp_list_dequeue` keeps holds after `rt_susp_list_resume_all`. -/
theorem rtSuspListResumeAll_induction {k : State T} {head : ListHead} {threadError : ℤ}
    {P : State T → Prop} (hk : P k) (hstep : ∀ k, P k → P (k.rtSuspListDequeue head threadError).1) :
    P (k.rtSuspListResumeAll head threadError) := by
  have hgo : ∀ rounds k, P k → P (rtSuspListResumeAll.go head threadError rounds k) := by
    intro rounds
    induction rounds with
    | zero => exact hstep
    | succ rounds ih =>
      intro k hk
      have hfirst := hstep k hk
      unfold rtSuspListResumeAll.go
      split
      next heq =>
        rw [heq] at hfirst
        exact hfirst
      next heq =>
        rw [heq] at hfirst
        exact ih _ hfirst
  exact hgo _ k hk

/-- `_thread_timeout`, the second step of an expiry. -/
def threadTimeout (k : State T) (thread : T) : Option (State T) :=
  (k.toSched.threadTimeout thread).map fun s =>
    { k with toSched := s, error := Function.update k.error thread (-rtEtimeout) }

/-- The current thread, when it runs. -/
def runner (k : State T) : Option T :=
  k.current.bind fun thread => if (k.stat thread).code = .running then some thread else none

/-- The thread that can make a call: the current thread, running and at thread level. -/
def caller (k : State T) : Option T :=
  k.current.bind fun thread =>
    if (k.stat thread).code = .running ∧ k.pc thread = .idle then some thread else none

end State

end RtThread.Kernel
