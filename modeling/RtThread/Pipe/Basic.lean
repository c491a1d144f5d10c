import RtThread.RingBuffer.Queue
import RtThread.WaitQueue

/-!
# Pipes

`pipe_fops_read` and `pipe_fops_write` of `rt-thread/components/drivers/ipc/pipe.c`, for files without
`O_NONBLOCK`, with the wait queues of `waitqueue.c`. What a thread does between two calls of the mutex and
of the wait queues is one step, and so is every locked section; the threads' steps interleave in any
order.

On one processor the spinlock of a wait queue only disables interrupts, so the `rt_thread_resume` of
`rt_wqueue_wakeup` can switch to the resumed thread before `rt_list_remove` takes its node out of the
queue: the two are separate steps.
-/

namespace RtThread.Pipe

open Lib TransitionSystem

/-- The two ends of a pipe, each with its wait queue. -/
inductive Side where
  | reader
  | writer
  deriving DecidableEq

/-- The other end. -/
def Side.other : Side → Side
  | reader => writer
  | writer => reader

/-- A call: a read of `count` bytes, or a write of the bytes `buf` of which `ret` are written. -/
inductive Call where
  | read (count : ℕ)
  | write (buf : List UInt8) (ret : ℕ)
  deriving DecidableEq

/-- The end that a call is made at. -/
def Call.side : Call → Side
  | read _ => .reader
  | write _ _ => .writer

/-- Where a thread is. A call takes the mutex (`taking`) and moves bytes (`holding`). A read that is done
wakes a writer (`readDone`) and releases the mutex (`readRelease`); a write that is done releases the
mutex (`writeDone`), wakes a reader (`writeWake`) and returns (`writeReturn`). Otherwise the call releases
the mutex (`releasing`), wakes a thread at the other end (`waking`) and waits: before the first section of
`_rt_wqueue_wait` (`waiting`), in its `rt_schedule` (`sleeping`) and before its `rt_wqueue_remove`
(`removing`). A thread that has resumed another one in `rt_wqueue_wakeup` takes that thread's node out of
the queue before it goes on (`unlinking`). -/
inductive Pc (T : Type*) where
  | idle
  | taking (call : Call)
  | holding (call : Call)
  | readDone (len : ℕ)
  | readRelease (len : ℕ)
  | writeDone (ret : ℕ)
  | writeWake (ret : ℕ)
  | writeReturn (ret : ℕ)
  | releasing (call : Call)
  | waking (call : Call)
  | waiting (call : Call)
  | sleeping (call : Call)
  | removing (call : Call)
  | unlinking (side : Side) (woken : T) (back : Pc T)
  deriving DecidableEq

/-- What a call returns. -/
inductive Ret where
  | len (n : ℕ)
  | eintr
  deriving DecidableEq

/-- The pipe (`fifo`, `writer`, `lock`, and `reader_queue` and `writer_queue` as `queue`) and the threads,
with what the last call of each thread returned. -/
structure State (T : Type*) where
  fifo : RingBuffer
  writer : ℕ
  lock : Option T
  queue : Side → WaitQueue T
  sleepers : Sleepers T
  pc : T → Pc T
  ret : T → Ret

namespace State

variable {T : Type*}

/-- A pipe that is open, with no call in progress. -/
def opened (fifo : RingBuffer) (writer : ℕ) : State T where
  fifo := fifo
  writer := writer
  lock := none
  queue := fun _ => WaitQueue.init
  sleepers := Sleepers.allAwake
  pc := fun _ => .idle
  ret := fun _ => .len 0

variable [DecidableEq T]

/-- The thread goes on at another place. -/
def goto (s : State T) (t : T) (pc : Pc T) : State T := { s with pc := Function.update s.pc t pc }

/-- The thread returns from its call. -/
def returns (s : State T) (t : T) (ret : Ret) : State T :=
  { s.goto t .idle with ret := Function.update s.ret t ret }

/-- One of the wait queues changes. -/
def setQueue (s : State T) (side : Side) (q : WaitQueue T) : State T :=
  { s with queue := Function.update s.queue side q }

/-- `rt_ringbuffer_get` or `rt_ringbuffer_put`, whose length is an `rt_uint32_t`, and what the call makes
of its result. -/
def transfer (s : State T) (t : T) : Call → State T
  | .read count =>
    let r := s.fifo.rtRingbufferGet (RingBuffer.toUint32 count)
    { s with fifo := r.1 }.goto t
      (if 0 < r.2.2 ∨ s.writer = 0 then .readDone r.2.2 else .releasing (.read count))
  | .write buf ret =>
    let r := s.fifo.rtRingbufferPut ((buf.drop ret).take (RingBuffer.toUint32 (buf.length - ret)))
    { s with fifo := r.1 }.goto t
      (if ret + r.2 = buf.length then .writeDone (ret + r.2) else .releasing (.write buf (ret + r.2)))

/-- `rt_wqueue_wakeup` up to its `rt_thread_resume`; `back` is where the thread goes on. -/
def rtWqueueWakeup (s : State T) (t : T) (side : Side) (back : Pc T) : State T :=
  let r := s.sleepers.resumeFirst (s.queue side).waitingList
  { s.setQueue side { s.queue side with flag := true } with sleepers := r.1 }.goto t
    (match r.2 with
    | some woken => .unlinking side woken back
    | none => back)

/-- The first locked section of `_rt_wqueue_wait`. -/
def rtWqueueWait (s : State T) (t : T) (call : Call) : State T :=
  let q := s.queue call.side
  let sleepers := { s.sleepers with error := Function.update s.sleepers.error t .eok }
  if q.flag then
    { s.setQueue call.side { q with flag := false } with sleepers }.goto t (.removing call)
  else
    { s.setQueue call.side (q.add t) with sleepers := sleepers.suspend t }.goto t (.sleeping call)

/-- The next step of a thread, if it can run. -/
def threadNext (s : State T) (t : T) : Option (State T) :=
  match s.pc t with
  | .idle => none
  | .taking call =>
    match s.lock with
    | none => some ({ s with lock := some t }.goto t (.holding call))
    | some _ => none
  | .holding call => some (s.transfer t call)
  | .readDone len => some (s.rtWqueueWakeup t .writer (.readRelease len))
  | .readRelease len => some ({ s with lock := none }.returns t (.len len))
  | .writeDone ret => some ({ s with lock := none }.goto t (.writeWake ret))
  | .writeWake ret => some (s.rtWqueueWakeup t .reader (.writeReturn ret))
  | .writeReturn ret => some (s.returns t (.len ret))
  | .releasing call => some ({ s with lock := none }.goto t (.waking call))
  | .waking call => some (s.rtWqueueWakeup t call.side.other (.waiting call))
  | .waiting call => some (s.rtWqueueWait t call)
  | .sleeping call =>
    if s.sleepers.suspended t then none
    else some ((s.setQueue call.side { s.queue call.side with flag := false }).goto t (.removing call))
  | .removing call =>
    let s' := s.setQueue call.side ((s.queue call.side).remove t)
    some (if s.sleepers.error t = .eintr then s'.returns t .eintr else s'.goto t (.taking call))
  | .unlinking side woken back =>
    some ((s.setQueue side ((s.queue side).remove woken)).goto t back)

end State

/-- One event: a thread calls one of the functions or goes on in it, and a signal resumes a suspended
thread. -/
inductive Event (T : Type*) where
  | read (thread : T) (count : ℕ)
  | write (thread : T) (buf : List UInt8)
  | proceed (thread : T)
  | interrupt (thread : T)
  deriving DecidableEq

variable {T : Type*} [DecidableEq T]

/-- The state after an event. -/
def next (s : State T) : Event T → Option (State T)
  | .read t count => if s.pc t = .idle then some (s.goto t (.taking (.read count))) else none
  | .write t buf =>
    if s.pc t = .idle then
      some (if buf.length = 0 then s.returns t (.len 0) else s.goto t (.taking (.write buf 0)))
    else none
  | .proceed t => s.threadNext t
  | .interrupt t =>
    if s.sleepers.suspended t then some { s with sleepers := s.sleepers.resume t .eintr } else none

/-- An open pipe with any contents, and no call in progress. -/
def Opened (s : State T) : Prop :=
  ∃ (fifo : RingBuffer) (count writer : ℕ), fifo.Holds count ∧ s = State.opened fifo writer

/-- A pipe with the calls of any threads. -/
def system (T : Type*) [DecidableEq T] : TransitionSystem (State T) (Event T) := ofNext Opened next

/-- No thread in a call can go on. -/
def State.Quiescent (s : State T) : Prop := ∀ t, s.pc t ≠ .idle → s.threadNext t = none

end RtThread.Pipe
