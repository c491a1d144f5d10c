import Mathlib.Algebra.Group.Nat.Defs
import Mathlib.Data.List.Basic
import Mathlib.Logic.Function.Basic

/-!
# The uniprocessor scheduler

The state of `scheduler_up.c` and `scheduler_comm.c`: the scheduling context of every thread, the
ready lists with their bitmap, the current thread and the scheduler lock. `RT_THREAD_PRIORITY_MAX`
is the field `priorityMax`; above 32 levels the bitmap has a second stage, as in the source.

A thread has one list node, so it is linked in at most one list. The lists are kept by their
heads, and unlinking a node takes the thread out of whichever list it is in.
-/

namespace RtThread.Kernel

open Function (update)

/-- The `suspend_flag` of a suspension. -/
inductive SuspendFlag where
  | interruptible
  | killable
  | uninterruptible
  deriving Repr, DecidableEq

/-- The bits of `stat` under `RT_THREAD_STAT_MASK`. -/
inductive StatCode where
  | init
  | close
  | ready
  | running
  | suspend (flag : SuspendFlag)
  deriving Repr, DecidableEq

/-- The codes under `RT_THREAD_SUSPEND_MASK`. -/
@[simp]
def StatCode.isSuspend : StatCode → Bool
  | .suspend _ => true
  | _ => false

/-- `stat`: the code, the `YIELD` bit, and the bits under `RT_THREAD_STAT_SIGNAL_MASK`. -/
structure Stat where
  code : StatCode
  yield : Bool
  signal : BitVec 4
  deriving Repr, DecidableEq

/-- The list heads that a thread's node can be linked to. -/
inductive ListHead where
  | ready (priority : ℕ)
  | sem (id : ℕ)
  | mutex (id : ℕ)
  | event (id : ℕ)
  | mbRecv (id : ℕ)
  | mbSend (id : ℕ)
  | mqRecv (id : ℕ)
  | mqSend (id : ℕ)
  | dqPush (id : ℕ)
  | dqPop (id : ℕ)
  | defunct
  deriving Repr, DecidableEq

/-- The scheduler, over any type of threads.

`timerActive` is the `ACTIVATED` flag of the thread's timer. `timerFiring` marks the time between
the removal of an expired timer by `rt_timer_check` and the call of its `_thread_timeout`. -/
structure Sched (T : Type*) where
  priorityMax : ℕ
  stat : T → Stat
  initPriority : T → ℕ
  currentPriority : T → ℕ
  number : T → ℕ
  numberMask : T → BitVec 32
  highMask : T → BitVec 8
  initTick : T → ℕ
  remainingTick : T → ℕ
  ttmrSet : T → Bool
  timerActive : T → Bool
  timerFiring : T → Bool
  lists : ListHead → List T
  readyPriorityGroup : BitVec 32
  readyTable : ℕ → BitVec 8
  current : Option T
  lockNest : ℕ

/-- `__lowest_bit_bitmap`, the lowest set bit of each byte, as the source tabulates it. -/
def lowestBitBitmap : List ℕ :=
  [0, 0, 1, 0, 2, 0, 1, 0, 3, 0, 1, 0, 2, 0, 1, 0,
   4, 0, 1, 0, 2, 0, 1, 0, 3, 0, 1, 0, 2, 0, 1, 0,
   5, 0, 1, 0, 2, 0, 1, 0, 3, 0, 1, 0, 2, 0, 1, 0,
   4, 0, 1, 0, 2, 0, 1, 0, 3, 0, 1, 0, 2, 0, 1, 0,
   6, 0, 1, 0, 2, 0, 1, 0, 3, 0, 1, 0, 2, 0, 1, 0,
   4, 0, 1, 0, 2, 0, 1, 0, 3, 0, 1, 0, 2, 0, 1, 0,
   5, 0, 1, 0, 2, 0, 1, 0, 3, 0, 1, 0, 2, 0, 1, 0,
   4, 0, 1, 0, 2, 0, 1, 0, 3, 0, 1, 0, 2, 0, 1, 0,
   7, 0, 1, 0, 2, 0, 1, 0, 3, 0, 1, 0, 2, 0, 1, 0,
   4, 0, 1, 0, 2, 0, 1, 0, 3, 0, 1, 0, 2, 0, 1, 0,
   5, 0, 1, 0, 2, 0, 1, 0, 3, 0, 1, 0, 2, 0, 1, 0,
   4, 0, 1, 0, 2, 0, 1, 0, 3, 0, 1, 0, 2, 0, 1, 0,
   6, 0, 1, 0, 2, 0, 1, 0, 3, 0, 1, 0, 2, 0, 1, 0,
   4, 0, 1, 0, 2, 0, 1, 0, 3, 0, 1, 0, 2, 0, 1, 0,
   5, 0, 1, 0, 2, 0, 1, 0, 3, 0, 1, 0, 2, 0, 1, 0,
   4, 0, 1, 0, 2, 0, 1, 0, 3, 0, 1, 0, 2, 0, 1, 0]

/-- `__rt_ffs`: one more than the index of the lowest set bit, 0 for 0. -/
def rtFfs (value : BitVec 32) : ℕ :=
  if value = 0 then 0
  else if value &&& 0xff ≠ 0 then lowestBitBitmap.getD (value &&& 0xff).toNat 0 + 1
  else if value &&& 0xff00 ≠ 0 then lowestBitBitmap.getD ((value &&& 0xff00) >>> 8).toNat 0 + 9
  else if value &&& 0xff0000 ≠ 0 then
    lowestBitBitmap.getD ((value &&& 0xff0000) >>> 16).toNat 0 + 17
  else lowestBitBitmap.getD ((value &&& 0xff000000) >>> 24).toNat 0 + 25

namespace Sched

variable {T : Type*} [DecidableEq T]

/-- `rt_sched_thread_is_suspended`. -/
def isSuspended (s : Sched T) (thread : T) : Bool := (s.stat thread).code.isSuspend

/-- Write the whole `stat` of a thread. -/
def setStat (s : Sched T) (thread : T) (stat : Stat) : Sched T :=
  { s with stat := update s.stat thread stat }

/-- `stat = code | (stat & ~RT_THREAD_STAT_MASK)`. -/
def setCode (s : Sched T) (thread : T) (code : StatCode) : Sched T :=
  s.setStat thread { s.stat thread with code := code }

/-- Write `current_priority`. -/
def setCurrentPriority (s : Sched T) (thread : T) (priority : ℕ) : Sched T :=
  { s with currentPriority := update s.currentPriority thread priority }

/-- `rt_list_remove` on the node of a thread. -/
def listRemove (s : Sched T) (thread : T) : Sched T :=
  { s with lists := fun head => (s.lists head).filter (· ≠ thread) }

/-- `rt_list_insert_after` on a list head. -/
def listInsertAfter (s : Sched T) (head : ListHead) (thread : T) : Sched T :=
  { s with lists := update s.lists head (thread :: s.lists head) }

/-- `rt_list_insert_before` on a list head. -/
def listInsertBefore (s : Sched T) (head : ListHead) (thread : T) : Sched T :=
  { s with lists := update s.lists head (s.lists head ++ [thread]) }

/-- Recalculate the priority attributes from `current_priority`. -/
def setMasks (s : Sched T) (thread : T) : Sched T :=
  let prio := s.currentPriority thread
  if 32 < s.priorityMax then
    { s with
      number := update s.number thread (prio / 8)
      numberMask := update s.numberMask thread (1#32 <<< (prio / 8))
      highMask := update s.highMask thread (1#8 <<< (prio % 8)) }
  else { s with numberMask := update s.numberMask thread (1#32 <<< prio) }

/-- Set the priority mask of a thread in the bitmap. -/
def setReadyBits (s : Sched T) (thread : T) : Sched T :=
  let s := if 32 < s.priorityMax then
      { s with
        readyTable := update s.readyTable (s.number thread)
          (s.readyTable (s.number thread) ||| s.highMask thread) }
    else s
  { s with readyPriorityGroup := s.readyPriorityGroup ||| s.numberMask thread }

/-- Clear the priority mask of a thread in the bitmap. -/
def clearReadyBits (s : Sched T) (thread : T) : Sched T :=
  if 32 < s.priorityMax then
    let s := { s with
      readyTable := update s.readyTable (s.number thread)
        (s.readyTable (s.number thread) &&& ~~~ s.highMask thread) }
    if s.readyTable (s.number thread) = 0 then
      { s with readyPriorityGroup := s.readyPriorityGroup &&& ~~~ s.numberMask thread }
    else s
  else { s with readyPriorityGroup := s.readyPriorityGroup &&& ~~~ s.numberMask thread }

/-- `rt_sched_insert_thread`. -/
def rtSchedInsertThread (s : Sched T) (thread : T) : Sched T :=
  if s.current = some thread then s.setCode thread .running
  else
    let s := s.setCode thread .ready
    let head := ListHead.ready (s.currentPriority thread)
    let s := if (s.stat thread).yield then s.listInsertBefore head thread
      else s.listInsertAfter head thread
    s.setReadyBits thread

/-- `rt_sched_remove_thread`. -/
def rtSchedRemoveThread (s : Sched T) (thread : T) : Sched T :=
  let s := s.listRemove thread
  if s.lists (.ready (s.currentPriority thread)) = [] then s.clearReadyBits thread else s

/-- The priority that `_scheduler_get_highest_priority_thread` reads from the bitmap. -/
def highestReadyPriority (s : Sched T) : ℕ :=
  if 32 < s.priorityMax then
    let number := rtFfs s.readyPriorityGroup - 1
    number * 8 + rtFfs ((s.readyTable number).setWidth 32) - 1
  else rtFfs s.readyPriorityGroup - 1

/-- `_scheduler_get_highest_priority_thread`: the first thread of the list that the bitmap names.
An empty list there would be misread by the source; it is `none` here. -/
def schedulerGetHighestPriorityThread (s : Sched T) : Option T :=
  (s.lists (.ready s.highestReadyPriority)).head?

/-- The part of `rt_schedule` that switches from one thread to another. -/
def switchTo (s : Sched T) (fromThread toThread : T) (needInsertFrom : Bool) : Sched T :=
  let s := { s with current := some toThread }
  let s := if needInsertFrom then s.rtSchedInsertThread fromThread else s
  let s := s.setStat fromThread { s.stat fromThread with yield := false }
  let s := s.rtSchedRemoveThread toThread
  s.setCode toThread .running

/-- `rt_schedule`. -/
def rtSchedule (s : Sched T) : Sched T :=
  match s.current, s.schedulerGetHighestPriorityThread with
  | some cur, some best =>
    if s.lockNest = 0 ∧ s.readyPriorityGroup ≠ 0 then
      let highest := s.highestReadyPriority
      let running : Bool := (s.stat cur).code = .running
      let stays : Bool := running ∧ (s.currentPriority cur < highest ∨
        (s.currentPriority cur = highest ∧ (s.stat cur).yield = false))
      let toThread := if stays then cur else best
      if toThread ≠ cur then s.switchTo cur toThread running
      else (s.rtSchedRemoveThread cur).setCode cur .running
    else s
  | _, _ => s

end Sched

end RtThread.Kernel
