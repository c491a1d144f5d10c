import Mathlib.Logic.Function.Basic

/-!
# Wait queues

`rt-thread/components/drivers/ipc/waitqueue.c`, with what it reads and writes of the threads. Every node
is initialised with `__wqueue_default_wake`, which returns `0`, and stands for its thread. The locked
section of each function is one definition; the function that waits is cut at its `rt_schedule`.
-/

namespace RtThread

/-- The error codes that a sleep can end with. -/
inductive SleepErr where
  | eok
  | etimeout
  | eintr
  deriving DecidableEq

/-- Which threads are suspended, and `thread->error`. -/
structure Sleepers (T : Type*) where
  suspended : T → Bool
  error : T → SleepErr

/-- `struct rt_wqueue`: whether its `flag` is `RT_WQ_FLAG_WAKEUP`, and the threads of the nodes in its
`waiting_list`. -/
structure WaitQueue (T : Type*) where
  flag : Bool
  waitingList : List T

variable {T : Type*}

namespace Sleepers

/-- Threads that are awake. -/
def allAwake : Sleepers T := ⟨fun _ => false, fun _ => .eok⟩

variable [DecidableEq T]

/-- `rt_thread_suspend_with_flag`. -/
def suspend (z : Sleepers T) (t : T) : Sleepers T :=
  { z with suspended := Function.update z.suspended t true }

/-- `rt_thread_resume` of a suspended thread whose `error` was set before. -/
def resume (z : Sleepers T) (t : T) (error : SleepErr) : Sleepers T :=
  ⟨Function.update z.suspended t false, Function.update z.error t error⟩

/-- The loop of `rt_wqueue_wakeup`: the first thread that `rt_thread_resume` resumes ends it. The
`error` of the threads before it is cleared too. -/
def resumeFirst : List T → Sleepers T → Sleepers T × Option T
  | [], z => (z, none)
  | t :: rest, z =>
    if z.suspended t then (z.resume t .eok, some t)
    else resumeFirst rest { z with error := Function.update z.error t .eok }

/-- If no thread is resumed, none of the list is suspended. -/
theorem resumeFirst_none {threads : List T} {z z' : Sleepers T} (h : resumeFirst threads z = (z', none)) :
    z'.suspended = z.suspended ∧ ∀ t ∈ threads, z.suspended t = false := by
  induction threads generalizing z with
  | nil =>
    cases h
    exact ⟨rfl, fun t ht => by cases ht⟩
  | cons t rest ih =>
    rw [resumeFirst] at h
    split at h
    next => cases (Prod.mk.inj h).2
    next hawake =>
      obtain ⟨hsame, hrest⟩ := ih h
      refine ⟨hsame, fun u hu => ?_⟩
      obtain rfl | hu := List.mem_cons.mp hu
      · simpa using hawake
      · exact hrest u hu

/-- The thread that is resumed is in the list and was suspended; no other thread changes. -/
theorem resumeFirst_some {threads : List T} {z z' : Sleepers T} {t : T}
    (h : resumeFirst threads z = (z', some t)) :
    t ∈ threads ∧ z.suspended t ∧ z'.suspended = Function.update z.suspended t false := by
  induction threads generalizing z with
  | nil => cases (Prod.mk.inj h).2
  | cons u rest ih =>
    rw [resumeFirst] at h
    split at h
    next hsuspended =>
      obtain ⟨rfl, ⟨⟩⟩ := Prod.mk.inj h
      exact ⟨List.mem_cons_self, hsuspended, rfl⟩
    next =>
      obtain ⟨hmem, hsuspended, hupdate⟩ := ih h
      exact ⟨List.mem_cons_of_mem _ hmem, hsuspended, hupdate⟩

/-- The loop of `rt_wqueue_wakeup_all`. -/
def resumeAll (threads : List T) (z : Sleepers T) : Sleepers T :=
  threads.foldl (fun z t => z.resume t .eok) z

end Sleepers

namespace WaitQueue

/-- `rt_wqueue_init`. -/
def init : WaitQueue T := ⟨false, []⟩

variable [DecidableEq T]

/-- `rt_wqueue_add`. -/
def add (q : WaitQueue T) (t : T) : WaitQueue T := { q with waitingList := q.waitingList ++ [t] }

/-- `rt_wqueue_remove`. -/
def remove (q : WaitQueue T) (t : T) : WaitQueue T := { q with waitingList := q.waitingList.erase t }

/-- The locked section of `rt_wqueue_wakeup`. -/
def wakeup (q : WaitQueue T) (z : Sleepers T) : WaitQueue T × Sleepers T :=
  match z.resumeFirst q.waitingList with
  | (z', some t) => ({ q with flag := true }.remove t, z')
  | (z', none) => ({ q with flag := true }, z')

/-- The locked section of `rt_wqueue_wakeup_all`: the nodes stay in the list. -/
def wakeupAll (q : WaitQueue T) (z : Sleepers T) : WaitQueue T × Sleepers T :=
  ({ q with flag := true }, z.resumeAll q.waitingList)

end WaitQueue

end RtThread
