import RtThread.Kernel.Schedule

/-!
# What the IPC objects see of the scheduler

An IPC object depends on the priorities, the suspended threads, the wait lists and the thread
timers, not on which of the other threads runs or is ready. A fresh thread is not yet started.
`Sched.waits` is that view of the scheduler. `rt_schedule` does not change it, and each of the other
functions has a simple effect on it.
-/

namespace RtThread.Kernel

open Function

/-- The scheduler as the IPC objects see it. -/
@[ext]
structure Waits (T : Type*) where
  priorityMax : ℕ
  initPriority : T → ℕ
  currentPriority : T → ℕ
  fresh : T → Bool
  suspended : T → Bool
  waiting : ListHead → List T
  ttmrSet : T → Bool
  timerActive : T → Bool
  timerFiring : T → Bool

namespace Waits

variable {T : Type*} [DecidableEq T]

/-- A thread gets a priority. -/
def setPriority (w : Waits T) (thread : T) (priority : ℕ) : Waits T :=
  { w with currentPriority := update w.currentPriority thread priority }

/-- A thread leaves its wait list. -/
def unlink (w : Waits T) (thread : T) : Waits T :=
  { w with waiting := fun head => (w.waiting head).filter (· ≠ thread) }

/-- A thread enters a wait list, at the end or in order of priority. -/
def link (w : Waits T) (head : ListHead) (thread : T) (flag : IpcFlag) : Waits T :=
  { w with
    waiting := update w.waiting head
      (match flag with
      | .fifo => w.waiting head ++ [thread]
      | .prio => Lib.insertBy w.currentPriority thread (w.waiting head)) }

/-- A thread that is started is suspended, or not. -/
def setSuspended (w : Waits T) (thread : T) (value : Bool) : Waits T :=
  { w with
    fresh := update w.fresh thread false
    suspended := update w.suspended thread value }

/-- The thread's timer is stopped if it is set. -/
def timerStop (w : Waits T) (thread : T) : Waits T :=
  if w.ttmrSet thread then
    { w with
      ttmrSet := update w.ttmrSet thread false
      timerActive := update w.timerActive thread false }
  else w

/-- After a stop the timer is not set; a timer that was not set stays as it is. -/
theorem timerStop_eq (w : Waits T) (thread : T) : w.timerStop thread = { w with
      ttmrSet := update w.ttmrSet thread false
      timerActive := update w.timerActive thread (!w.ttmrSet thread && w.timerActive thread) } := by
  unfold timerStop
  cases hset : w.ttmrSet thread with
  | true => rfl
  | false =>
    have hsame : update w.ttmrSet thread false = w.ttmrSet := by
      rw [← hset, update_eq_self]
    rw [hsame, Bool.not_false, Bool.true_and, update_eq_self]
    rfl

/-- A timer that is set can be stopped while it is active. -/
def canStop (w : Waits T) (thread : T) : Bool := !w.ttmrSet thread || w.timerActive thread

/-- The thread's timer is started. -/
def timerStart (w : Waits T) (thread : T) : Waits T :=
  { w with
    ttmrSet := update w.ttmrSet thread true
    timerActive := update w.timerActive thread true }

/-- An expired timer is taken out of its list; its callback is to come. -/
def timerDue (w : Waits T) (thread : T) : Waits T :=
  { w with
    timerActive := update w.timerActive thread false
    timerFiring := update w.timerFiring thread true }

/-- The callback of an expired timer has been called. -/
def timerFired (w : Waits T) (thread : T) : Waits T :=
  { w with timerFiring := update w.timerFiring thread false }

/-- A thread is started: it stays suspended if its timer cannot be stopped. -/
def start (w : Waits T) (thread : T) : Waits T :=
  { w with
    fresh := update w.fresh thread false
    suspended := update w.suspended thread (!w.canStop thread)
    ttmrSet := update w.ttmrSet thread false
    timerActive := update w.timerActive thread
      (!w.ttmrSet thread && w.timerActive thread) }

/-- A suspended thread is woken. -/
def wake (w : Waits T) (thread : T) : Waits T := (w.unlink thread).setSuspended thread false

end Waits

namespace Sched

variable {T : Type*} {s : Sched T} {thread : T}
variable {head : ListHead} {s' : Sched T}

/-- The thread is not started. -/
def isFresh (s : Sched T) (thread : T) : Bool := (s.stat thread).code = .init

/-- The view of a scheduler state. -/
def waits (s : Sched T) : Waits T where
  priorityMax := s.priorityMax
  initPriority := s.initPriority
  currentPriority := s.currentPriority
  fresh := s.isFresh
  suspended := s.isSuspended
  waiting := fun head => if head.isWait then s.lists head else []
  ttmrSet := s.ttmrSet
  timerActive := s.timerActive
  timerFiring := s.timerFiring

/-- The wait lists of a view are the wait lists. -/
theorem waits_waiting (hwait : head.isWait) : s.waits.waiting head = s.lists head := if_pos hwait

/-- Equal views have the same wait lists. -/
theorem lists_of_waits (h : s'.waits = s.waits) (hwait : head.isWait) : s'.lists head = s.lists head := by
  rw [← waits_waiting hwait, h, waits_waiting hwait]

/-- A thread that is not suspended waits nowhere. -/
theorem LinksWithout.not_waiting (h : s.LinksWithout none) (hthread : s.isSuspended thread = false)
    (head : ListHead) (hwait : head.isWait) : thread ∉ s.lists head := by
  intro hmem
  have hsusp := (h.wait thread head hwait hmem).2
  rw [hthread] at hsusp
  cases hsusp

theorem waits_rtSuspListEnqueue (s : Sched T) (hwait : head.isWait) (thread : T) (flag : IpcFlag) :
    (s.rtSuspListEnqueue head thread flag).waits = s.waits.link head thread flag := by
  cases flag <;>
  · apply Waits.ext <;> try rfl
    funext other
    by_cases hsame : other = head
    · subst hsame
      simp [waits, rtSuspListEnqueue, listInsertBefore, Waits.link, hwait]
    · simp [waits, rtSuspListEnqueue, listInsertBefore, Waits.link, hsame]

variable [DecidableEq T]

/-- Which threads are suspended after a status was written. -/
theorem isSuspended_setStat (s : Sched T) (thread : T) (stat : Stat) :
    (s.setStat thread stat).isSuspended = update s.isSuspended thread stat.code.isSuspend :=
  comp_update (fun stat : Stat => stat.code.isSuspend) s.stat thread stat

/-- Which threads are fresh after a status was written. -/
theorem isFresh_setStat (s : Sched T) (thread : T) (stat : Stat) :
    (s.setStat thread stat).isFresh = update s.isFresh thread (stat.code = .init) :=
  comp_update (fun stat : Stat => decide (stat.code = .init)) s.stat thread stat

/-- Writing a status that does not change whether the thread is fresh or suspended. -/
theorem waits_setStat {stat : Stat} (hfresh : decide (stat.code = .init) = s.isFresh thread)
    (h : stat.code.isSuspend = s.isSuspended thread) : (s.setStat thread stat).waits = s.waits := by
  unfold waits
  rw [isSuspended_setStat, isFresh_setStat, h, hfresh, update_eq_self, update_eq_self]
  rfl

/-- Writing the status of a started thread. -/
theorem waits_setStat_of_started {stat : Stat} (hfresh : stat.code ≠ .init) :
    (s.setStat thread stat).waits = s.waits.setSuspended thread stat.code.isSuspend := by
  unfold waits Waits.setSuspended
  rw [isSuspended_setStat, isFresh_setStat, decide_eq_false hfresh]
  rfl

/-- Unlinking a thread takes it out of the wait lists. -/
theorem waits_listRemove (s : Sched T) (thread : T) :
    (s.listRemove thread).waits = s.waits.unlink thread := by
  apply Waits.ext <;> try rfl
  funext head
  simp only [waits, Waits.unlink]
  split <;> rfl

/-- Unlinking a thread that waits nowhere. -/
theorem unlink_waits (h : ∀ head, head.isWait → thread ∉ s.lists head) :
    s.waits.unlink thread = s.waits := by
  rw [← waits_listRemove]
  apply Waits.ext <;> try rfl
  funext head
  exact ite_congr rfl (fun hwait => listRemove_lists_of_not_mem (h head hwait)) fun _ => rfl

/-- Removing a thread that waits nowhere from the ready queue. -/
theorem waits_rtSchedRemoveThread (h : ∀ head, head.isWait → thread ∉ s.lists head) :
    (s.rtSchedRemoveThread thread).waits = s.waits := by
  rw [rtSchedRemoveThread_eq]
  exact (waits_listRemove s thread).trans (unlink_waits h)

theorem waits_setMasks (s : Sched T) (thread : T) : (s.setMasks thread).waits = s.waits := by
  rw [setMasks_eq]
  rfl

/-- Inserting a thread into the ready queue. -/
theorem waits_rtSchedInsertThread (s : Sched T) (thread : T) :
    (s.rtSchedInsertThread thread).waits = s.waits.setSuspended thread false := by
  have hstat : ∀ f : StatCode → Bool, f .running = false → f .ready = false →
      (fun t => f ((s.rtSchedInsertThread thread).stat t).code) =
        update (fun t => f (s.stat t).code) thread false := by
    intro f hrunning hready
    funext t
    rw [rtSchedInsertThread_stat, update_apply, update_apply]
    split_ifs <;> simp [hrunning, hready]
  have hlists : ∀ head : ListHead, head.isWait →
      (s.rtSchedInsertThread thread).lists head = s.lists head := by
    intro head hwait
    by_cases hcur : s.current = some thread
    · rw [rtSchedInsertThread, if_pos hcur]
      rfl
    · obtain ⟨list, -, heq⟩ := rtSchedInsertThread_of_ne hcur
      rw [heq, setReadyBits_eq]
      apply update_of_ne
      rintro rfl
      simp [ListHead.isWait] at hwait
  apply Waits.ext
  case waiting =>
    funext head
    simp only [waits, Waits.setSuspended]
    split
    next hwait =>
      exact hlists head hwait
    · rfl
  case suspended => exact hstat StatCode.isSuspend rfl rfl
  case fresh => exact hstat (fun code => code = .init) rfl rfl
  all_goals
    rw [rtSchedInsertThread_eq]
    rfl

/-- Writing that a thread is started and not suspended when it is. -/
theorem waits_setSuspended_self (hfresh : s.isFresh thread = false)
    (h : s.isSuspended thread = false) : s.waits.setSuspended thread false = s.waits := by
  have hsusp : update s.waits.suspended thread false = s.waits.suspended := update_eq_self_iff.mpr h.symm
  have hnew : update s.waits.fresh thread false = s.waits.fresh := update_eq_self_iff.mpr hfresh.symm
  rw [Waits.setSuspended, hsusp, hnew]

/-- What was written before does not matter. -/
theorem setSuspended_waits_setStat (s : Sched T) (thread : T) (stat : Stat) (value : Bool) :
    (s.setStat thread stat).waits.setSuspended thread value = s.waits.setSuspended thread value := by
  unfold waits Waits.setSuspended
  rw [isSuspended_setStat, isFresh_setStat, update_idem, update_idem]
  rfl

/-- A switch between threads that are not suspended is not seen. -/
theorem ReadyQueue.waits_switchTo {cur best : T} {running : Bool} (h : s.ReadyQueue)
    (hrunning : running = true → (s.stat cur).code = .running)
    (hbest : (s.stat best).code = .ready) : (s.switchTo cur best running).waits = s.waits := by
  have hsusp : s.isSuspended best = false := by simp [isSuspended, hbest]
  have hfresh : s.isFresh best = false := by simp [isFresh, hbest]
  have hback : ∀ s1 : Sched T, s1.waits = s.waits →
      (((s1.setStat cur { s1.stat cur with yield := false }).rtSchedRemoveThread best).setCode best
        .running).waits = s.waits := by
    intro s1 hwaits
    have hclear : (s1.setStat cur { s1.stat cur with yield := false }).waits = s.waits := by
      refine (waits_setStat ?_ ?_).trans hwaits <;> rfl
    have hremove : ((s1.setStat cur { s1.stat cur with yield := false }).rtSchedRemoveThread
        best).waits = s.waits := by
      refine (waits_rtSchedRemoveThread ?_).trans hclear
      intro head hwait
      rw [lists_of_waits hclear hwait]
      exact h.queue.not_waiting hsusp head hwait
    refine (waits_setStat_of_started ?_).trans ?_
    · simp
    · rw [hremove]
      exact waits_setSuspended_self hfresh hsusp
  cases running with
  | false => exact hback _ rfl
  | true =>
    apply hback
    have hcode := hrunning rfl
    refine (waits_rtSchedInsertThread _ _).trans ?_
    exact waits_setSuspended_self (by simp [isFresh, hcode]) (by simp [isSuspended, hcode])

theorem ReadyQueue.waits_rtSchedule (h : s.ReadyQueue) : s.rtSchedule.waits = s.waits := by
  obtain ⟨heq, -⟩ | ⟨cur, best, heq, hcur, -, hready, -⟩ := h.rtSchedule_cases
  · rw [heq]
  · rw [heq]
    exact h.waits_switchTo (by simp) hready

/-- Leaving a critical section is not seen. -/
theorem ReadyQueue.waits_rtExitCritical (h : s.ReadyQueue) : s.rtExitCritical.waits = s.waits := by
  have hnest : ({ s with lockNest := s.lockNest - 1 }).ReadyQueue :=
    h.congr rfl rfl
  unfold Sched.rtExitCritical
  dsimp only
  split
  · exact hnest.waits_rtSchedule
  · rfl

theorem ReadyQueue.waits_rtSchedUnlockNResched (h : s.ReadyQueue) :
    s.rtSchedUnlockNResched.waits = s.waits := by
  unfold Sched.rtSchedUnlockNResched
  split
  · exact h.waits_rtSchedule
  · rfl

/-- `rt_sched_thread_change_priority` changes one priority. -/
theorem ReadyQueue.waits_rtSchedThreadChangePriority {priority : ℕ}
    (h : s.ReadyQueue) (heq : s.rtSchedThreadChangePriority thread priority = some s') :
    s'.waits = s.waits.setPriority thread priority := by
  obtain ⟨-, heq⟩ := Option.ite_none_right_eq_some.mp heq
  split at heq
  next hready =>
    cases heq
    have hsusp : s.isSuspended thread = false := by simp [isSuspended, hready]
    have hfresh : s.isFresh thread = false := by simp [isFresh, hready]
    have hremove := waits_rtSchedRemoveThread (h.queue.not_waiting hsusp)
    have hset : (((s.rtSchedRemoveThread thread).setCurrentPriority thread priority).setMasks
        thread).waits = s.waits.setPriority thread priority := by
      rw [waits_setMasks, ← hremove]
      rfl
    rw [waits_rtSchedInsertThread, setSuspended_waits_setStat, hset]
    exact congrArg (·.setPriority thread priority) (waits_setSuspended_self hfresh hsusp)
  · cases heq
    rw [setMasks_eq]
    rfl

theorem waits_rtSchedThreadTimerStop (s : Sched T) (thread : T) :
    (s.rtSchedThreadTimerStop thread).1.waits = s.waits.timerStop thread := by
  by_cases hset : s.ttmrSet thread
  · rw [rtSchedThreadTimerStop, if_pos hset, Waits.timerStop,
      if_pos (show s.waits.ttmrSet thread = true from hset)]
    rfl
  · rw [rtSchedThreadTimerStop, if_neg hset, Waits.timerStop,
      if_neg (show ¬ s.waits.ttmrSet thread = true from hset)]

/-- Whether the timer could be stopped. -/
theorem rtSchedThreadTimerStop_ok (s : Sched T) (thread : T) :
    (s.rtSchedThreadTimerStop thread).2 = s.waits.canStop thread := by
  unfold rtSchedThreadTimerStop Waits.canStop
  by_cases hset : s.ttmrSet thread <;> simp [hset, waits]

/-- `rt_sched_thread_ready`: a suspended thread is woken unless its timer cannot be stopped. -/
theorem waits_rtSchedThreadReady (s : Sched T) (thread : T) :
    (s.rtSchedThreadReady thread).2 = (s.waits.suspended thread && s.waits.canStop thread) ∧
    (s.rtSchedThreadReady thread).1.waits = if s.waits.suspended thread then
        if s.waits.canStop thread then (s.waits.timerStop thread).wake thread
        else s.waits.timerStop thread
      else s.waits := by
  unfold rtSchedThreadReady
  by_cases hsusp : s.isSuspended thread
  · rw [if_pos hsusp, if_pos (show s.waits.suspended thread = true from hsusp)]
    dsimp only
    rw [rtSchedThreadTimerStop_ok]
    cases hstop : s.waits.canStop thread with
    | true =>
      rw [if_pos rfl]
      refine ⟨by simp [waits, hsusp], ?_⟩
      rw [waits_rtSchedInsertThread, waits_listRemove, waits_rtSchedThreadTimerStop]
      rfl
    | false =>
      exact ⟨by simp, waits_rtSchedThreadTimerStop s thread⟩
  · rw [if_neg hsusp, if_neg (show ¬ s.waits.suspended thread = true from hsusp)]
    exact ⟨by simp [waits, hsusp], rfl⟩

theorem ReadyQueue.waits_rtThreadSuspendToList {flag : IpcFlag}
    {suspendFlag : SuspendFlag} (h : s.ReadyQueue) (hwait : head.isWait)
    (heq : s.rtThreadSuspendToList thread (some head) flag suspendFlag = some (s', true)) :
    s.waits.suspended thread = false ∧
    s'.waits = ((s.waits.setSuspended thread true).link head thread flag).timerStop thread := by
  obtain ⟨-, ⟨-, hfalse, -⟩ | ⟨-, hcode, rfl⟩⟩ := h.rtThreadSuspendToList_eq heq
  · cases hfalse
  · refine ⟨by simp [waits, isSuspended, hcode], ?_⟩
    rw [waits_rtSchedThreadTimerStop]
    rw [waits_rtSuspListEnqueue _ hwait]
    rw [setCode, waits_setStat_of_started (by simp)]
    rfl

/-- A suspension on no list. -/
theorem ReadyQueue.waits_rtThreadSuspend {ok : Bool} {flag : IpcFlag}
    {suspendFlag : SuspendFlag} (h : s.ReadyQueue) (hrunning : (s.stat thread).code = .running)
    (heq : s.rtThreadSuspendToList thread none flag suspendFlag = some (s', ok)) :
    ok = true ∧ s'.waits = (s.waits.setSuspended thread true).timerStop thread := by
  obtain ⟨-, ⟨-, -, hcode⟩ | ⟨rfl, -, rfl⟩⟩ := h.rtThreadSuspendToList_eq heq
  · exact absurd hrunning hcode
  · refine ⟨rfl, ?_⟩
    rw [waits_rtSchedThreadTimerStop, setCode, waits_setStat_of_started (by simp)]
    rfl

theorem waits_rtTimerStart (s : Sched T) (thread : T) :
    (s.rtTimerStart thread).waits = s.waits.timerStart thread := rfl

/-- The `YIELD` bit and the ticks are not seen. -/
theorem waits_rtSchedThreadYield (s : Sched T) (thread : T) :
    (s.rtSchedThreadYield thread).waits = s.waits := waits_setStat rfl rfl

theorem ReadyQueue.waits_rtThreadYield (h : s.ReadyQueue) (thread : T) :
    (s.rtThreadYield thread).waits = s.waits :=
  (h.rtSchedThreadYield thread).waits_rtSchedUnlockNResched.trans (waits_rtSchedThreadYield s thread)

theorem ReadyQueue.waits_rtSchedTickIncrease (h : s.ReadyQueue) (thread : T) :
    (s.rtSchedTickIncrease thread).waits = s.waits := by
  have hticks : ∀ left, ({ s with
      remainingTick := update s.remainingTick thread left }).ReadyQueue :=
    fun _ => h.congr rfl rfl
  unfold Sched.rtSchedTickIncrease
  dsimp only
  split
  · rfl
  · exact (hticks _).waits_rtThreadYield thread

/-- A resumption is seen as a wake-up. -/
theorem ReadyQueue.waits_rtThreadResume (h : s.ReadyQueue) (thread : T) :
    (s.rtThreadResume thread).1.waits = (s.rtSchedThreadReady thread).1.waits := by
  unfold Sched.rtThreadResume
  dsimp only
  split
  · exact (h.rtSchedThreadReady thread).waits_rtSchedUnlockNResched
  · rfl

/-- `rt_thread_startup`: a fresh thread is suspended and resumed. -/
theorem ReadyQueue.waits_rtThreadStartup (h : s.ReadyQueue) (heq : s.rtThreadStartup thread = some s') :
    s.waits.fresh thread = true ∧ s'.waits = s.waits.start thread := by
  unfold Sched.rtThreadStartup at heq
  split_ifs at heq with hinit
  cases heq
  refine ⟨by simp [waits, isFresh, hinit], ?_⟩
  have hunlink : s.waits.unlink thread = s.waits :=
    unlink_waits (h.queue.not_waiting (by simp [isSuspended, hinit]))
  have hstart : (s.rtSchedThreadStartup thread).waits = s.waits.setSuspended thread true := by
    rw [Sched.rtSchedThreadStartup, waits_setStat_of_started (by simp), waits_setMasks]
    rfl
  rw [(h.rtSchedThreadStartup hinit).waits_rtThreadResume, (waits_rtSchedThreadReady _ _).2,
    hstart, if_pos (show (s.waits.setSuspended thread true).suspended thread = true from
      update_self ..), Waits.timerStop_eq, Waits.start]
  change (if s.waits.canStop thread = true then _ else _) = _
  cases s.waits.canStop thread with
  | true =>
    rw [if_pos rfl]
    simp only [Waits.wake, Waits.setSuspended, Waits.unlink, update_idem, Bool.not_true]
    rw [show (fun head => (s.waits.waiting head).filter (· ≠ thread)) = s.waits.waiting from
      congrArg Waits.waiting hunlink]
  | false =>
    rfl

theorem waits_timerDue (heq : s.timerDue thread = some s') :
    s.waits.timerActive thread = true ∧ s.waits.timerFiring thread = false ∧
    s'.waits = s.waits.timerDue thread := by
  unfold Sched.timerDue at heq
  split_ifs at heq with hdue
  cases heq
  exact ⟨hdue.1, Bool.eq_false_of_not_eq_true hdue.2, rfl⟩

/-- `_thread_timeout` wakes a thread that is suspended. -/
theorem ReadyQueue.waits_threadTimeout (h : s.ReadyQueue) (heq : s.threadTimeout thread = some s') :
    s.waits.timerFiring thread = true ∧ s.waits.suspended thread = true ∧
    s'.waits = (s.waits.timerFired thread).wake thread := by
  unfold Sched.threadTimeout at heq
  split_ifs at heq with hfiring
  dsimp only at heq
  split_ifs at heq with hsusp
  cases heq
  refine ⟨hfiring, hsusp, ?_⟩
  rw [((h.timerFired thread).wake hsusp).waits_rtSchedUnlockNResched, waits_rtSchedInsertThread,
    waits_listRemove]
  rfl

/-- The start of the scheduler is not seen. -/
theorem ReadyQueue.waits_rtSystemSchedulerStart (h : s.ReadyQueue)
    (heq : s.rtSystemSchedulerStart = some s') : s'.waits = s.waits := by
  unfold Sched.rtSystemSchedulerStart at heq
  split at heq
  next best hfind =>
    cases heq
    have hready : (s.stat best).code = .ready :=
      ((h.queue.ready best _).mp (List.mem_of_mem_head? hfind)).2.1
    have hsusp : s.isSuspended best = false := by simp [isSuspended, hready]
    have hremove : (({ s with current := some best }).rtSchedRemoveThread best).waits = s.waits :=
      waits_rtSchedRemoveThread (h.queue.not_waiting hsusp)
    rw [waits_setStat_of_started (by simp), hremove]
    exact waits_setSuspended_self (by simp [isFresh, hready]) hsusp
  · simp at heq

end Sched

end RtThread.Kernel
