import RtThread.Kernel.Mutex
import RtThread.Kernel.Schedule

/-!
# What the scheduler leaves alone

A thread enters the wait list of a semaphore, an event set, a mailbox or a message queue only when it
blocks on that object; every other function leaves these lists or takes threads out of them, and the
order of the threads that stay is the same. No function closes a thread, but `_thread_exit` and
`_thread_detach`.
-/

namespace RtThread.Kernel

open Function List

/-- The wait list of a semaphore, an event set, a mailbox, a message queue or a data queue. -/
def ListHead.isObject : ListHead → Bool
  | .sem _ => true
  | .event _ => true
  | .mbRecv _ => true
  | .mbSend _ => true
  | .mqRecv _ => true
  | .mqSend _ => true
  | .dqPush _ => true
  | .dqPop _ => true
  | _ => false

namespace Sched

variable {T : Type*} {s s' s'' : Sched T} {thread : T}

/-- Threads may leave the wait lists of objects, and none enters. -/
def Thins (s s' : Sched T) : Prop :=
  ∀ head : ListHead, head.isObject = true → (s'.lists head).Sublist (s.lists head)

/-- No thread is closed. -/
def ClosesNone (s s' : Sched T) : Prop :=
  ∀ t, (s'.stat t).code = .close → (s.stat t).code = .close

/-- No thread enters the wait list of an object, and no thread is closed but some. -/
structure Frame (dying : T → Prop) (s s' : Sched T) : Prop where
  thins : Thins s s'
  closes : ∀ t, ¬ dying t → (s'.stat t).code = .close → (s.stat t).code = .close

theorem Thins.of_lists (h : s'.lists = s.lists) : Thins s s' := fun head _ => by rw [h]

theorem Thins.trans (h : Thins s s') (h' : Thins s' s'') : Thins s s'' :=
  fun head hhead => (h' head hhead).trans (h head hhead)

/-- Only a list of another kind is written. -/
theorem Thins.of_update {other : ListHead} {list : List T}
    (h : s'.lists = Function.update s.lists other list) (hother : other.isObject = false) :
    Thins s s' := by
  intro head hhead
  have hne : head ≠ other := by
    rintro rfl
    exact absurd (hhead.symm.trans hother) (by decide)
  rw [h, update_of_ne hne]

variable {dying : T → Prop}

/-- Neither the lists nor the status of a thread changes. -/
theorem Frame.of_eq (hlists : s'.lists = s.lists) (hstat : s'.stat = s.stat) : Frame dying s s' :=
  ⟨.of_lists hlists, fun t _ ht => by rwa [← hstat]⟩

theorem Frame.trans (h : Frame dying s s') (h' : Frame dying s' s'') : Frame dying s s'' :=
  ⟨h.thins.trans h'.thins, fun t ht hclose => h.closes t ht (h'.closes t ht hclose)⟩

variable [DecidableEq T]

theorem frame_setStat {stat : Stat}
    (h : ¬ dying thread → stat.code = .close → (s.stat thread).code = .close) :
    Frame dying s (s.setStat thread stat) := by
  refine ⟨.of_lists rfl, fun t hdying ht => ?_⟩
  by_cases hthread : t = thread
  · subst hthread
    rw [setStat_self] at ht
    exact h hdying ht
  · rwa [setStat_of_ne _ hthread] at ht

section

variable (s)

theorem frame_listRemove (thread : T) : Frame dying s (s.listRemove thread) :=
  ⟨fun _ _ => filter_sublist, fun _ _ ht => ht⟩

theorem frame_rtSchedRemoveThread (thread : T) : Frame dying s (s.rtSchedRemoveThread thread) := by
  rw [rtSchedRemoveThread_eq]
  exact ⟨fun _ _ => filter_sublist, fun _ _ ht => ht⟩

theorem frame_rtSchedInsertThread (thread : T) : Frame dying s (s.rtSchedInsertThread thread) := by
  constructor
  · by_cases hcur : s.current = some thread
    · rw [rtSchedInsertThread, if_pos hcur]
      exact .of_lists rfl
    · obtain ⟨list, -, heq⟩ := rtSchedInsertThread_of_ne hcur
      rw [heq, setReadyBits_eq]
      exact .of_update rfl rfl
  · intro t _ ht
    rw [rtSchedInsertThread_stat] at ht
    by_cases hthread : t = thread
    · rw [hthread, update_self] at ht
      split at ht <;> cases ht
    · rwa [update_of_ne hthread] at ht

theorem frame_switchTo (cur best : T) (running : Bool) : Frame dying s (s.switchTo cur best running) := by
  refine Frame.trans ?_ (frame_setStat (by simp))
  refine Frame.trans ?_ (frame_rtSchedRemoveThread _ best)
  refine Frame.trans ?_ (frame_setStat fun _ h => h)
  split
  · refine Frame.trans ?_ (frame_rtSchedInsertThread _ cur)
    exact .of_eq rfl rfl
  · exact .of_eq rfl rfl

theorem frame_rtSchedule : Frame dying s s.rtSchedule := by
  have hgo : ∀ (cur next : T) (running : Bool), Frame dying s (if next ≠ cur then
      s.switchTo cur next running else (s.rtSchedRemoveThread cur).setCode cur .running) := by
    intro cur next running
    split
    · exact frame_switchTo s cur next running
    · exact (frame_rtSchedRemoveThread s cur).trans (frame_setStat (by simp))
  unfold rtSchedule
  split
  · split
    · exact hgo _ _ _
    · exact .of_eq rfl rfl
  · exact .of_eq rfl rfl

theorem frame_rtSchedUnlockNResched : Frame dying s s.rtSchedUnlockNResched := by
  unfold rtSchedUnlockNResched
  split
  · exact frame_rtSchedule s
  · exact .of_eq rfl rfl

theorem frame_rtExitCritical : Frame dying s s.rtExitCritical := by
  unfold rtExitCritical
  dsimp only
  split
  · refine Frame.trans ?_ (frame_rtSchedule _)
    exact .of_eq rfl rfl
  · exact .of_eq rfl rfl

theorem frame_rtSchedThreadTimerStop (thread : T) : Frame dying s (s.rtSchedThreadTimerStop thread).1 := by
  unfold rtSchedThreadTimerStop
  split <;> exact .of_eq rfl rfl

theorem frame_rtSchedThreadReady (thread : T) : Frame dying s (s.rtSchedThreadReady thread).1 := by
  have hstop : Frame dying s (s.rtSchedThreadTimerStop thread).1 := frame_rtSchedThreadTimerStop s thread
  unfold rtSchedThreadReady
  split
  · dsimp only
    split
    · exact (hstop.trans (frame_listRemove _ thread)).trans (frame_rtSchedInsertThread _ thread)
    · exact hstop
  · exact .of_eq rfl rfl

end

/-- `rt_thread_suspend_to_list` closes no thread and writes one list. -/
theorem rtThreadSuspendToList_frame {ok : Bool} {head : ListHead} {flag : IpcFlag}
    {suspendFlag : SuspendFlag}
    (heq : s.rtThreadSuspendToList thread (some head) flag suspendFlag = some (s', ok)) :
    ClosesNone s s' ∧ ∀ other, other ≠ head → (s'.lists other).Sublist (s.lists other) := by
  obtain ⟨-, heq⟩ := Option.ite_none_right_eq_some.mp heq
  split at heq
  · cases heq
    have hstop : ∀ s1 : Sched T, (s1.rtSchedThreadTimerStop thread).1.stat = s1.stat ∧
        (s1.rtSchedThreadTimerStop thread).1.lists = s1.lists := by
      intro s1
      unfold rtSchedThreadTimerStop
      split <;> exact ⟨rfl, rfl⟩
    have hsuspend : Frame (fun _ => False) s
        ((s.rtSchedRemoveThread thread).setCode thread (.suspend suspendFlag)) :=
      (frame_rtSchedRemoveThread s thread).trans (frame_setStat (by simp))
    refine ⟨fun t ht => ?_, fun other hother => ?_⟩
    · rw [(hstop _).1] at ht
      cases flag <;> exact hsuspend.closes t id ht
    · rw [(hstop _).2, rtSchedRemoveThread_eq]
      cases flag <;>
        simp only [rtSuspListEnqueue, listInsertBefore, update_of_ne hother] <;>
        exact filter_sublist
  · cases heq
    exact ⟨fun _ ht => ht, fun _ _ => .refl _⟩

/-- `rt_thread_suspend_to_list`, on a list of another kind. -/
theorem frame_rtThreadSuspendToList {ok : Bool} {head : ListHead} {flag : IpcFlag}
    {suspendFlag : SuspendFlag} (hhead : head.isObject = false)
    (heq : s.rtThreadSuspendToList thread (some head) flag suspendFlag = some (s', ok)) :
    Frame dying s s' := by
  obtain ⟨hcloses, hlists⟩ := rtThreadSuspendToList_frame heq
  refine ⟨fun other hother => hlists other ?_, fun t _ => hcloses t⟩
  rintro rfl
  exact absurd (hother.symm.trans hhead) (by decide)

theorem frame_rtSchedThreadChangePriority {priority : ℕ}
    (heq : s.rtSchedThreadChangePriority thread priority = some s') : Frame dying s s' := by
  have hmasks : ∀ s1 : Sched T, Frame dying s1 ((s1.setCurrentPriority thread priority).setMasks thread) :=
    fun s1 => .of_eq (by rw [setMasks_eq]; rfl) (by rw [setMasks_eq]; rfl)
  obtain ⟨-, heq⟩ := Option.ite_none_right_eq_some.mp heq
  split at heq
  · cases heq
    refine Frame.trans ?_ (frame_rtSchedInsertThread _ thread)
    refine Frame.trans ?_ (frame_setStat (by simp))
    exact (frame_rtSchedRemoveThread s thread).trans (hmasks _)
  · cases heq
    exact hmasks s

theorem frame_rtThreadResume (s : Sched T) (thread : T) : Frame dying s (s.rtThreadResume thread).1 := by
  have hready : Frame dying s (s.rtSchedThreadReady thread).1 := frame_rtSchedThreadReady s thread
  unfold rtThreadResume
  dsimp only
  split
  · exact hready.trans (frame_rtSchedUnlockNResched _)
  · exact hready

theorem frame_rtThreadStartup (heq : s.rtThreadStartup thread = some s') : Frame dying s s' := by
  unfold rtThreadStartup at heq
  split at heq
  · cases heq
    refine Frame.trans ?_ (frame_rtThreadResume _ thread)
    exact Frame.trans (.of_eq (by rw [setMasks_eq]) (by rw [setMasks_eq])) (frame_setStat (by simp))
  · cases heq

theorem frame_rtThreadYield (s : Sched T) (thread : T) : Frame dying s (s.rtThreadYield thread) := by
  refine Frame.trans ?_ (frame_rtSchedUnlockNResched _)
  refine Frame.trans ?_ (frame_setStat fun _ h => h)
  exact .of_eq rfl rfl

theorem frame_rtSchedTickIncrease (s : Sched T) (thread : T) :
    Frame dying s (s.rtSchedTickIncrease thread) := by
  unfold rtSchedTickIncrease
  dsimp only
  split
  · exact .of_eq rfl rfl
  · refine Frame.trans ?_ (frame_rtThreadYield _ thread)
    exact .of_eq rfl rfl

theorem frame_timerDue (heq : s.timerDue thread = some s') : Frame dying s s' := by
  unfold timerDue at heq
  split at heq
  · cases heq
    exact .of_eq rfl rfl
  · cases heq

theorem frame_threadTimeout (heq : s.threadTimeout thread = some s') : Frame dying s s' := by
  unfold threadTimeout at heq
  split_ifs at heq
  dsimp only at heq
  split at heq
  · cases heq
    refine Frame.trans ?_ (frame_rtSchedUnlockNResched _)
    refine Frame.trans ?_ (frame_rtSchedInsertThread _ thread)
    refine Frame.trans ?_ (frame_listRemove _ thread)
    exact .of_eq rfl rfl
  · cases heq

theorem frame_rtSystemSchedulerStart (heq : s.rtSystemSchedulerStart = some s') : Frame dying s s' := by
  unfold rtSystemSchedulerStart at heq
  split at heq
  · cases heq
    refine Frame.trans ?_ (frame_setStat (by simp))
    refine Frame.trans ?_ (frame_rtSchedRemoveThread _ _)
    exact .of_eq rfl rfl
  · cases heq

/-- The wake-up loop of `rt_mutex_release`. -/
theorem frame_releaseWake {id rounds : ℕ} {next : Option T}
    (heq : State.releaseWake id rounds s = some (s', next)) : Frame dying s s' := by
  have hready : ∀ (s : Sched T) n, Frame dying s ((s.listRemove n).rtSchedThreadReady n).1 :=
    fun s n => (frame_listRemove s n).trans (frame_rtSchedThreadReady _ n)
  exact State.releaseWake_induct (C := fun s s' _ => Frame dying s s') (fun _ => .of_eq rfl rfl)
    (fun s n _ _ _ => hready s n) (fun s _ n _ _ _ _ hrest => (hready s n).trans hrest) heq

/-- The section of `_thread_detach` under the scheduler lock closes only the one thread. -/
theorem frame_threadDetachSched (s : Sched T) (hdying : dying thread) :
    Frame dying s (s.threadDetachSched thread).1 := by
  unfold threadDetachSched
  split
  · exact .of_eq rfl rfl
  · refine Frame.trans ?_ (frame_setStat fun h => absurd hdying h)
    split
    · exact .of_eq rfl rfl
    · exact (frame_rtSchedRemoveThread s thread).trans (.of_eq rfl rfl)

omit [DecidableEq T] in
/-- A closed thread is put among the closed threads. -/
theorem frame_rtThreadDefunctEnqueue (s : Sched T) (thread : T) :
    Frame dying s (s.rtThreadDefunctEnqueue thread) :=
  ⟨.of_update rfl rfl, fun _ _ ht => ht⟩

theorem frame_threadExit (s : Sched T) (hdying : dying thread) : Frame dying s (s.threadExit thread) := by
  refine Frame.trans ?_ (frame_rtSchedule _)
  refine Frame.trans ?_ (frame_rtExitCritical _)
  refine Frame.trans ?_ (frame_rtThreadDefunctEnqueue _ thread)
  refine Frame.trans ?_ (frame_setStat fun h => absurd hdying h)
  rw [rtSchedRemoveThread_eq]
  exact ⟨fun _ _ => filter_sublist, fun _ _ ht => ht⟩

end Sched

end RtThread.Kernel
