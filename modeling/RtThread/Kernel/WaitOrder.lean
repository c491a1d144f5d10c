import RtThread.Kernel.Preemption

/-!
# The order of the wait lists

A list of an object with `RT_IPC_FLAG_PRIO` is put in order of priority by `rt_susp_list_enqueue` alone.
It stays in order as long as the priority of no waiting thread changes, and then the thread that is
resumed first has the highest priority. `_thread_update_priority` puts a thread again into the list of a
mutex, and `rt_sched_thread_change_priority` does not look for a list at all.
-/

namespace RtThread.Kernel

open Lib Function Option

/-- Such a list is a wait list. -/
theorem ListHead.isWait_of_isObject {head : ListHead} (h : head.isObject = true) : head.isWait = true := by
  cases head <;> first | rfl | cases h

namespace Sched

variable {T : Type*} [DecidableEq T] {s s' : Sched T} {thread : T}

/-- `rt_schedule` changes no priority. -/
theorem rtSchedule_currentPriority (s : Sched T) : s.rtSchedule.currentPriority = s.currentPriority := by
  have hgo : ∀ (cur next : T) (running : Bool), (if next ≠ cur then s.switchTo cur next running
      else (s.rtSchedRemoveThread cur).setCode cur .running).currentPriority = s.currentPriority := by
    intro cur next running
    split
    · rw [switchTo_eq]
    · rw [rtSchedRemoveThread_eq]
      rfl
  unfold rtSchedule
  split
  · split
    · exact hgo _ _ _
    · rfl
  · rfl

/-- A suspension on a list changes no priority, and keeps the order of every list but one that threads
enter at the end. -/
theorem rtThreadSuspendToList_sorted {ok : Bool} {head : ListHead} {flag : IpcFlag}
    {suspendFlag : SuspendFlag}
    (heq : s.rtThreadSuspendToList thread (some head) flag suspendFlag = some (s', ok)) :
    s'.currentPriority = s.currentPriority ∧
    ∀ other, (other = head → flag = .prio) → SortedBy s.currentPriority (s.lists other) →
      SortedBy s.currentPriority (s'.lists other) := by
  obtain ⟨-, heq⟩ := ite_none_right_eq_some.mp heq
  split at heq
  · cases heq
    have hstop : ∀ s1 : Sched T, (s1.rtSchedThreadTimerStop thread).1.currentPriority =
        s1.currentPriority ∧ (s1.rtSchedThreadTimerStop thread).1.lists = s1.lists := by
      intro s1
      unfold rtSchedThreadTimerStop
      split <;> exact ⟨rfl, rfl⟩
    rw [(hstop _).1, (hstop _).2, rtSchedRemoveThread_eq]
    cases flag with
    | fifo =>
      refine ⟨rfl, fun other hother hsorted => ?_⟩
      have hne : other ≠ head := fun hsame => IpcFlag.noConfusion (hother hsame)
      simp only [rtSuspListEnqueue, listInsertBefore, update_of_ne hne]
      exact hsorted.filter _
    | prio =>
      refine ⟨rfl, fun other _ hsorted => ?_⟩
      by_cases hsame : other = head
      · subst hsame
        simp only [rtSuspListEnqueue, update_self]
        exact (hsorted.filter _).insertBy
      · simp only [rtSuspListEnqueue, update_of_ne hsame]
        exact hsorted.filter _
  · cases heq
    exact ⟨rfl, fun _ _ hsorted => hsorted⟩

end Sched

namespace State

variable {T : Type*} {k k' k'' : State T} {t : T} {id : ℕ} {ret : Option ℤ}

/-- The wait lists of objects with `RT_IPC_FLAG_PRIO` are in order. -/
def WaitersSorted (k : State T) : Prop :=
  ∀ head : ListHead, head.isObject = true → k.waitFlag head = .prio →
    SortedBy k.currentPriority (k.lists head)

/-- No thread on such a list gets another priority. -/
def WaitersKeepPriority (k k' : State T) : Prop :=
  ∀ head : ListHead, head.isObject = true → k.waitFlag head = .prio →
    ∀ t ∈ k.lists head, k'.currentPriority t = k.currentPriority t

/-- What an event does to the wait lists of objects: threads leave them, or a thread enters one while all
priorities stay. -/
inductive ListStep (k k' : State T) : Prop where
  | thin : Thins k k' → ListStep k k'
  | enter : k'.waitFlag = k.waitFlag → k'.currentPriority = k.currentPriority →
      (k.WaitersSorted → k'.WaitersSorted) → ListStep k k'

/-- An event keeps the lists in order when it keeps the priorities of the threads on them. -/
theorem ListStep.waitersSorted (hstep : ListStep k k') (h : k.WaitersSorted)
    (hprio : WaitersKeepPriority k k') : k'.WaitersSorted := by
  cases hstep with
  | thin hthins =>
    intro head hobject hflag
    rw [hthins.flags] at hflag
    have hsorted := (h head hobject hflag).congr (hprio head hobject hflag)
    exact List.Pairwise.sublist (hthins.lists head hobject) hsorted
  | enter _ _ hsorted => exact hsorted h

variable [DecidableEq T]

/-- A thread that enters a list of its object. -/
theorem listStep_blockOn {k1 : State T} {head : ListHead} {suspendFlag : SuspendFlag} {timeout : ℤ}
    {pc : Pc} (heq : k1.blockOn t head (k1.waitFlag head) suspendFlag timeout pc = some (k', ret))
    (hsched : k1.toSched = k.toSched) (hflags : k1.waitFlag = k.waitFlag) : ListStep k k' := by
  obtain ⟨⟨s, ok⟩, hs, heq⟩ := map_eq_some_iff.mp heq
  obtain ⟨hprio, hsorted⟩ := Sched.rtThreadSuspendToList_sorted hs
  rw [hsched] at hprio hsorted
  have hsuspend : k.WaitersSorted → ∀ other : ListHead, other.isObject = true →
      k.waitFlag other = .prio → SortedBy k.currentPriority (s.lists other) := by
    intro hk other hobject hother
    refine hsorted other ?_ (hk other hobject hother)
    rintro rfl
    rw [hflags, hother]
  have hrest : ∀ k2 : State T, Thins { k1 with toSched := s } k2 →
      k2.currentPriority = s.currentPriority → ListStep k k2 := by
    intro k2 hthins hsame
    refine .enter (hthins.flags.trans hflags) (hsame.trans hprio) fun hk other hobject hother => ?_
    rw [hthins.flags] at hother
    rw [hsame, hprio]
    refine List.Pairwise.sublist (hthins.lists other hobject) (hsuspend hk other hobject ?_)
    rw [← hflags]
    exact hother
  split at heq
  · cases heq
    have htimer : Frame [] none { k1 with toSched := s } (State.startTimerIf { k1 with toSched := s } t timeout) :=
      (Frame.refl _).startTimerIf t timeout
    have hsame : (({ k1 with toSched := s }).startTimerIf t timeout).currentPriority =
        s.currentPriority := by
      unfold startTimerIf
      split <;> rfl
    generalize ({ k1 with toSched := s } : State T).startTimerIf t timeout = k2 at htimer hsame
    have hrun : Sched.Frame (fun _ => False) k2.toSched k2.rtSchedule := Sched.frame_rtSchedule _
    refine hrest _ ⟨htimer.thins.lists.trans hrun.thins, htimer.thins.flags⟩ ?_
    exact (Sched.rtSchedule_currentPriority k2.toSched).trans hsame
  · cases heq
    exact hrest _ ⟨.of_lists rfl, rfl⟩ rfl

/-- Every event. -/
theorem listStep_exec {fuel : ℕ} {e : KernelEvent T} (heq : exec fuel k e = some (k', ret)) :
    ListStep k k' := by
  cases (exec_stepped heq).foot with
  | frame hframe => exact .thin hframe.thins
  | ipc _ hstep =>
    cases hstep with
    | own hown => exact .thin hown.frame.thins
    | wake hown => exact .thin (hown.frame.wakeFirst _).thins
    | block hblock hown => exact listStep_blockOn hblock hown.own.sched hown.frame.thins.flags

/-- `rt_susp_list_dequeue` resumes the first thread of a list. -/
theorem rtSuspListDequeue_head {head : ListHead} {threadError : ℤ}
    (h : (k.rtSuspListDequeue head threadError).2 = some t) : ∃ rest, k.lists head = t :: rest := by
  unfold rtSuspListDequeue at h
  split at h
  · cases h
  next thread rest hlist =>
    dsimp only at h
    split at h
    · cases h
      exact ⟨rest, hlist⟩
    · cases h

/-- An event as a function to the next state, when only threads that are not suspended get another
priority. -/
def nextKeeping [Fintype T] (fuel : ℕ) (k : State T) (e : KernelEvent T) : Option (State T) :=
  (exec fuel k e).bind fun r =>
    if ∀ t, k.isSuspended t = true → r.1.currentPriority t = k.currentPriority t then some r.1
    else none

/-- A computed step keeps the priorities of the waiting threads. -/
theorem restricted_step_of_nextKeeping [Fintype T] {fuel : ℕ} {e : KernelEvent T}
    (hk : ((system T).restricted fun k _ k' => WaitersKeepPriority k k').Reachable k)
    (h : nextKeeping fuel k e = some k') :
    ((system T).restricted fun k _ k' => WaitersKeepPriority k k').step k e k' := by
  obtain ⟨⟨k1, ret⟩, hexec, hkeep⟩ := bind_eq_some_iff.mp h
  split_ifs at hkeep with hprio
  cases hkeep
  refine ⟨fun head hobject _ t ht => hprio t ?_, fuel, ret, hexec⟩
  have hqueue := (calm_of_reachable hk.of_restricted).queue
  exact (hqueue.queue.wait t head (ListHead.isWait_of_isObject hobject) ht).2

end State

end RtThread.Kernel
