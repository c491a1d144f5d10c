import RtThread.Kernel.ReadyQueue

/-!
# The scheduler keeps the ready queue

The functions of `SchedComm` preserve the queue invariant, `rt_schedule` first: whenever the bitmap
is not empty, it names a ready thread of the smallest priority.
-/

namespace RtThread.Kernel.Sched

open Function List Option

variable {T : Type*} {s : Sched T} {thread : T}
variable {s' : Sched T} {stat : Stat}

/-- When a thread is ready, `_scheduler_get_highest_priority_thread` finds a ready thread of the
smallest priority. -/
theorem QueueWithout.schedulerGetHighestPriorityThread (h : s.QueueWithout none)
    (hgroup : s.readyPriorityGroup ≠ 0) :
    ∃ best, s.schedulerGetHighestPriorityThread = some best ∧ (s.stat best).code = .ready ∧
      s.currentPriority best = s.highestReadyPriority ∧
      ∀ t, (s.stat t).code = .ready → s.highestReadyPriority ≤ s.currentPriority t := by
  obtain ⟨-, hne, hmin⟩ := h.bitmap.highestReadyPriority hgroup
  obtain ⟨best, rest, hlist⟩ := exists_cons_of_ne_nil hne
  have hmem : best ∈ s.lists (.ready s.highestReadyPriority) := by
    rw [hlist]
    exact mem_cons_self
  obtain ⟨-, hcode, hprio⟩ := (h.ready _ _).mp hmem
  refine ⟨best, ?_, hcode, hprio, ?_⟩
  · rw [Sched.schedulerGetHighestPriorityThread, hlist]
    rfl
  · intro t ht
    apply hmin _ (h.lt_bitmapSize t)
    apply ne_nil_of_mem
    exact (h.ready t _).mpr ⟨by simp, ht, rfl⟩

/-- The bitmap is empty exactly when no thread is ready. -/
theorem QueueWithout.group_eq_zero_iff (h : s.QueueWithout none) :
    s.readyPriorityGroup = 0 ↔ ∀ t, (s.stat t).code ≠ .ready := by
  constructor
  · intro hzero t ht
    refine h.bitmap.group_ne_zero (h.lt_bitmapSize t) ?_ hzero
    apply ne_nil_of_mem
    exact (h.ready t _).mpr ⟨by simp, ht, rfl⟩
  · intro hnone
    by_contra hgroup
    obtain ⟨best, -, hcode, -⟩ := h.schedulerGetHighestPriorityThread hgroup
    exact hnone best hcode

/-- The masks of a thread that runs or is ready. -/
theorem QueueWithout.masks_of_code (h : s.QueueWithout none)
    (hcode : (s.stat thread).code = .running ∨ (s.stat thread).code = .ready) :
    s.MasksFor thread (s.currentPriority thread) := by
  apply h.masks thread (by simp) <;> rcases hcode with hcode | hcode <;> simp [hcode]

/-- The invariant reads nothing of the timers, the ticks and the lock. -/
theorem ReadyQueue.congr (h : s.ReadyQueue) (hview : s'.queueView = s.queueView)
    (hcurrent : s'.current = s.current) : s'.ReadyQueue where
  queue := h.queue.congr hview
  current := by
    intro t ht
    rw [show (s'.stat t).code = (s.stat t).code from congrFun (congrArg (·.2.1) hview) t]
    exact h.current t (hcurrent ▸ ht)

/-- The masks of a suspended thread. -/
theorem ReadyQueue.masks_of_suspended (h : s.ReadyQueue) (hsusp : s.isSuspended thread) :
    s.MasksFor thread (s.currentPriority thread) := by
  obtain ⟨flag, hflag⟩ := isSuspended_iff.mp hsusp
  apply h.queue.masks thread (by simp) <;> simp [hflag]

/-- Locking the scheduler keeps the queue. -/
theorem ReadyQueue.rtEnterCritical (h : s.ReadyQueue) : s.rtEnterCritical.ReadyQueue :=
  h.congr rfl rfl

/-- A wait list after `rt_susp_list_enqueue`: the thread is somewhere in it. -/
theorem rtSuspListEnqueue_eq (s : Sched T) (head : ListHead) (thread : T) (flag : IpcFlag) :
    ∃ list : List T, list.Perm (thread :: s.lists head) ∧ s.rtSuspListEnqueue head thread flag =
        { s with lists := update s.lists head list } := by
  cases flag with
  | fifo => exact ⟨_, perm_append_singleton _ _, rfl⟩
  | prio => exact ⟨_, Lib.insertBy_perm _ _ _, rfl⟩

variable [DecidableEq T]

/-- Of a status the invariant reads the code only. -/
theorem queueView_setStat (hcode : stat.code = (s.stat thread).code) :
    (s.setStat thread stat).queueView = s.queueView :=
  Prod.ext rfl (Prod.ext ((comp_update Stat.code s.stat thread stat).trans
    (update_eq_self_iff.mpr hcode)) rfl)

/-- Taking a thread out of the queue and setting its code to one that needs no list. -/
theorem QueueWithout.removeSetStat (h : s.QueueWithout none)
    (hmasks : s.MasksFor thread (s.currentPriority thread)) (hstat : stat.code ≠ .ready) :
    ((s.rtSchedRemoveThread thread).setStat thread stat).QueueWithout none := by
  apply ((h.rtSchedRemoveThread hmasks).setStat stat).rejoin
  · simpa using hstat
  · intro _ _
    rw [rtSchedRemoveThread_eq]
    exact hmasks.congr rfl rfl rfl rfl

/-- The fields that `rt_sched_insert_thread` leaves alone. -/
theorem rtSchedInsertThread_eq (s : Sched T) (thread : T) : s.rtSchedInsertThread thread = { s with
      stat := (s.rtSchedInsertThread thread).stat
      lists := (s.rtSchedInsertThread thread).lists
      readyPriorityGroup := (s.rtSchedInsertThread thread).readyPriorityGroup
      readyTable := (s.rtSchedInsertThread thread).readyTable } := by
  by_cases h : s.current = some thread
  · rw [rtSchedInsertThread, if_pos h]
    rfl
  · obtain ⟨list, -, heq⟩ := rtSchedInsertThread_of_ne h
    rw [heq, setReadyBits_eq]
    rfl

/-- The status after `rt_sched_insert_thread`. -/
theorem rtSchedInsertThread_stat (s : Sched T) (thread : T) :
    (s.rtSchedInsertThread thread).stat = update s.stat thread
      { s.stat thread with code := if s.current = some thread then .running else .ready } := by
  by_cases h : s.current = some thread
  · rw [rtSchedInsertThread, if_pos h, if_pos h]
    rfl
  · obtain ⟨list, -, heq⟩ := rtSchedInsertThread_of_ne h
    rw [heq, setReadyBits_eq, if_neg h]
    rfl

/-- The fields that a switch leaves alone. -/
theorem switchTo_eq (s : Sched T) (cur best : T) (running : Bool) : s.switchTo cur best running = { s with
        stat := (s.switchTo cur best running).stat
        lists := (s.switchTo cur best running).lists
        readyPriorityGroup := (s.switchTo cur best running).readyPriorityGroup
        readyTable := (s.switchTo cur best running).readyTable
        current := some best } := by
  cases running with
  | false =>
    simp only [switchTo, setStat, if_false]
    rw [rtSchedRemoveThread_eq]
    rfl
  | true =>
    simp only [switchTo, setStat]
    rw [rtSchedRemoveThread_eq, rtSchedInsertThread_eq]
    rfl

theorem ReadyQueue.switchTo {cur best : T} {running : Bool} (h : s.ReadyQueue)
    (hcur : s.current = some cur) (hrunning : running = true → (s.stat cur).code = .running)
    (hbest : (s.stat best).code = .ready) : (s.switchTo cur best running).ReadyQueue := by
  have hne : best ≠ cur := by
    rintro rfl
    exact h.current best hcur hbest
  have hstart : ({ s with current := some best }).QueueWithout none :=
    h.queue.congr rfl
  have hback : ∀ s1 : Sched T, s1.QueueWithout none → (s1.stat best).code = .ready →
      (((s1.setStat cur { s1.stat cur with yield := false }).rtSchedRemoveThread best).setCode best
        .running).QueueWithout none := by
    intro s1 h1 hready
    have hclear : (s1.setStat cur { s1.stat cur with yield := false }).QueueWithout none :=
      h1.congr (queueView_setStat rfl)
    apply hclear.removeSetStat _ (by simp)
    apply hclear.masks_of_code
    rw [setStat_of_ne _ hne]
    exact .inr hready
  constructor
  · cases running with
    | false => exact hback _ hstart hbest
    | true =>
      apply hback
      · have hcode := hrunning rfl
        exact (hstart.takeOut (hstart.not_linked (.inl hcode))).rtSchedInsertThread
          (hstart.masks_of_code (.inl hcode))
      · rw [if_pos rfl, rtSchedInsertThread_stat, update_of_ne hne]
        exact hbest
  · intro t ht
    rw [switchTo_eq] at ht
    obtain rfl : best = t := by simpa using ht
    simp [Sched.switchTo, setCode]

theorem setCode_self {code : StatCode} (h : (s.stat thread).code = code) : s.setCode thread code = s := by
  rw [setCode, ← h, setStat, update_eq_self]

/-- What `rt_schedule` does: nothing, when it is locked, no thread is ready or the current thread
goes on; otherwise a switch to a ready thread of the smallest priority. -/
theorem ReadyQueue.rtSchedule_cases (h : s.ReadyQueue) :
    (s.rtSchedule = s ∧ ∀ cur, s.current = some cur → s.lockNest = 0 →
      (∀ t, (s.stat t).code ≠ .ready) ∨ ((s.stat cur).code = .running ∧
        ∀ t, (s.stat t).code = .ready → s.currentPriority cur ≤ s.currentPriority t)) ∨
    ∃ cur best, s.rtSchedule = s.switchTo cur best ((s.stat cur).code = .running) ∧
      s.current = some cur ∧ s.lockNest = 0 ∧ (s.stat best).code = .ready ∧
      (∀ t, (s.stat t).code = .ready → s.currentPriority best ≤ s.currentPriority t) ∧
      ((s.stat cur).code = .running → s.currentPriority best ≤ s.currentPriority cur) := by
  unfold Sched.rtSchedule
  split
  next cur best hcur hfind =>
    split
    next hopen =>
      obtain ⟨best', hfind', hready, hprio, hmin⟩ :=
        h.queue.schedulerGetHighestPriorityThread hopen.2
      obtain rfl : best = best' := mem_unique hfind hfind'
      have hne : best ≠ cur := by
        rintro rfl
        exact h.current best hcur hready
      by_cases hstay : (s.stat cur).code = .running ∧ (s.currentPriority cur < s.highestReadyPriority ∨
            (s.currentPriority cur = s.highestReadyPriority ∧ (s.stat cur).yield = false))
      · left
        simp only [decide_eq_true hstay.1, true_and, decide_eq_true hstay.2, if_true, ne_eq,
          not_true_eq_false, if_false]
        constructor
        · rw [h.queue.rtSchedRemoveThread_of_not_linked (h.queue.masks_of_code (.inl hstay.1))
            (h.queue.not_linked (.inl hstay.1)), setCode_self hstay.1]
        · intro other hother _
          obtain rfl : cur = other := mem_unique hcur hother
          refine .inr ⟨hstay.1, fun t ht => ?_⟩
          have hle := hmin t ht
          omega
      · right
        refine ⟨cur, best, ?_, hcur, hopen.1, hready, fun t ht => hprio ▸ hmin t ht, ?_⟩
        · simp only [decide_eq_true_eq, if_neg hstay, if_pos hne]
        · intro hrunning
          by_contra hlt
          exact hstay ⟨hrunning, .inl (by omega)⟩
    next hclosed =>
      refine .inl ⟨rfl, fun _ _ hlock => .inl ?_⟩
      apply h.queue.group_eq_zero_iff.mp
      by_contra hgroup
      exact hclosed ⟨hlock, hgroup⟩
  next hnone =>
    refine .inl ⟨rfl, fun cur hcur _ => .inl ?_⟩
    apply h.queue.group_eq_zero_iff.mp
    by_contra hgroup
    obtain ⟨best, hfind, -⟩ := h.queue.schedulerGetHighestPriorityThread hgroup
    exact hnone cur best hcur hfind

theorem ReadyQueue.rtSchedule (h : s.ReadyQueue) : s.rtSchedule.ReadyQueue := by
  obtain ⟨heq, -⟩ | ⟨cur, best, heq, hcur, -, hready, -⟩ := h.rtSchedule_cases
  · rw [heq]
    exact h
  · rw [heq]
    exact h.switchTo hcur (by simp) hready

/-- Stopping a thread's timer keeps the queue. -/
theorem ReadyQueue.rtSchedThreadTimerStop (h : s.ReadyQueue) (thread : T) :
    (s.rtSchedThreadTimerStop thread).1.ReadyQueue := by
  unfold Sched.rtSchedThreadTimerStop
  split
  · exact h.congr rfl rfl
  · exact h

/-- Stopping a thread's timer leaves the status. -/
theorem rtSchedThreadTimerStop_stat (s : Sched T) (thread : T) :
    (s.rtSchedThreadTimerStop thread).1.stat = s.stat := by
  unfold rtSchedThreadTimerStop
  split <;> rfl

/-- Inserting a thread completes the invariant. -/
theorem QueueWithout.insert (h : s.QueueWithout (some thread))
    (hmasks : s.MasksFor thread (s.currentPriority thread))
    (hcurrent : ∀ t, t ≠ thread → s.current = some t → (s.stat t).code ≠ .ready) :
    (s.rtSchedInsertThread thread).ReadyQueue := by
  refine ⟨h.rtSchedInsertThread hmasks, ?_⟩
  intro t ht
  rw [rtSchedInsertThread_eq] at ht
  rw [rtSchedInsertThread_stat]
  by_cases hsame : t = thread
  · subst hsame
    simp [show s.current = some t from ht]
  · rw [update_of_ne hsame]
    exact hcurrent t hsame ht

/-- A suspended thread is unlinked and inserted: the way of every wake-up. -/
theorem ReadyQueue.wake (h : s.ReadyQueue) (hsusp : s.isSuspended thread) :
    ((s.listRemove thread).rtSchedInsertThread thread).ReadyQueue := by
  obtain ⟨flag, hflag⟩ := isSuspended_iff.mp hsusp
  apply (h.queue.listRemove (by simp [hflag])).insert
  · exact (h.masks_of_suspended hsusp).congr rfl rfl rfl rfl
  · intro t _ ht
    exact h.current t ht

/-- `rt_sched_thread_ready` keeps the queue. -/
theorem ReadyQueue.rtSchedThreadReady (h : s.ReadyQueue) (thread : T) :
    (s.rtSchedThreadReady thread).1.ReadyQueue := by
  unfold Sched.rtSchedThreadReady
  split
  next hsusp =>
    have hstop := h.rtSchedThreadTimerStop thread
    have hsusp' : (s.rtSchedThreadTimerStop thread).1.isSuspended thread := by
      rwa [isSuspended_iff, rtSchedThreadTimerStop_stat, ← isSuspended_iff]
    dsimp only
    split
    · exact hstop.wake hsusp'
    · exact hstop
  · exact h

theorem ReadyQueue.rtSchedUnlockNResched (h : s.ReadyQueue) : s.rtSchedUnlockNResched.ReadyQueue := by
  unfold Sched.rtSchedUnlockNResched
  split
  · exact h.rtSchedule
  · exact h

/-- Unlocking the scheduler keeps the queue. -/
theorem ReadyQueue.rtExitCritical (h : s.ReadyQueue) : s.rtExitCritical.ReadyQueue := by
  have hnest : ({ s with lockNest := s.lockNest - 1 }).ReadyQueue :=
    h.congr rfl rfl
  unfold Sched.rtExitCritical
  dsimp only
  split
  · exact hnest.rtSchedule
  · exact hnest

theorem ReadyQueue.rtThreadResume (h : s.ReadyQueue) (thread : T) :
    (s.rtThreadResume thread).1.ReadyQueue := by
  have hready := h.rtSchedThreadReady thread
  unfold Sched.rtThreadResume
  dsimp only
  split
  · exact hready.rtSchedUnlockNResched
  · exact hready

/-- A suspended thread that is out of the queue enters a wait list. -/
theorem QueueWithout.rtSuspListEnqueue {head : ListHead} (h : s.QueueWithout (some thread))
    (hwait : head.isWait) (hsusp : s.isSuspended thread)
    (hmasks : s.MasksFor thread (s.currentPriority thread)) (flag : IpcFlag) :
    (s.rtSuspListEnqueue head thread flag).QueueWithout none := by
  obtain ⟨list, hlist, heq⟩ := rtSuspListEnqueue_eq s head thread flag
  rw [heq]
  apply h.link _ _ (fun _ _ => hmasks) hlist
  · rintro p rfl
    simp [ListHead.isWait] at hwait
  · cases head with
    | ready | defunct => simp [ListHead.isWait] at hwait
    | _ => exact hsusp

/-- Unlinking a suspended thread keeps the queue. -/
theorem ReadyQueue.listRemove (h : s.ReadyQueue) (hsusp : s.isSuspended thread) :
    (s.listRemove thread).ReadyQueue := by
  obtain ⟨flag, hflag⟩ := isSuspended_iff.mp hsusp
  have hready : (s.stat thread).code ≠ .ready := by simp [hflag]
  refine ⟨(h.queue.listRemove hready).rejoin hready ?_, h.current⟩
  intro _ _
  exact (h.masks_of_suspended hsusp).congr rfl rfl rfl rfl

/-- A suspended thread is unlinked and enters a wait list. -/
theorem ReadyQueue.relink {head : ListHead} (h : s.ReadyQueue) (hwait : head.isWait)
    (hsusp : s.isSuspended thread) (flag : IpcFlag) :
    ((s.listRemove thread).rtSuspListEnqueue head thread flag).ReadyQueue := by
  obtain ⟨code, hcode⟩ := isSuspended_iff.mp hsusp
  constructor
  · exact (h.queue.listRemove (by simp [hcode])).rtSuspListEnqueue hwait hsusp
      ((h.masks_of_suspended hsusp).congr rfl rfl rfl rfl) flag
  · obtain ⟨list, -, heq⟩ := rtSuspListEnqueue_eq (s.listRemove thread) head thread flag
    rw [heq]
    exact h.current

/-- What `rt_thread_suspend_to_list` does. A current thread that is not suspended runs and is
linked nowhere, so nothing is removed from the queue. -/
theorem ReadyQueue.rtThreadSuspendToList_eq {ok : Bool} {head : Option ListHead}
    {flag : IpcFlag} {suspendFlag : SuspendFlag} (h : s.ReadyQueue)
    (heq : s.rtThreadSuspendToList thread head flag suspendFlag = some (s', ok)) :
    s.current = some thread ∧ ((s' = s ∧ ok = false ∧ (s.stat thread).code ≠ .running) ∨
        (ok = true ∧ (s.stat thread).code = .running ∧ s' = ((match head with
            | some head =>
              (s.setCode thread (.suspend suspendFlag)).rtSuspListEnqueue head thread flag
            | none => s.setCode thread (.suspend suspendFlag)).rtSchedThreadTimerStop thread).1)) := by
  obtain ⟨hcur, heq⟩ := ite_none_right_eq_some.mp heq
  refine ⟨hcur, ?_⟩
  have hready := h.current thread hcur
  split at heq
  next hcode =>
    have hrunning := hcode.resolve_left hready
    rw [h.queue.rtSchedRemoveThread_of_not_linked (h.queue.masks_of_code (.inl hrunning))
      (h.queue.not_linked (.inl hrunning))] at heq
    simp only [some.injEq, Prod.mk.injEq] at heq
    exact .inr ⟨heq.2.symm, hrunning, heq.1.symm⟩
  next hcode =>
    simp only [some.injEq, Prod.mk.injEq] at heq
    exact .inl ⟨heq.1.symm, heq.2.symm, fun hrunning => hcode (.inr hrunning)⟩

/-- `rt_thread_suspend_to_list` keeps the queue. -/
theorem ReadyQueue.rtThreadSuspendToList {ok : Bool} {head : Option ListHead}
    {flag : IpcFlag} {suspendFlag : SuspendFlag} (h : s.ReadyQueue)
    (hhead : ∀ head', head = some head' → head'.isWait)
    (heq : s.rtThreadSuspendToList thread head flag suspendFlag = some (s', ok)) : s'.ReadyQueue := by
  obtain ⟨hcur, ⟨rfl, -⟩ | ⟨-, hcode, rfl⟩⟩ := h.rtThreadSuspendToList_eq heq
  · exact h
  · apply ReadyQueue.rtSchedThreadTimerStop
    have hmasks := h.queue.masks_of_code (.inl hcode)
    have hout : (s.setCode thread (.suspend suspendFlag)).QueueWithout (some thread) :=
      (h.queue.takeOut (h.queue.not_linked (.inl hcode))).setStat _
    have hsusp : (s.setCode thread (.suspend suspendFlag)).isSuspended thread := by
      simp [isSuspended_iff, setCode]
    have hcurrent : ∀ t, s.current = some t →
        ((s.setCode thread (.suspend suspendFlag)).stat t).code ≠ .ready := by
      intro t ht
      obtain rfl : thread = t := mem_unique hcur ht
      simp [setCode]
    cases head with
    | none =>
      refine ⟨hout.rejoin (by simp [setCode]) ?_, hcurrent⟩
      intro _ _
      exact hmasks.congr rfl rfl rfl rfl
    | some head =>
      have henqueue := hout.rtSuspListEnqueue (hhead head rfl) hsusp (hmasks.congr rfl rfl rfl rfl) flag
      refine ⟨henqueue, ?_⟩
      dsimp only
      obtain ⟨list, -, heq⟩ := rtSuspListEnqueue_eq (s.setCode thread (.suspend suspendFlag))
        head thread flag
      rw [heq]
      exact hcurrent

/-- Changing the priority and the masks of a thread that is in no ready list. -/
theorem QueueWithout.setPriority {out : Option T} {priority : ℕ} (h : s.QueueWithout out)
    (hready : out = some thread ∨ (s.stat thread).code ≠ .ready) (hprio : priority < s.priorityMax) :
    ((s.setCurrentPriority thread priority).setMasks thread).QueueWithout out := by
  have hself : (s.setCurrentPriority thread priority).currentPriority thread = priority :=
    update_self ..
  have hother : ∀ {t : T}, t ≠ thread →
      (s.setCurrentPriority thread priority).currentPriority t = s.currentPriority t :=
    fun ht => update_of_ne ht ..
  have hmasks : ((s.setCurrentPriority thread priority).setMasks thread).MasksFor thread priority := by
    have hset := masksFor_setMasks (s.setCurrentPriority thread priority) thread
    rwa [hself] at hset
  rw [setMasks_eq] at hmasks ⊢
  refine ⟨⟨h.size, ?_, ?_, h.nodup, ?_, h.wait, h.defunct, h.unique⟩,
    h.bitmap.congr rfl rfl rfl (fun _ => Iff.rfl)⟩
  · intro t
    by_cases ht : t = thread
    · rw [ht]
      exact lt_of_eq_of_lt hself hprio
    · exact lt_of_eq_of_lt (hother ht) (h.priority t)
  · intro t hout hinit hclose
    by_cases ht : t = thread
    · rw [ht]
      exact hself.symm ▸ hmasks
    · have hold : (s.setCurrentPriority thread priority).MasksFor t (s.currentPriority t) :=
        (h.masks t hout hinit hclose).congr rfl rfl rfl rfl
      have hnew := hold.setMasks ht
      rw [setMasks_eq] at hnew
      exact (hother ht).symm ▸ hnew
  · intro t p
    refine (h.ready t p).trans ?_
    by_cases ht : t = thread
    · subst ht
      rcases hready with hout | hcode
      · simp [hout]
      · simp only [hcode, false_and, and_false, false_iff, not_and]
        intro _ hcode'
        exact absurd hcode' hcode
    · have hsame := hother ht
      rw [hsame]
      exact Iff.rfl

section

variable (h : s.ReadyQueue)
include h

/-- `rt_sched_thread_change_priority` keeps the queue. -/
theorem ReadyQueue.rtSchedThreadChangePriority {priority : ℕ}
    (heq : s.rtSchedThreadChangePriority thread priority = some s') : s'.ReadyQueue := by
  obtain ⟨hprio, heq⟩ := ite_none_right_eq_some.mp heq
  split at heq
  next hready =>
    have hmasks := h.queue.masks_of_code (.inr hready)
    have hremove := h.queue.rtSchedRemoveThread hmasks
    have hmax : priority < (s.rtSchedRemoveThread thread).priorityMax := by
      rw [rtSchedRemoveThread_eq]
      exact hprio
    have hset := (hremove.setPriority (.inl rfl) hmax).setStat ⟨.init, false, 0⟩
    cases heq
    apply hset.insert
    · have hnew := masksFor_setMasks
        ((s.rtSchedRemoveThread thread).setCurrentPriority thread priority) thread
      rw [← setMasks_currentPriority] at hnew
      exact hnew.congr rfl rfl rfl rfl
    · intro t hne ht
      rw [setStat_of_ne _ hne]
      rw [setMasks_eq, rtSchedRemoveThread_eq] at ht ⊢
      exact h.current t ht
  next hready =>
    cases heq
    refine ⟨h.queue.setPriority (.inr hready) hprio, ?_⟩
    rw [setMasks_eq]
    exact h.current

/-- Changing the bits of `stat` outside the code keeps the queue. -/
theorem ReadyQueue.setStat
    (hcode : stat.code = (s.stat thread).code) : (s.setStat thread stat).ReadyQueue :=
  h.congr (queueView_setStat hcode) rfl

/-- `rt_sched_thread_yield` keeps the queue. -/
theorem ReadyQueue.rtSchedThreadYield (thread : T) : (s.rtSchedThreadYield thread).ReadyQueue := by
  have hticks : ({ s with
      remainingTick := update s.remainingTick thread (s.initTick thread) }).ReadyQueue :=
    h.congr rfl rfl
  exact hticks.setStat rfl

theorem ReadyQueue.rtThreadYield (thread : T) : (s.rtThreadYield thread).ReadyQueue :=
  (h.rtSchedThreadYield thread).rtSchedUnlockNResched

/-- `rt_sched_tick_increase` keeps the queue. -/
theorem ReadyQueue.rtSchedTickIncrease (thread : T) : (s.rtSchedTickIncrease thread).ReadyQueue := by
  have hticks : ∀ left, ({ s with
      remainingTick := update s.remainingTick thread left }).ReadyQueue :=
    fun _ => h.congr rfl rfl
  unfold Sched.rtSchedTickIncrease
  dsimp only
  split
  · exact hticks _
  · exact ((hticks _).rtSchedThreadYield thread).rtSchedUnlockNResched

/-- Writing the status of a thread that is linked nowhere. -/
theorem ReadyQueue.setStat_of_not_linked
    (hlink : ∀ head, thread ∉ s.lists head) (hready : stat.code ≠ .ready)
    (hmasks : stat.code ≠ .init → stat.code ≠ .close →
      s.MasksFor thread (s.currentPriority thread)) : (s.setStat thread stat).ReadyQueue := by
  constructor
  · apply ((h.queue.takeOut hlink).setStat stat).rejoin
    · simpa using hready
    · rw [setStat_self]
      intro hinit hclose
      exact (hmasks hinit hclose).congr rfl rfl rfl rfl
  · intro t ht
    by_cases hsame : t = thread
    · rw [hsame, setStat_self]
      exact hready
    · rw [setStat_of_ne _ hsame]
      exact h.current t ht

/-- `rt_sched_thread_startup` keeps the queue. -/
theorem ReadyQueue.rtSchedThreadStartup (hinit : (s.stat thread).code = .init) :
    (s.rtSchedThreadStartup thread).ReadyQueue := by
  have hmasks : (s.setMasks thread).ReadyQueue := by
    have hready : (s.stat thread).code ≠ .ready := by simp [hinit]
    have hset := h.queue.setPriority (.inr hready) (h.queue.priority thread)
    rw [setCurrentPriority, update_eq_self] at hset
    refine ⟨hset, ?_⟩
    rw [setMasks_eq]
    exact h.current
  apply hmasks.setStat_of_not_linked
  · intro head
    rw [setMasks_eq]
    exact h.queue.not_linked (.inr hinit) head
  · simp
  · intro _ _
    rw [setMasks_currentPriority]
    exact masksFor_setMasks s thread

theorem ReadyQueue.rtThreadStartup (heq : s.rtThreadStartup thread = some s') : s'.ReadyQueue := by
  unfold Sched.rtThreadStartup at heq
  split_ifs at heq with hinit
  cases heq
  exact (h.rtSchedThreadStartup hinit).rtThreadResume thread

theorem ReadyQueue.timerDue (heq : s.timerDue thread = some s') : s'.ReadyQueue := by
  unfold Sched.timerDue at heq
  split_ifs at heq
  cases heq
  exact h.congr rfl rfl

/-- The timer function has been called. -/
theorem ReadyQueue.timerFired (thread : T) :
    ({ s with timerFiring := update s.timerFiring thread false }).ReadyQueue :=
  h.congr rfl rfl

theorem ReadyQueue.threadTimeout (heq : s.threadTimeout thread = some s') : s'.ReadyQueue := by
  unfold Sched.threadTimeout at heq
  split_ifs at heq
  dsimp only at heq
  split_ifs at heq with hsusp
  cases heq
  exact ((h.timerFired thread).wake hsusp).rtSchedUnlockNResched

/-- Detaching a thread's timer keeps the queue. -/
theorem ReadyQueue.rtTimerDetach (thread : T) : (s.rtTimerDetach thread).ReadyQueue :=
  h.congr rfl rfl

/-- Removing a thread and closing it. -/
theorem ReadyQueue.removeClose (hmasks : s.MasksFor thread (s.currentPriority thread)) :
    (((s.rtSchedRemoveThread thread).rtTimerDetach thread).rtSchedThreadClose thread).ReadyQueue := by
  have hremove := h.queue.rtSchedRemoveThread hmasks
  have hdetach : ((s.rtSchedRemoveThread thread).rtTimerDetach thread).QueueWithout (some thread) :=
    hremove.congr rfl
  constructor
  · apply (hdetach.setStat _).rejoin
    · simp
    · rw [setStat_self]
      intro _ hne
      exact absurd rfl hne
  · intro t ht
    by_cases hsame : t = thread
    · rw [hsame, rtSchedThreadClose]
      simp
    · rw [rtSchedThreadClose, setStat_of_ne _ hsame]
      rw [rtSchedRemoveThread_eq] at ht ⊢
      exact h.current t ht

/-- The section of `_thread_detach` under the scheduler lock keeps the queue. -/
theorem ReadyQueue.threadDetachSched (thread : T) : (s.threadDetachSched thread).1.ReadyQueue := by
  unfold Sched.threadDetachSched
  split
  · exact h
  next hclose =>
    split
    next hinit =>
      apply (h.rtTimerDetach thread).setStat_of_not_linked
      · exact h.queue.not_linked (.inr hinit)
      · simp
      · intro _ hne
        exact absurd rfl hne
    next hinit =>
      exact h.removeClose (h.queue.masks thread (by simp) hinit hclose)

/-- `rt_thread_defunct_enqueue` keeps the queue, for a closed thread that is linked nowhere. -/
theorem ReadyQueue.rtThreadDefunctEnqueue
    (hclose : (s.stat thread).code = .close) (hlink : ∀ head, thread ∉ s.lists head) :
    (s.rtThreadDefunctEnqueue thread).ReadyQueue := by
  refine ⟨?_, h.current⟩
  apply (h.queue.takeOut hlink).link
  · simp
  · exact hclose
  · intro _ hne
    exact absurd hclose hne
  · exact List.Perm.refl _

/-- The section of `_thread_detach` that closes a thread leaves it linked nowhere. -/
theorem ReadyQueue.threadDetachSched_closed (hclosed : (s.threadDetachSched thread).2 = true) :
    ((s.threadDetachSched thread).1.stat thread).code = .close ∧
      ∀ head, thread ∉ (s.threadDetachSched thread).1.lists head := by
  unfold Sched.threadDetachSched at hclosed ⊢
  split at hclosed
  · simp at hclosed
  next hclose =>
    rw [if_neg hclose]
    dsimp only
    refine ⟨by rw [rtSchedThreadClose, setStat_self], ?_⟩
    split
    next hinit =>
      exact h.queue.not_linked (.inr hinit)
    · intro head hmem
      rw [rtSchedRemoveThread_eq] at hmem
      exact (mem_listRemove.mp hmem).2 rfl

/-- `_thread_detach`, up to the end of its critical section, keeps the queue. -/
theorem ReadyQueue.detachClose (thread : T) : (if (s.rtEnterCritical.threadDetachSched thread).2 then
      (s.rtEnterCritical.threadDetachSched thread).1.rtThreadDefunctEnqueue thread
    else (s.rtEnterCritical.threadDetachSched thread).1).ReadyQueue := by
  have hdetach := h.rtEnterCritical.threadDetachSched thread
  split
  next hclosed =>
    obtain ⟨hclose, hlink⟩ := h.rtEnterCritical.threadDetachSched_closed hclosed
    exact hdetach.rtThreadDefunctEnqueue hclose hlink
  · exact hdetach

/-- `_thread_exit`, up to the end of its critical section, keeps the queue. -/
theorem ReadyQueue.exitClose (hcode : (s.stat thread).code = .running) :
    ((((s.rtEnterCritical.rtSchedRemoveThread thread).rtTimerDetach thread).rtSchedThreadClose
      thread).rtThreadDefunctEnqueue thread).ReadyQueue := by
  have henter := h.rtEnterCritical
  have hclose := henter.removeClose (henter.queue.masks_of_code (.inl hcode))
  have hlink : ∀ head, thread ∉ (((s.rtEnterCritical.rtSchedRemoveThread thread).rtTimerDetach
      thread).rtSchedThreadClose thread).lists head := by
    intro head hmem
    rw [rtSchedRemoveThread_eq] at hmem
    exact (mem_listRemove.mp hmem).2 rfl
  exact hclose.rtThreadDefunctEnqueue (by rw [rtSchedThreadClose, setStat_self]) hlink

/-- `rt_system_scheduler_start` keeps the queue. -/
theorem ReadyQueue.rtSystemSchedulerStart (heq : s.rtSystemSchedulerStart = some s') : s'.ReadyQueue := by
  unfold Sched.rtSystemSchedulerStart at heq
  split at heq
  next best hfind =>
    cases heq
    have hready : (s.stat best).code = .ready :=
      ((h.queue.ready best _).mp (List.mem_of_mem_head? hfind)).2.1
    have hstart : ({ s with current := some best }).QueueWithout none :=
      h.queue.congr rfl
    refine ⟨hstart.removeSetStat (hstart.masks_of_code (.inr hready)) (by simp), ?_⟩
    intro t ht
    rw [rtSchedRemoveThread_eq] at ht
    cases ht
    simp
  · simp at heq

end

/-- The queue invariant after `rt_system_scheduler_init`. -/
theorem readyQueue_boot {T : Type*} {priorityMax : ℕ} {priority : T → ℕ} (tick : T → ℕ)
    (hmax : priorityMax ≤ 256) (hprio : ∀ t, priority t < priorityMax) :
    (boot priorityMax priority tick).ReadyQueue := by
  refine ⟨⟨⟨hmax, hprio, ?_, ?_, ?_, ?_, ?_, ?_⟩, ⟨?_, ?_⟩⟩, ?_⟩ <;> simp [boot, readyBit]

end RtThread.Kernel.Sched
