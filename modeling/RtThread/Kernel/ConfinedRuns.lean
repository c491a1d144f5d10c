import RtThread.Kernel.IpcSteps
import RtThread.Kernel.Sections

/-!
# What an event leaves alone

Every event of the kernel leaves the objects alone that it does not work on, and the scheduler calm.
Nearly every call that makes a thread ready or changes a priority ends with `rt_schedule`. The exceptions
are `rt_thread_control(RT_THREAD_CTRL_CHANGE_PRIORITY)`, `rt_sem_detach` and `rt_event_detach`.
-/

namespace RtThread.Kernel.State

open Lib Function Option Sched
open State.Frame (refl)

variable {T : Type*} [DecidableEq T] {k k' : State T} {t : T} {mover : Option T} {strict ok : Prop}
variable {e : KernelEvent T} {list : List T}
variable {fuel id : ℕ} {head : ListHead} {needSchedule : Bool} {ret : Option ℤ} {s : Sched T}
  {suspendFlag : SuspendFlag} {timeout : ℤ} {touched : List (Object T)}

/-! ## Calls that wait -/

/-- A wake-up, with the `rt_schedule` after it. -/
theorem Calm.wakeFirst (h : k.Calm strict) (head : ListHead) : (k.wakeFirst head).Calm strict := by
  unfold State.wakeFirst
  split
  · exact h
  · have hwakes : Wakes (fun _ => True) k.toSched (k.rtSuspListDequeue head rtEok).1.toSched :=
      wakes_rtSuspListDequeue h.queue fun _ _ => trivial
    obtain ⟨s, error, hframe⟩ := rtSuspListDequeue_frame k head rtEok
    rw [hframe] at hwakes ⊢
    have hsound : Sound 0 none { k with toSched := s, error := error } :=
      (h.toSound.wakes hwakes).congr rfl rfl
    exact hsound.rtSchedule

/-- A suspension, with the `rt_schedule` after it. -/
theorem Calm.blockOn {flag : IpcFlag} {pc : Pc} (h : k.Calm strict) (hwait : head.isWait)
    (hinfo : ∀ id, head = .event id → (k.eventInfo t).and = true ∨ (k.eventInfo t).or = true)
    (heq : k.blockOn t head flag suspendFlag timeout pc = some (k', ret)) : k'.Calm strict := by
  obtain ⟨⟨s, ok⟩, hs, heq⟩ := map_eq_some_iff.mp heq
  cases ok with
  | false =>
    cases heq
    obtain ⟨-, ⟨rfl, -⟩ | ⟨hfalse, -⟩⟩ := h.queue.rtThreadSuspendToList_eq hs
    · exact ⟨h.toSound.congr rfl rfl, h.highest⟩
    · cases hfalse
  | true =>
    cases heq
    have hsound := (h.toSound.suspend hwait hs hinfo).startTimerIf t timeout
    have hpc : Sound 0 none ((({ k with toSched := s }).startTimerIf t timeout).setPc t pc) :=
      hsound.congr rfl rfl
    exact hpc.rtSchedule

/-- An object changes, and the running thread may go to another place. -/
theorem OwnStep.calm (hstep : OwnStep k k') (h : k.Calm strict) : k'.Calm strict := by
  refine ⟨⟨?_, ?_, ?_, by simp⟩, ?_⟩
  · rw [hstep.sched]
    exact h.queue
  · rw [hstep.sched]
    exact h.lock
  · intro id t ht
    rw [hstep.sched] at ht
    have hsusp : k.isSuspended t = true := by
      exact (h.queue.queue.wait t (.event id) rfl ht).2
    rw [hstep.eventInfo t fun hrunning => by simp [isSuspended, hrunning] at hsusp]
    exact h.waiters id t ht
  · rw [hstep.sched]
    exact h.highest

/-- The calls on semaphores, mailboxes and queues and the receive of events. -/
theorem IpcStep.calm {wakes : Option ListHead} (hstep : IpcStep k wakes k') (h : k.Calm strict) :
    k'.Calm strict := by
  cases hstep with
  | own hown => exact hown.calm h
  | wake hown _ _ => exact (hown.calm h).wakeFirst _
  | block heq hown _ hwait _ _ hinfo => exact (hown.calm h).blockOn hwait hinfo heq

/-! ## Event sets and resets -/

/-- The loop of `rt_event_send`. -/
theorem Frame.eventSendLoop {set : BitVec 32} {needClear : BitVec 32}
    {needSchedule : Bool} (h : Frame touched mover k k') (hmem : .event id ∈ touched) :
    Frame touched mover k (eventSendLoop set list k' needClear needSchedule).1 := by
  induction list generalizing k' needClear needSchedule with
  | nil => exact h
  | cons thread rest ih =>
    rw [eventSendLoop_cons]
    dsimp only
    split
    · split
      · exact ih (h.setWaits hmem rfl rfl (frame_rtSchedThreadReady _ thread))
      · exact ih h
    · exact h

theorem frame_rtEventSend (k : State T) (id : ℕ) (set : BitVec 32) :
    Frame [.event id] mover k (k.rtEventSend id set).1 := by
  unfold rtEventSend
  split
  · exact .refl k
  · dsimp only
    have hloop : Frame [.event id] mover k (eventSendLoop ((k.event id).set ||| set)
        (k.lists (.event id)) (k.setEvent id
          { k.event id with set := (k.event id).set ||| set }) 0 false).1 :=
      Frame.eventSendLoop (.setEvent (.refl k) (.head _) rfl) (.head _)
    split
    · split
      · exact (hloop.setEvent (.head _) (by rfl)).onSched (frame_rtSchedule _)
      · exact hloop.setEvent (.head _) rfl
    · exact hloop

/-- When no thread is to be scheduled, the loop of `rt_event_send` has woken none. -/
theorem eventSendLoop_quiet {set : BitVec 32} {needClear : BitVec 32}
    (hquiet : (eventSendLoop set list k needClear needSchedule).2.2.1 = false) :
    (eventSendLoop set list k needClear needSchedule).1 = k ∧ needSchedule = false := by
  induction list generalizing k needClear needSchedule with
  | nil => exact ⟨rfl, hquiet⟩
  | cons t rest ih =>
    rw [eventSendLoop_cons] at hquiet ⊢
    dsimp only at hquiet ⊢
    split at hquiet
    next hflags =>
      rw [if_pos hflags]
      split at hquiet
      · exact absurd (ih hquiet).2 (by simp)
      next hnot =>
        rw [if_neg hnot]
        exact ih hquiet
    next hflags =>
      rw [if_neg hflags]
      exact ⟨rfl, hquiet⟩

/-- The loop of `rt_event_send` ends regularly when every thread waits for all or for one event. -/
theorem eventSendLoop_ok {set : BitVec 32} {needClear : BitVec 32}
    (hinfo : ∀ t ∈ list, (k.eventInfo t).and = true ∨ (k.eventInfo t).or = true) :
    (eventSendLoop set list k needClear needSchedule).2.2.2 = true := by
  induction list generalizing k needClear needSchedule with
  | nil => rfl
  | cons t rest ih =>
    have hrest : ∀ u ∈ rest, (k.eventInfo u).and = true ∨ (k.eventInfo u).or = true :=
      fun u hu => hinfo u (List.mem_cons_of_mem t hu)
    rw [eventSendLoop_cons]
    rw [if_pos (hinfo t List.mem_cons_self)]
    split
    · exact ih hrest
    · exact ih hrest

theorem Calm.rtEventSend (h : k.Calm strict) (id : ℕ) (set : BitVec 32) :
    (k.rtEventSend id set).1.Calm strict := by
  unfold State.rtEventSend
  split
  · exact h
  · have hset : (k.setEvent id { k.event id with set := (k.event id).set ||| set }).Calm strict :=
      ⟨h.toSound.congr rfl rfl, h.highest⟩
    dsimp only
    generalize k.setEvent id { k.event id with set := (k.event id).set ||| set } = k1 at hset ⊢
    generalize (k.event id).set ||| set = sent
    have hwakes : Wakes (fun _ => True) k1.toSched
          (eventSendLoop sent (k1.lists (.event id)) k1 0 false).1.toSched ∧
        ∃ s error eventSet, (eventSendLoop sent (k1.lists (.event id)) k1 0 false).1 =
          { k1 with toSched := s, error := error, eventSet := eventSet } :=
      wakes_eventSendLoop hset.queue fun _ _ => trivial
    have hquiet : (eventSendLoop sent (k1.lists (.event id)) k1 0 false).2.2.1 = false →
        (eventSendLoop sent (k1.lists (.event id)) k1 0 false).1 = k1 :=
      fun hfalse => (eventSendLoop_quiet hfalse).1
    have hok : (eventSendLoop sent (k1.lists (.event id)) k1 0 false).2.2.2 = true := by
      refine eventSendLoop_ok fun t ht => hset.waiters id t ?_
      exact ht
    generalize hloop : eventSendLoop sent (k1.lists (.event id)) k1 0 false = r at hwakes hquiet hok ⊢
    obtain ⟨k2, needClear, needSchedule, ok⟩ := r
    obtain ⟨hwakes, s, error, eventSet, hframe⟩ := hwakes
    dsimp only at hwakes hframe hquiet hok ⊢
    rw [if_pos hok]
    split
    · have hsound : Sound 0 none (k2.setEvent id
          { k2.event id with set := (k2.event id).set &&& ~~~ needClear }) := by
        rw [hframe] at hwakes ⊢
        exact (hset.toSound.wakes hwakes).congr rfl rfl
      exact hsound.rtSchedule
    next hnone =>
      rw [hquiet (Bool.eq_false_of_not_eq_true hnone)]
      exact ⟨hset.toSound.congr rfl rfl, hset.highest⟩

theorem Sound.rtSuspListResumeAll (h : Sound n dying k) (hwait : head.isWait)
    (threadError : ℤ) : Sound n dying (k.rtSuspListResumeAll head threadError) := by
  obtain ⟨hwakes, s, error, hframe⟩ := wakes_rtSuspListResumeAll threadError hwait h.queue
  rw [hframe] at hwakes ⊢
  exact (h.wakes hwakes).congr rfl rfl

/-- `rt_schedule` at the end of a function. -/
theorem Tame.rtSchedule (hframe : Frame touched mover k k') (hsound : Sound 0 none k → Sound 0 none k') :
    Tame touched mover ok k (k'.onSched (·.rtSchedule)) :=
  ⟨hframe.onSched (frame_rtSchedule _), fun _ hk => (hsound hk.toSound).rtSchedule⟩

/-- `rt_event_control` with `RT_IPC_CMD_RESET`. -/
theorem rtEventReset_tame (k : State T) (id : ℕ) : Tame [.event id] mover ok k (k.rtEventReset id).1 := by
  refine Tame.rtSchedule ?_ fun hk =>
    (hk.rtSuspListResumeAll (rfl : (ListHead.event id).isWait) rtError).congr rfl rfl
  exact ((refl k).rtSuspListResumeAll _ _).setEvent (.head _) (by rfl)

/-- `rt_mb_control` with `RT_IPC_CMD_RESET`. -/
theorem rtMbReset_tame (k : State T) (id : ℕ) : Tame [.mailbox id] mover ok k (k.rtMbReset id).1 := by
  refine Tame.rtSchedule ?_ fun hk => ((hk.rtSuspListResumeAll (rfl : (ListHead.mbRecv id).isWait)
    rtError).rtSuspListResumeAll (rfl : (ListHead.mbSend id).isWait) rtError).congr rfl rfl
  exact (((refl k).rtSuspListResumeAll _ _).rtSuspListResumeAll _ _).setMailbox (.head _) (by rfl)

/-- `rt_mq_control` with `RT_IPC_CMD_RESET`. -/
theorem rtMqReset_tame {r : State T × ℤ} (heq : k.rtMqReset id = some r) :
    Tame [.messageQueue id] mover ok k r.1 := by
  obtain ⟨mq, hmq, rfl⟩ := map_eq_some_iff.mp heq
  refine Tame.rtSchedule ?_ fun hk => ((hk.rtSuspListResumeAll (rfl : (ListHead.mqRecv id).isWait)
    rtError).rtSuspListResumeAll (rfl : (ListHead.mqSend id).isWait) rtError).congr rfl rfl
  have hflag := MessageQueue.releaseAll_flag hmq
  exact (((refl k).rtSuspListResumeAll _ _).rtSuspListResumeAll _ _).setMq (.head _) hflag

/-! ## Threads and time -/

omit [DecidableEq T] in
/-- The status and the timers of threads change, but no thread becomes ready and none runs. -/
theorem Calm.sched (h : k.Calm strict) (hqueue : s.ReadyQueue) (hlock : s.lockNest = k.lockNest)
    (hwaiting : ∀ head t, t ∈ s.waits.waiting head → t ∈ k.waits.waiting head)
    (hcurrent : s.current = k.current) (hprio : s.currentPriority = k.currentPriority)
    (hrunning : ∀ t, (s.stat t).code = .running → (k.stat t).code = .running)
    (hready : ∀ t, (s.stat t).code = .ready → (k.stat t).code = .ready) :
    ({ k with toSched := s }).Calm strict := by
  refine ⟨⟨hqueue, hlock.trans h.lock, fun id t ht => h.waiters id t (hwaiting _ t ht), by simp⟩, ?_⟩
  intro hstrict cur hcur hcode t ht
  rw [hprio]
  exact h.highest hstrict cur (hcurrent.symm.trans hcur) (hrunning cur hcode) t (hready t ht)

theorem Calm.rtThreadResume (h : k.Calm strict) (t : T) :
    ({ k with toSched := (k.rtThreadResume t).1 }).Calm strict := by
  unfold Sched.rtThreadResume
  dsimp only
  split
  · have hwakes : Wakes (fun _ => True) k.toSched (k.rtSchedThreadReady t).1 :=
      h.queue.wakes_rtSchedThreadReady fun _ => trivial
    exact (h.toSound.wakes hwakes).rtSchedUnlockNResched
  next hfail =>
    have hwakes : Wakes (fun _ => False) k.toSched (k.rtSchedThreadReady t).1 :=
      h.queue.wakes_rtSchedThreadReady fun hok => hfail hok
    have hcode : ∀ u, ((k.rtSchedThreadReady t).1.stat u).code = (k.stat u).code := fun u =>
      (hwakes.code u).resolve_right fun hfalse => hfalse.1
    refine h.sched hwakes.queue hwakes.lockNest hwakes.waiting hwakes.current hwakes.priority ?_ ?_
    · exact fun u hu => (hcode u).symm.trans hu
    · exact fun u hu => (hcode u).symm.trans hu

theorem Calm.rtThreadStartup (h : k.Calm strict) (heq : k.rtThreadStartup t = some s) :
    ({ k with toSched := s }).Calm strict := by
  unfold Sched.rtThreadStartup at heq
  split_ifs at heq with hinit
  cases heq
  have hstart : ({ k with toSched := k.rtSchedThreadStartup t }).Calm strict := by
    have hother : ∀ u code, code ≠ .suspend .interruptible →
        ((k.rtSchedThreadStartup t).stat u).code = code → (k.stat u).code = code := by
      intro u code hne hu
      by_cases hut : u = t
      · rw [hut, rtSchedThreadStartup, setStat_self] at hu
        exact absurd hu.symm hne
      · rw [rtSchedThreadStartup, setStat_of_ne _ hut, setMasks_eq] at hu
        exact hu
    refine h.sched (h.queue.rtSchedThreadStartup hinit) ?_ (fun head u hu => ?_) ?_ ?_
      (fun u hu => hother u .running (by simp) hu) fun u hu => hother u .ready (by simp) hu
    case refine_2 =>
      rw [rtSchedThreadStartup, waits_setStat_of_started (by simp), waits_setMasks] at hu
      exact hu
    all_goals
      rw [rtSchedThreadStartup, setMasks_eq]
      rfl
  exact hstart.rtThreadResume t

omit [DecidableEq T] in
/-- The tick counter is not looked at. -/
theorem Tame.setTick (h : Tame touched mover ok k k') (tick : ℕ) :
    Tame touched mover ok k { k' with tick := tick } :=
  ⟨h.frame.write rfl rfl rfl, fun hok hk => ⟨(h.calm hok hk).toSound.congr rfl rfl, (h.calm hok hk).highest⟩⟩

/-- A yield, with the reschedule after it. -/
theorem Sound.rtThreadYield (h : Sound 0 none k) (t : T) :
    (k.onSched (·.rtThreadYield t)).Calm strict := by
  have hyield : Sound 0 none (k.onSched (·.rtSchedThreadYield t)) :=
    h.unseen (h.queue.rtSchedThreadYield t) rfl (waits_rtSchedThreadYield k.toSched t)
  exact hyield.rtSchedUnlockNResched

/-- A tick. -/
theorem Calm.rtSchedTickIncrease (h : k.Calm strict) (t : T) :
    (k.onSched (·.rtSchedTickIncrease t)).Calm strict := by
  have hticks : ∀ left, ({ k with toSched := { k.toSched with
      remainingTick := update k.remainingTick t left } }).Calm strict := fun left =>
    h.sched (h.queue.congr rfl rfl) rfl
      (fun _ _ hu => hu) rfl rfl (fun _ hu => hu) (fun _ hu => hu)
  have hcases : ∃ left, k.toSched.rtSchedTickIncrease t = { k.toSched with
        remainingTick := update k.remainingTick t left } ∨
      k.toSched.rtSchedTickIncrease t = ({ k.toSched with
        remainingTick := update k.remainingTick t left }).rtThreadYield t := by
    unfold Sched.rtSchedTickIncrease
    dsimp only
    split
    · exact ⟨_, .inl rfl⟩
    · exact ⟨_, .inr rfl⟩
  unfold onSched
  dsimp only
  obtain ⟨left, heq | heq⟩ := hcases
  · rw [heq]
    exact hticks left
  · rw [heq]
    exact (hticks left).toSound.rtThreadYield t

/-- A timer that is due. -/
theorem Calm.timerDue (h : k.Calm strict) (heq : k.timerDue t = some s) :
    ({ k with toSched := s }).Calm strict := by
  have hqueue := h.queue.timerDue heq
  unfold Sched.timerDue at heq
  split at heq
  · cases heq
    exact h.sched hqueue rfl (fun _ _ hu => hu) rfl rfl (fun _ hu => hu) (fun _ hu => hu)
  · cases heq

/-- A thread that times out. -/
theorem Calm.threadTimeout (h : k.Calm strict) (heq : k.threadTimeout t = some k') : k'.Calm strict := by
  obtain ⟨s, hs, rfl⟩ := map_eq_some_iff.mp heq
  unfold Sched.threadTimeout at hs
  split_ifs at hs
  dsimp only at hs
  split_ifs at hs with hsusp
  cases hs
  have hfired : ({ k with toSched := { k.toSched with
      timerFiring := update k.timerFiring t false } }).Calm strict :=
    h.sched (h.queue.congr rfl rfl) rfl
      (fun _ _ hu => hu) rfl rfl (fun _ hu => hu) (fun _ hu => hu)
  have hwakes := hfired.queue.wakes_wake (p := fun _ => True) hsusp trivial
  have hresched : Calm strict (State.onSched _ (·.rtSchedUnlockNResched)) :=
    (hfired.toSound.wakes hwakes).rtSchedUnlockNResched
  exact ⟨hresched.toSound.congr rfl rfl, hresched.highest⟩

theorem Calm.rtSystemSchedulerStart (h : k.Calm strict)
    (heq : k.rtSystemSchedulerStart = some s) : ({ k with toSched := s }).Calm strict := by
  have hqueue := h.queue.rtSystemSchedulerStart heq
  have hwaits := h.queue.waits_rtSystemSchedulerStart heq
  unfold Sched.rtSystemSchedulerStart at heq
  split at heq
  next best hfind =>
    cases heq
    have hmem := List.mem_of_mem_head? hfind
    have hready : (k.stat best).code = .ready := ((h.queue.queue.ready best _).mp hmem).2.1
    have hgroup : k.readyPriorityGroup ≠ 0 := by
      intro hzero
      exact h.queue.queue.group_eq_zero_iff.mp hzero best hready
    obtain ⟨best', hfind', -, hprio, hmin⟩ :=
      h.queue.queue.schedulerGetHighestPriorityThread hgroup
    obtain rfl : best = best' := mem_unique hfind hfind'
    refine ⟨h.toSound.unseen hqueue ?_ hwaits, ?_⟩
    · rw [rtSchedRemoveThread_eq]
      rfl
    · intro _ cur hcur _ t ht
      rw [rtSchedRemoveThread_eq] at hcur ht ⊢
      cases hcur
      change k.currentPriority best ≤ k.currentPriority t
      rw [hprio]
      refine hmin t ?_
      by_cases htb : t = best
      · rw [htb, setStat_self] at ht
        cases ht
      · rw [setStat_of_ne _ htb] at ht
        exact ht
  · cases heq

/-! ## The calls that do not reschedule -/

/-- The threads that `rt_sem_detach` or `rt_event_detach` wakes have no higher priority than the
running thread. -/
def DetachOk (k : State T) (head : ListHead) : Prop :=
  ∀ cur ∈ k.current, ∀ t ∈ k.lists head, k.currentPriority cur ≤ k.currentPriority t

/-- The change leaves the running thread at least as high as every ready thread. -/
def ChangePriorityOk (k : State T) (thread : T) (priority : ℕ) : Prop :=
  ∀ cur ∈ k.current,
    (thread = cur → ∀ t, (k.stat t).code = .ready → priority ≤ k.currentPriority t) ∧
    ((k.stat thread).code = .ready → k.currentPriority cur ≤ priority)

/-- The three calls that do not reschedule are made only when there is no need to. -/
def PreemptionOk (k : State T) : KernelEvent T → Prop
  | .call (.changePriority thread priority) => k.ChangePriorityOk thread priority
  | .call (.semDetach id) => k.DetachOk (.sem id)
  | .call (.eventDetach id) => k.DetachOk (.event id)
  | _ => True

/-- `rt_sem_detach` and `rt_event_detach`. -/
theorem Calm.resumeAll (h : k.Calm strict) (hwait : head.isWait) (threadError : ℤ)
    (hrunner : k.runner = some t) (hok : strict → k.DetachOk head) :
    (k.rtSuspListResumeAll head threadError).Calm strict := by
  have hwakes := (wakes_rtSuspListResumeAll threadError hwait h.queue).1
  obtain ⟨hcur, hrunning⟩ := runner_eq hrunner
  refine ⟨h.toSound.rtSuspListResumeAll hwait threadError, ?_⟩
  intro hstrict cur hcur' _ u hu
  rw [hwakes.current, hcur] at hcur'
  cases hcur'
  rw [hwakes.priority]
  rcases hwakes.code u with hsame | ⟨hmem, -, -⟩
  · exact h.highest hstrict t hcur hrunning u (hsame ▸ hu)
  · exact hok hstrict t hcur u hmem

/-- `rt_thread_control` with `RT_THREAD_CTRL_CHANGE_PRIORITY`. -/
theorem Calm.changePriority {u : T} {priority : ℕ} (h : k.Calm strict) (hrunner : k.runner = some t)
    (hok : strict → k.ChangePriorityOk u priority) (heq : k.changePriority u priority = some k') :
    k'.Calm strict := by
  have hstep := reprioritized_changePriority h.queue heq
  have hprio : k'.currentPriority = update k.currentPriority u priority := by
    obtain ⟨s, hs, rfl⟩ := map_eq_some_iff.mp heq
    exact rtSchedThreadChangePriority_currentPriority hs
  obtain ⟨hcur, hrunning⟩ := runner_eq hrunner
  refine ⟨h.toSound.reprioritized hstep, ?_⟩
  intro hstrict cur hcur' _ v hv
  rw [hstep.current, hcur] at hcur'
  cases hcur'
  rw [hstep.code] at hv
  have hvt : v ≠ t := by
    rintro rfl
    rw [hrunning] at hv
    cases hv
  obtain ⟨hself, hother⟩ := hok hstrict t hcur
  rw [hprio]
  by_cases hut : u = t
  · subst hut
    rw [update_self, update_of_ne hvt]
    exact hself rfl v hv
  · rw [update_of_ne (Ne.symm hut)]
    by_cases hvu : v = u
    · subst hvu
      rw [update_self]
      exact hother hv
    · rw [update_of_ne hvu]
      exact h.highest hstrict t hcur hrunning v hv

/-! ## Events -/

/-- A call of a thread that is not one on semaphores, mailboxes and queues. -/
theorem call_tame {c : Call T} (hrunner : k.runner = some t) (hcall : ipcEvent (.call c) = false)
    (heq : call fuel k c = some (k', ret)) :
    Tame (k.callTouches c) (some t) (k.PreemptionOk (.call c)) k k' := by
  have hcur := (runner_eq hrunner).1
  have hR : MutexSteps t _ (Locked [.mutexes] (some t) none) _ := mutexSteps_locked (.head _)
  cases c with
  | startup thread =>
    obtain ⟨s, hs, ⟨⟩⟩ := map_eq_some_iff.mp heq
    exact ⟨.quiet rfl rfl (frame_rtThreadStartup hs), fun _ h => h.rtThreadStartup hs⟩
  | resume thread =>
    cases heq
    exact ⟨.quiet rfl rfl (frame_rtThreadResume _ _), fun _ h => h.rtThreadResume thread⟩
  | yield =>
    obtain ⟨cur, -, ⟨⟩⟩ := map_eq_some_iff.mp heq
    exact ⟨.quiet rfl rfl (frame_rtThreadYield _ _), fun _ h => h.toSound.rtThreadYield cur⟩
  | changePriority thread priority =>
    obtain ⟨k1, hk1, ⟨⟩⟩ := map_eq_some_iff.mp heq
    exact ⟨(refl k).changePriority hk1, fun hok h => h.changePriority hrunner hok hk1⟩
  | mutexTake id timeout => exact .of_section (hR.rtMutexTake trivial hrunner heq)
  | mutexRelease id =>
    exact .of_section (hR.rtMutexRelease trivial hcur (fun _ _ => trivial) heq)
  | semDetach | eventDetach =>
    cases heq
    exact ⟨(refl k).rtSuspListResumeAll _ _, fun hok h => h.resumeAll rfl rtError hrunner hok⟩
  | eventSend id set =>
    cases heq
    exact ⟨frame_rtEventSend k id set, fun _ h => h.rtEventSend id set⟩
  | mutexSetprioceiling id priority =>
    obtain rfl | hsection := hR.rtMutexSetprioceiling trivial heq
    · exact ⟨.refl k', fun _ h => h⟩
    · exact .of_section hsection
  | eventReset id =>
    cases heq
    exact rtEventReset_tame k id
  | mbReset id =>
    cases heq
    exact rtMbReset_tame k id
  | mqReset id =>
    obtain ⟨r, hr, ⟨⟩⟩ := map_eq_some_iff.mp heq
    exact rtMqReset_tame hr
  | exit =>
    rw [callTouches, hcur]
    exact threadExit_tame hrunner heq
  | detach thread => exact threadDetach_tame heq
  | _ => cases hcall

/-- A thread goes on inside a mutex function. -/
theorem proceed_tame (hplace : (k.pc t).isIpc = false) (heq : proceed fuel k t = some (k', ret)) :
    Tame ((k.pc t).object T).toList (some t) ok k k' := by
  have hpc : ∀ {pc}, Sound 0 none k → Sound 0 none (k.setPc t pc) := fun hk => hk.congr rfl rfl
  unfold proceed at heq
  cases hat : k.pc t with
  | resched | mutexResched =>
    rw [hat] at heq
    cases heq
    exact .rtSchedule ((refl k).setPc (by simp [Pc.object])) hpc
  | mutexWoken id =>
    rw [hat] at heq
    exact .of_section ((mutexSteps_locked (.head _)).mutexTakeWoken trivial heq)
  | mutexClear ret' =>
    rw [hat] at heq
    cases heq
    have hclear : Frame [.mutexes] (some t) k (k.setPendingObject t none) :=
      (refl k).setMutexes (.head _) rfl rfl rfl
    exact ⟨hclear.setPc (by simp [Pc.object]), fun _ h => ⟨h.toSound.congr rfl rfl, h.highest⟩⟩
  | _ =>
    rw [hat] at hplace
    cases hplace

/-- What an event changes: a call of `ipc.c` that may block, or a function that lets no thread enter
the list of an object. -/
inductive Footprint (touched : List (Object T)) (mover : Option T) (k k' : State T) : Prop where
  | frame : Frame touched mover k k' → Footprint touched mover k k'
  | ipc {o : Object T} {wakes : Option ListHead} : touched = [o] → Ipc o mover k wakes k' →
      Footprint touched mover k k'

/-- The events but the arbitrary switches. -/
def scheduledEvent : KernelEvent T → Bool
  | .dispatch _ => false
  | _ => true

/-- What an event does: it has a footprint, and leaves the kernel calm. -/
structure Stepped (e : KernelEvent T) (k k' : State T) : Prop where
  foot : Footprint (k.touches e) (k.eventMover e) k k'
  calm : ∀ {strict : Prop}, (strict → scheduledEvent e = true ∧ k.PreemptionOk e) → k.Calm strict →
    k'.Calm strict

/-- A call of `ipc.c` that may block. -/
theorem Stepped.of_ipc {o : Object T} {wakes : Option ListHead} (ho : k.touches e = [o])
    (h : Ipc o (k.eventMover e) k wakes k') : Stepped e k k' :=
  ⟨.ipc ho h, fun _ hk => h.ipcStep.calm hk⟩

/-- Any other event. -/
theorem Stepped.of_tame
    (h : Tame (k.touches e) (k.eventMover e) (scheduledEvent e = true ∧ k.PreemptionOk e) k k') :
    Stepped e k k' :=
  ⟨.frame h.frame, h.calm⟩

/-- What an event does. -/
theorem exec_stepped (heq : exec fuel k e = some (k', ret)) : Stepped e k k' := by
  cases e with
  | call c =>
    cases hipc : ipcEvent (.call c) with
    | true =>
      obtain ⟨o, ho, hstep⟩ := exec_ipc (by simp) hipc heq
      exact .of_ipc ho hstep
    | false =>
      obtain ⟨t, hcaller, hcall⟩ := exec_call heq
      have hrunner := runner_of_caller hcaller
      have hcall := call_tame hrunner hipc hcall
      refine ⟨.frame ?_, fun hok => hcall.calm fun hstrict => (hok hstrict).2⟩
      rw [eventMover, hrunner]
      exact hcall.frame
  | proceed =>
    obtain ⟨t, hrunner, hgo⟩ := exec_proceed heq
    cases hplace : (k.pc t).isIpc with
    | true =>
      obtain ⟨o, ho, hstep⟩ := exec_ipc (fun _ u hu => by
        cases hu.symm.trans hrunner
        exact hplace) rfl heq
      exact .of_ipc ho hstep
    | false => exact .of_tame (by simpa [touches, eventMover, hrunner] using proceed_tame hplace hgo)
  | isr c =>
    cases hipc : ipcEvent (.isr c) with
    | true =>
      obtain ⟨o, ho, hstep⟩ := exec_ipc (by simp) hipc heq
      exact .of_ipc ho hstep
    | false =>
      have hcall := (exec_isr heq).1
      cases c with
      | startup thread =>
        obtain ⟨s, hs, rfl⟩ := map_eq_some_iff.mp hcall
        exact .of_tame ⟨.quiet rfl rfl (frame_rtThreadStartup hs), fun _ h => h.rtThreadStartup hs⟩
      | resume thread =>
        cases hcall
        exact .of_tame ⟨.quiet rfl rfl (frame_rtThreadResume _ _), fun _ h => h.rtThreadResume thread⟩
      | eventSend id set =>
        cases hcall
        exact .of_tame ⟨frame_rtEventSend k id set, fun _ h => h.rtEventSend id set⟩
      | _ => cases hipc
  | timerDue thread =>
    obtain ⟨s, hs, ⟨⟩⟩ := map_eq_some_iff.mp heq
    exact .of_tame ⟨.quiet rfl rfl (frame_timerDue hs), fun _ h => h.timerDue hs⟩
  | timeout thread =>
    obtain ⟨k1, hk1, ⟨⟩⟩ := map_eq_some_iff.mp heq
    refine .of_tame ⟨?_, fun _ h => h.threadTimeout hk1⟩
    obtain ⟨s, hs, rfl⟩ := map_eq_some_iff.mp hk1
    exact .quiet rfl rfl (frame_threadTimeout hs)
  | tick =>
    obtain ⟨thread, -, heq⟩ := map_eq_some_iff.mp heq
    obtain rfl : _ = k' := (Prod.mk.inj heq).1
    have htick : Tame [] none (scheduledEvent (.tick : KernelEvent T) = true ∧ k.PreemptionOk .tick) k
        (k.onSched (·.rtSchedTickIncrease thread)) :=
      ⟨(refl k).onSched (frame_rtSchedTickIncrease _ _), fun _ h => h.rtSchedTickIncrease thread⟩
    exact .of_tame (htick.setTick _)
  | schedulerStart =>
    simp only [exec] at heq
    split_ifs at heq
    obtain ⟨s, hs, ⟨⟩⟩ := map_eq_some_iff.mp heq
    exact .of_tame ⟨.quiet rfl rfl (frame_rtSystemSchedulerStart hs),
      fun _ h => h.rtSystemSchedulerStart hs⟩
  | dispatch thread =>
    obtain ⟨cur, hcur, heq⟩ := bind_eq_some_iff.mp heq
    split_ifs at heq with hready
    cases heq
    refine .of_tame ⟨.quiet rfl rfl (frame_switchTo _ cur thread _), fun hok h => ?_⟩
    refine ⟨h.toSound.unseen (h.queue.switchTo hcur (by simp) hready.1) ?_
      (h.queue.waits_switchTo (by simp) hready.1), fun hstrict => ?_⟩
    · dsimp only
      rw [switchTo_eq]
    · cases (hok hstrict).1

/-- Every event leaves the objects alone that it does not work on, and moves at most the running
thread to another place. -/
theorem exec_confined (heq : exec fuel k e = some (k', ret)) :
    Confined (k.touches e) (k.eventMover e) k k' := by
  cases (exec_stepped heq).foot with
  | frame hframe => exact hframe.confined
  | ipc htouched hstep =>
    rw [htouched]
    exact hstep.confined

end RtThread.Kernel.State
