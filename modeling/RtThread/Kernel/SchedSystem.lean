import RtThread.Kernel.Schedule

/-!
# The scheduler as a transition system

The operations of the scheduler, in any order and on any threads. A run starts after
`rt_system_scheduler_init`, with every thread initialised and none started.

The operations are also split at their calls of `rt_schedule`. Each part keeps the queue invariant, hence
each operation does, and a history of parts can say what happened since the last `rt_schedule`.
-/

namespace RtThread.Kernel

open Lib Option TransitionSystem

/-- One operation of the scheduler. -/
inductive SchedEvent (T : Type*) where
  | startup (thread : T)
  | suspendToList (thread : T) (head : Option ListHead) (flag : IpcFlag) (suspendFlag : SuspendFlag)
  | threadReady (thread : T)
  | resume (thread : T)
  | timerStart (thread : T)
  | timerDue (thread : T)
  | timeout (thread : T)
  | changePriority (thread : T) (priority : ℕ)
  | yield
  | tickIncrease
  | exit
  | detach (thread : T)
  | schedule
  | enterCritical
  | exitCritical
  | schedulerStart

/-- A part of an operation of the scheduler, up to a call of `rt_schedule`, or that call. -/
inductive SchedAction (T : Type*) where
  /-- `rt_sched_thread_startup`. -/
  | threadStartup (thread : T)
  | suspendToList (thread : T) (head : Option ListHead) (flag : IpcFlag) (suspendFlag : SuspendFlag)
  | threadReady (thread : T)
  | timerStart (thread : T)
  | timerDue (thread : T)
  /-- `_thread_timeout`, up to its reschedule. -/
  | timedOut (thread : T)
  | changePriority (thread : T) (priority : ℕ)
  /-- `rt_sched_thread_yield` on the current thread. -/
  | threadYield
  /-- `rt_sched_tick_increase`, up to its reschedule. -/
  | tick
  /-- `_thread_exit`, up to its `rt_exit_critical`. -/
  | exit
  /-- `_thread_detach`, up to its `rt_exit_critical`. -/
  | detach (thread : T)
  | enterCritical
  /-- `rt_exit_critical`, up to its `rt_schedule`. -/
  | leaveCritical
  | schedule
  | schedulerStart

namespace Sched

variable {T : Type*} [DecidableEq T] {s s' : Sched T}

/-- The effect of an operation; `none` when it is not possible or one of its assertions fails. A
thread yields, uses up its tick and exits while it runs. -/
def apply (s : Sched T) : SchedEvent T → Option (Sched T)
  | .startup thread => s.rtThreadStartup thread
  | .suspendToList thread head flag suspendFlag =>
    if head.all ListHead.isWait then
      (s.rtThreadSuspendToList thread head flag suspendFlag).map Prod.fst
    else none
  | .threadReady thread => some (s.rtSchedThreadReady thread).1
  | .resume thread => some (s.rtThreadResume thread).1
  | .timerStart thread => some (s.rtTimerStart thread)
  | .timerDue thread => s.timerDue thread
  | .timeout thread => s.threadTimeout thread
  | .changePriority thread priority => s.rtSchedThreadChangePriority thread priority
  | .yield => s.current.map s.rtThreadYield
  | .tickIncrease => s.current.map s.rtSchedTickIncrease
  | .exit => s.current.bind fun thread =>
    if (s.stat thread).code = .running then some (s.threadExit thread) else none
  | .detach thread => some (s.threadDetach thread)
  | .schedule => some s.rtSchedule
  | .enterCritical => some s.rtEnterCritical
  | .exitCritical => some s.rtExitCritical
  | .schedulerStart => if s.current = none then s.rtSystemSchedulerStart else none

/-- The scheduler with up to 256 priorities. -/
def system (T : Type*) [DecidableEq T] : Lib.TransitionSystem (Sched T) (SchedEvent T) :=
  .ofNext
    (fun s => ∃ (priorityMax : ℕ) (priority tick : T → ℕ), priorityMax ≤ 256 ∧
      (∀ t, priority t < priorityMax) ∧ s = boot priorityMax priority tick)
    apply

/-- What `rt_sched_tick_increase` leaves of the time slice. -/
def ticksLeft (s : Sched T) (thread : T) : ℕ := (s.remainingTick thread + 2 ^ 32 - 1) % 2 ^ 32

/-- A tick of the time slice is used up. -/
def spendTick (s : Sched T) (thread : T) : Sched T :=
  { s with remainingTick := Function.update s.remainingTick thread (s.ticksLeft thread) }

/-- The effect of a part; `none` when it is not possible or one of its assertions fails. -/
def act (s : Sched T) : SchedAction T → Option (Sched T)
  | .threadStartup thread =>
    if (s.stat thread).code = .init then some (s.rtSchedThreadStartup thread) else none
  | .suspendToList thread head flag suspendFlag =>
    if head.all ListHead.isWait then
      (s.rtThreadSuspendToList thread head flag suspendFlag).map Prod.fst
    else none
  | .threadReady thread => some (s.rtSchedThreadReady thread).1
  | .timerStart thread => some (s.rtTimerStart thread)
  | .timerDue thread => s.timerDue thread
  | .timedOut thread =>
    if s.timerFiring thread ∧ s.isSuspended thread then
      let s := { s with timerFiring := Function.update s.timerFiring thread false }
      some ((s.listRemove thread).rtSchedInsertThread thread)
    else none
  | .changePriority thread priority => s.rtSchedThreadChangePriority thread priority
  | .threadYield => s.current.map s.rtSchedThreadYield
  | .tick => s.current.map fun thread =>
    if s.ticksLeft thread ≠ 0 then s.spendTick thread
    else (s.spendTick thread).rtSchedThreadYield thread
  | .exit => s.current.bind fun thread =>
    if (s.stat thread).code = .running then
      let s := s.rtEnterCritical.rtSchedRemoveThread thread
      some (((s.rtTimerDetach thread).rtSchedThreadClose thread).rtThreadDefunctEnqueue thread)
    else none
  | .detach thread =>
    let r := s.rtEnterCritical.threadDetachSched thread
    some (if r.2 then r.1.rtThreadDefunctEnqueue thread else r.1)
  | .enterCritical => some s.rtEnterCritical
  | .leaveCritical => some { s with lockNest := s.lockNest - 1 }
  | .schedule => some s.rtSchedule
  | .schedulerStart => if s.current = none then s.rtSystemSchedulerStart else none

/-! ## The operations in parts -/

/-- The state is reached by parts of operations. -/
def Acts (s s' : Sched T) : Prop :=
  ∃ actions, TransitionSystem.runEvents act s actions = some s'

theorem Acts.one {a : SchedAction T} (h : s.act a = some s') : Acts s s' :=
  ⟨[a], by simp [runEvents, h]⟩

theorem Acts.trans {s'' : Sched T} (h : Acts s s') (h' : Acts s' s'') : Acts s s'' := by
  obtain ⟨actions, ha⟩ := h
  obtain ⟨actions', ha'⟩ := h'
  refine ⟨actions ++ actions', ?_⟩
  rw [runEvents_append, ha]
  exact ha'

theorem acts_rtSchedUnlockNResched (s : Sched T) : Acts s s.rtSchedUnlockNResched := by
  unfold rtSchedUnlockNResched
  split
  · exact ⟨[.schedule], rfl⟩
  · exact ⟨[], rfl⟩

theorem acts_rtExitCritical (s : Sched T) : Acts s s.rtExitCritical := by
  unfold rtExitCritical
  dsimp only
  split
  · exact ⟨[.leaveCritical, .schedule], rfl⟩
  · exact ⟨[.leaveCritical], rfl⟩

theorem acts_rtThreadResume (s : Sched T) (thread : T) : Acts s (s.rtThreadResume thread).1 := by
  have hready : Acts s (s.rtSchedThreadReady thread).1 := ⟨[.threadReady thread], rfl⟩
  unfold rtThreadResume
  dsimp only
  split
  · exact hready.trans (acts_rtSchedUnlockNResched _)
  · exact hready

/-- Every operation of the scheduler is made of these parts. -/
theorem acts_apply {e : SchedEvent T} (h : s.apply e = some s') : Acts s s' := by
  cases e with
  | startup thread =>
    simp only [apply, rtThreadStartup] at h
    split_ifs at h with hinit
    cases h
    have hstart : s.act (.threadStartup thread) = some (s.rtSchedThreadStartup thread) := if_pos hinit
    exact (Acts.one hstart).trans (acts_rtThreadResume _ thread)
  | suspendToList thread head flag suspendFlag =>
    exact .one (a := .suspendToList thread head flag suspendFlag) h
  | threadReady thread => exact .one (a := .threadReady thread) h
  | resume thread =>
    cases h
    exact acts_rtThreadResume s thread
  | timerStart thread => exact .one (a := .timerStart thread) h
  | timerDue thread => exact .one (a := .timerDue thread) h
  | timeout thread =>
    simp only [apply, threadTimeout] at h
    split at h
    next hfiring =>
      split_ifs at h with hsusp
      cases h
      exact (Acts.one (a := .timedOut thread) (if_pos ⟨hfiring, hsusp⟩)).trans
        (acts_rtSchedUnlockNResched _)
    · cases h
  | changePriority thread priority => exact .one (a := .changePriority thread priority) h
  | yield =>
    obtain ⟨thread, hcur, rfl⟩ := map_eq_some_iff.mp h
    have hyield : s.act .threadYield = some (s.rtSchedThreadYield thread) := by simp [act, hcur]
    exact (Acts.one hyield).trans (acts_rtSchedUnlockNResched _)
  | tickIncrease =>
    obtain ⟨thread, hcur, rfl⟩ := map_eq_some_iff.mp h
    have htick : s.act .tick = some (if s.ticksLeft thread ≠ 0 then s.spendTick thread
        else (s.spendTick thread).rtSchedThreadYield thread) := by
      simp [act, hcur]
    have hstep := Acts.one htick
    change Acts s (if s.ticksLeft thread ≠ 0 then s.spendTick thread
      else ((s.spendTick thread).rtSchedThreadYield thread).rtSchedUnlockNResched)
    split
    next hleft =>
      rwa [if_pos hleft] at hstep
    next hleft =>
      rw [if_neg hleft] at hstep
      exact hstep.trans (acts_rtSchedUnlockNResched _)
  | exit =>
    obtain ⟨thread, hcur, hexit⟩ := bind_eq_some_iff.mp h
    split_ifs at hexit with hrunning
    cases hexit
    have hclose : s.act .exit = some ((((s.rtEnterCritical.rtSchedRemoveThread thread).rtTimerDetach
        thread).rtSchedThreadClose thread).rtThreadDefunctEnqueue thread) := by
      simp [act, hcur, hrunning]
    refine ((Acts.one hclose).trans (acts_rtExitCritical _)).trans ?_
    exact ⟨[.schedule], rfl⟩
  | detach thread =>
    cases h
    exact (Acts.one (a := .detach thread) rfl).trans (acts_rtExitCritical _)
  | schedule => exact .one (a := .schedule) h
  | enterCritical => exact .one (a := .enterCritical) h
  | exitCritical =>
    cases h
    exact acts_rtExitCritical s
  | schedulerStart => exact .one (a := .schedulerStart) h

/-- Every part keeps the queue in order. -/
theorem ReadyQueue.act {a : SchedAction T} (h : s.ReadyQueue) (hact : s.act a = some s') :
    s'.ReadyQueue := by
  cases a with
  | threadStartup thread =>
    simp only [Sched.act] at hact
    split_ifs at hact with hinit
    cases hact
    exact h.rtSchedThreadStartup hinit
  | suspendToList thread head flag suspendFlag =>
    simp only [Sched.act] at hact
    split_ifs at hact with hhead
    obtain ⟨⟨s1, ok⟩, hsuspend, rfl⟩ := map_eq_some_iff.mp hact
    refine h.rtThreadSuspendToList ?_ hsuspend
    rintro head' rfl
    exact hhead
  | threadReady thread =>
    cases hact
    exact h.rtSchedThreadReady thread
  | timerStart | leaveCritical =>
    cases hact
    exact h.congr rfl rfl
  | timerDue thread => exact h.timerDue hact
  | timedOut thread =>
    simp only [Sched.act] at hact
    split_ifs at hact with hboth
    cases hact
    exact (h.timerFired thread).wake hboth.2
  | changePriority thread priority => exact h.rtSchedThreadChangePriority hact
  | threadYield =>
    obtain ⟨thread, -, rfl⟩ := map_eq_some_iff.mp hact
    exact h.rtSchedThreadYield thread
  | tick =>
    obtain ⟨thread, -, rfl⟩ := map_eq_some_iff.mp hact
    have hspend : (s.spendTick thread).ReadyQueue := h.congr rfl rfl
    split
    · exact hspend
    · exact hspend.rtSchedThreadYield thread
  | exit =>
    obtain ⟨thread, -, hexit⟩ := bind_eq_some_iff.mp hact
    split_ifs at hexit with hrunning
    cases hexit
    exact h.exitClose hrunning
  | detach thread =>
    cases hact
    exact h.detachClose thread
  | enterCritical =>
    cases hact
    exact h.rtEnterCritical
  | schedule =>
    cases hact
    exact h.rtSchedule
  | schedulerStart =>
    simp only [Sched.act] at hact
    split_ifs at hact
    exact h.rtSystemSchedulerStart hact

/-- Every operation keeps the queue invariant, since its parts do. -/
theorem ReadyQueue.apply {e : SchedEvent T} (h : s.ReadyQueue) (hstep : s.apply e = some s') :
    s'.ReadyQueue := by
  obtain ⟨actions, hrun⟩ := acts_apply hstep
  have hreach := (Reachable.init (M := .ofNext (· = s) Sched.act) rfl).runEvents
    (fun _ _ _ _ hact => hact) hrun
  exact hreach.invariant (fun _ heq => heq ▸ h) fun _ _ _ hinv hact => hinv.act hact

/-! ## The ready queue -/

/-- The queue invariant holds in every reachable state. -/
theorem readyQueue_of_reachable {s : Sched T} (h : (system T).Reachable s) : s.ReadyQueue := by
  apply h.invariant
  · rintro s ⟨priorityMax, priority, tick, hmax, hprio, rfl⟩
    exact readyQueue_boot tick hmax hprio
  · intro s e s' hinv hstep
    exact hinv.apply hstep

/-- The representation of the ready queue, in every reachable state: the ready lists hold exactly
the `READY` threads, each once and in the list of its priority, never the current thread; a bit of
the bitmap is set exactly when its list is not empty; and when the group is not zero, the scheduler
finds a `READY` thread of the smallest ready priority. -/
theorem readyQueue_representation {s : Sched T} (h : (system T).Reachable s) :
    (∀ t p, t ∈ s.lists (.ready p) ↔ (s.stat t).code = .ready ∧ s.currentPriority t = p) ∧
    (∀ p, (s.lists (.ready p)).Nodup) ∧ (∀ cur p, s.current = some cur → cur ∉ s.lists (.ready p)) ∧
    (∀ p < s.priorityMax, s.readyBit p = true ↔ s.lists (.ready p) ≠ []) ∧
    (32 < s.priorityMax → ∀ n < 32, s.readyPriorityGroup.getLsbD n = true ↔ s.readyTable n ≠ 0) ∧
    (s.readyPriorityGroup ≠ 0 → ∃ best, s.schedulerGetHighestPriorityThread = some best ∧
      (s.stat best).code = .ready ∧
      ∀ t, (s.stat t).code = .ready → s.currentPriority best ≤ s.currentPriority t) := by
  have hqueue := readyQueue_of_reachable h
  refine ⟨?_, fun p => hqueue.queue.nodup _, ?_, ?_, hqueue.queue.bitmap.group, ?_⟩
  · intro t p
    simpa using hqueue.queue.ready t p
  · intro cur p hcur hmem
    exact hqueue.current cur hcur ((hqueue.queue.ready cur p).mp hmem).2.1
  · intro p hp
    apply hqueue.queue.bitmap.bit
    have hsize := hqueue.queue.size
    unfold bitmapSize
    split <;> omega
  · intro hgroup
    obtain ⟨best, hfind, hready, hprio, hmin⟩ :=
      hqueue.queue.schedulerGetHighestPriorityThread hgroup
    exact ⟨best, hfind, hready, fun t ht => hprio ▸ hmin t ht⟩

/-- Two threads are started in the layout of 256 levels; the scheduler finds the one of higher
priority. -/
theorem readyQueue_representation_two_threads :
    ∃ s : Sched Bool, (system Bool).Reachable s ∧ s.readyPriorityGroup ≠ 0 ∧
      ∃ best, s.schedulerGetHighestPriorityThread = some best ∧ (s.stat best).code = .ready ∧
        ∀ t, (s.stat t).code = .ready → s.currentPriority best ≤ s.currentPriority t := by
  have hinit : (system Bool).Reachable (boot 256 (fun t => if t then 9 else 200) (fun _ => 10)) :=
    .init ⟨256, _, _, le_rfl, by decide, rfl⟩
  have hrun : Lib.TransitionSystem.runEvents apply
      (boot 256 (fun t => if t then 9 else 200) (fun _ => 10)) [.startup false, .startup true] =
        some _ := rfl
  have hreach := hinit.runEvents (fun _ _ _ _ hstep => hstep) hrun
  exact ⟨_, hreach, by decide, (readyQueue_representation hreach).2.2.2.2.2 (by decide)⟩

end Sched

end RtThread.Kernel
