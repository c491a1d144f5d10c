import RtThread.Kernel.MutexSteps

/-!
# Critical sections

A mutex function locks the scheduler, works on the mutexes, and unlocks the scheduler again. `Sound` is
the order that the scheduler keeps meanwhile, `Calm` the one between two events. `Locked` says what a
function does while the scheduler is locked, and `Tame` what it does as a whole: each of them covers the
objects that the function leaves alone and the state of the scheduler.
-/

namespace RtThread.Kernel

open Function Option

namespace Sched

variable {T : Type*} {s : Sched T} {t : T}

/-- The running thread has a priority at least as high as every ready thread. -/
def HighestRuns (s : Sched T) : Prop :=
  ∀ cur, s.current = some cur → (s.stat cur).code = .running →
    ∀ t, (s.stat t).code = .ready → s.currentPriority cur ≤ s.currentPriority t

variable [DecidableEq T]

/-- The status of the threads after a switch. -/
theorem switchTo_code {cur best : T} {running : Bool} (hne : best ≠ cur) (t : T) :
    ((s.switchTo cur best running).stat t).code = if t = best then .running
      else if t = cur ∧ running = true then .ready else (s.stat t).code := by
  have hback : ∀ s1 : Sched T,
      ((((s1.setStat cur { s1.stat cur with yield := false }).rtSchedRemoveThread best).setCode best
        .running).stat t).code = if t = best then .running else (s1.stat t).code := by
    intro s1
    by_cases htb : t = best
    · simp [htb, setCode]
    · rw [if_neg htb, setCode, setStat_of_ne _ htb, rtSchedRemoveThread_eq]
      by_cases htc : t = cur
      · simp [htc, listRemove]
      · simp [setStat, listRemove, htc]
  unfold switchTo
  rw [hback]
  by_cases htb : t = best
  · rw [if_pos htb, if_pos htb]
  · cases running with
    | false => simp
    | true =>
      rw [if_pos rfl, rtSchedInsertThread_stat]
      by_cases htc : t = cur
      · simp [htc, hne]
      · simp [htc]

/-- `rt_schedule` runs a thread of the smallest priority. -/
theorem ReadyQueue.highestRuns_rtSchedule (h : s.ReadyQueue) (hlock : s.lockNest = 0) :
    s.rtSchedule.HighestRuns := by
  obtain ⟨heq, hstay⟩ | ⟨cur, best, heq, hcur, -, hready, hmin, hle⟩ := h.rtSchedule_cases
  · rw [heq]
    intro cur hcur _ t ht
    obtain hnone | ⟨-, hmin⟩ := hstay cur hcur hlock
    · exact absurd ht (hnone t)
    · exact hmin t ht
  · have hne : best ≠ cur := by
      rintro rfl
      exact h.current best hcur hready
    rw [heq]
    intro cur' hcur' _ t ht
    rw [switchTo_eq] at hcur'
    cases hcur'
    have hprio : (s.switchTo cur best ((s.stat cur).code = .running)).currentPriority =
        s.currentPriority := by rw [switchTo_eq]
    rw [hprio]
    rw [switchTo_code hne] at ht
    split at ht
    next htb =>
      rw [htb]
    · split at ht
      next hback =>
        rw [hback.1]
        exact hle (of_decide_eq_true hback.2)
      · exact hmin t ht

theorem ReadyQueue.rtSchedule_lockNest (h : s.ReadyQueue) : s.rtSchedule.lockNest = s.lockNest := by
  obtain ⟨heq, -⟩ | ⟨cur, best, heq, -⟩ := h.rtSchedule_cases
  · rw [heq]
  · rw [heq, switchTo_eq]

/-- A reschedule runs a thread of the smallest priority. -/
theorem ReadyQueue.highestRuns_rtSchedUnlockNResched (h : s.ReadyQueue) (hlock : s.lockNest = 0) :
    s.rtSchedUnlockNResched.HighestRuns := by
  unfold Sched.rtSchedUnlockNResched
  split
  · exact h.highestRuns_rtSchedule hlock
  next hnone =>
    intro cur hcur
    simp [hcur] at hnone

theorem ReadyQueue.rtSchedUnlockNResched_lockNest (h : s.ReadyQueue) :
    s.rtSchedUnlockNResched.lockNest = s.lockNest := by
  unfold Sched.rtSchedUnlockNResched
  split
  · exact h.rtSchedule_lockNest
  · rfl

/-- A suspension neither locks nor switches, and leaves the closed threads. -/
theorem ReadyQueue.rtThreadSuspendToList_stays {s' : Sched T} {ok : Bool} {head : ListHead}
    {flag : IpcFlag} {suspendFlag : SuspendFlag} (h : s.ReadyQueue)
    (heq : s.rtThreadSuspendToList t (some head) flag suspendFlag = some (s', ok)) :
    s'.lockNest = s.lockNest ∧ s'.current = s.current ∧
      ∀ u, (s.stat u).code = .close → s'.stat u = s.stat u := by
  obtain ⟨-, ⟨rfl, -⟩ | ⟨-, hrunning, rfl⟩⟩ := h.rtThreadSuspendToList_eq heq
  · exact ⟨rfl, rfl, fun _ _ => rfl⟩
  · have hstop : ∀ s1 : Sched T, (s1.rtSchedThreadTimerStop t).1.lockNest = s1.lockNest ∧
        (s1.rtSchedThreadTimerStop t).1.current = s1.current ∧
        (s1.rtSchedThreadTimerStop t).1.stat = s1.stat := by
      intro s1
      unfold Sched.rtSchedThreadTimerStop
      split <;> exact ⟨rfl, rfl, rfl⟩
    rw [(hstop _).1, (hstop _).2.1, (hstop _).2.2]
    have hother : ∀ u, (s.stat u).code = .close → u ≠ t := by
      rintro u hu rfl
      rw [hu] at hrunning
      cases hrunning
    cases flag <;> exact ⟨rfl, rfl, fun u hu => update_of_ne (hother u hu) ..⟩

/-- Closing a thread, in `_thread_detach`, does not lock and links no thread. -/
theorem threadDetachSched_frame (s : Sched T) (t : T) : (s.threadDetachSched t).1.lockNest = s.lockNest ∧
      ∀ head u, u ∈ (s.threadDetachSched t).1.lists head → u ∈ s.lists head := by
  unfold Sched.threadDetachSched
  split
  · exact ⟨rfl, fun _ _ hu => hu⟩
  · split
    · exact ⟨rfl, fun _ _ hu => hu⟩
    · rw [rtSchedRemoveThread_eq]
      exact ⟨rfl, fun _ _ hu => (mem_listRemove.mp hu).1⟩

/-- The priority of the thread is changed, and no other. -/
theorem rtSchedThreadChangePriority_currentPriority {s' : Sched T} {priority : ℕ}
    (heq : s.rtSchedThreadChangePriority t priority = some s') :
    s'.currentPriority = Function.update s.currentPriority t priority := by
  obtain ⟨-, heq⟩ := ite_none_right_eq_some.mp heq
  split at heq
  · cases heq
    rw [rtSchedInsertThread_eq, setMasks_eq, rtSchedRemoveThread_eq]
    rfl
  · cases heq
    rw [setMasks_eq]
    rfl

end Sched

namespace State

variable {T : Type*} {k k' k'' : State T} {t : T} {n : ℕ} {mover dying : Option T} {strict ok : Prop}
variable {fuel id : ℕ} {head : ListHead} {needSchedule : Bool} {ret : Option ℤ} {s : Sched T}
  {suspendFlag : SuspendFlag} {timeout : ℤ} {touched : List (Object T)}

/-- The queue is in order, the scheduler is locked `n` times, a thread that waits for events waits for
all or for one of them, and a thread that is being closed is not yet among the closed threads. -/
structure Sound (n : ℕ) (dying : Option T) (k : State T) : Prop where
  queue : k.ReadyQueue
  lock : k.lockNest = n
  waiters : ∀ id t, t ∈ k.waits.waiting (.event id) →
    (k.eventInfo t).and = true ∨ (k.eventInfo t).or = true
  closing : ∀ t, dying = some t → (k.stat t).code = .close ∧ t ∉ k.lists .defunct

/-- The state between two steps: not locked, and in a strict run a thread of the smallest priority
runs. -/
structure Calm (strict : Prop) (k : State T) : Prop extends Sound 0 none k where
  highest : strict → k.HighestRuns

/-- Only the scheduler and what the threads wait for matter. -/
theorem Sound.congr (h : Sound n dying k) (hsched : k'.toSched = k.toSched)
    (hinfo : k'.eventInfo = k.eventInfo) : Sound n dying k' := by
  constructor
  · rw [hsched]
    exact h.queue
  · rw [hsched]
    exact h.lock
  · rw [hsched, hinfo]
    exact h.waiters
  · rw [hsched]
    exact h.closing

theorem Sound.wakes {p : T → Prop} (h : Sound n dying k)
    (hwakes : Sched.Wakes p k.toSched s) : Sound n dying { k with toSched := s } where
  queue := hwakes.queue
  lock := hwakes.lockNest.trans h.lock
  waiters id t ht := h.waiters id t (hwakes.waiting _ t ht)
  closing := by
    intro t ht
    obtain ⟨hclose, hdefunct⟩ := h.closing t ht
    refine ⟨?_, fun hmem => hdefunct (hwakes.defunct t hmem)⟩
    rcases hwakes.code t with hsame | ⟨-, hsusp, -⟩
    · exact hsame.trans hclose
    · simp [Sched.isSuspended, hclose] at hsusp

theorem Sound.reprioritized (h : Sound n dying k) (hstep : Reprioritized k k') : Sound n dying k' where
  queue := hstep.queue
  lock := hstep.lockNest.trans h.lock
  waiters := by
    intro id t ht
    rw [hstep.frame]
    rcases hstep.waiting _ t ht with hmem | ⟨-, id', hhead, -⟩
    · exact h.waiters id t hmem
    · cases hhead
  closing := by
    intro t ht
    obtain ⟨hclose, hdefunct⟩ := h.closing t ht
    exact ⟨(hstep.code t).trans hclose, fun hmem => hdefunct (hstep.defunct t hmem)⟩

/-- A step of the scheduler that the waiting threads do not see, when no thread is being closed. -/
theorem Sound.unseen (h : Sound n none k) (hqueue : s.ReadyQueue)
    (hlock : s.lockNest = k.lockNest) (hwaits : s.waits = k.waits) :
    Sound n none { k with toSched := s } where
  queue := hqueue
  lock := hlock.trans h.lock
  waiters id t ht := h.waiters id t (hwaits ▸ ht)
  closing := by simp

theorem Sound.rtEnterCritical (h : Sound n dying k) :
    Sound (n + 1) dying (k.onSched (·.rtEnterCritical)) :=
  ⟨h.queue.rtEnterCritical, congrArg (· + 1) h.lock, h.waiters, h.closing⟩

variable [DecidableEq T]

/-- `rt_schedule` at the end of a step. -/
theorem Sound.rtSchedule (h : Sound 0 none k) : (k.onSched (·.rtSchedule)).Calm strict :=
  ⟨h.unseen h.queue.rtSchedule h.queue.rtSchedule_lockNest h.queue.waits_rtSchedule,
    fun _ => h.queue.highestRuns_rtSchedule h.lock⟩

/-- A reschedule at the end of a step. -/
theorem Sound.rtSchedUnlockNResched (h : Sound 0 none k) :
    (k.onSched (·.rtSchedUnlockNResched)).Calm strict :=
  ⟨h.unseen h.queue.rtSchedUnlockNResched h.queue.rtSchedUnlockNResched_lockNest
      h.queue.waits_rtSchedUnlockNResched, fun _ => h.queue.highestRuns_rtSchedUnlockNResched h.lock⟩

/-- The end of the outermost critical section. -/
theorem Sound.rtExitCritical (h : Sound 1 none k) : (k.onSched (·.rtExitCritical)).Calm strict := by
  have hopen : Sound 0 none (k.onSched fun s => { s with lockNest := s.lockNest - 1 }) := by
    refine ⟨h.queue.congr rfl rfl, ?_, h.waiters, by simp⟩
    change k.lockNest - 1 = 0
    rw [h.lock]
  have heq : k.onSched (·.rtExitCritical) =
      (k.onSched fun s => { s with lockNest := s.lockNest - 1 }).onSched (·.rtSchedUnlockNResched) := by
    simp only [onSched, Sched.rtExitCritical, Sched.rtSchedUnlockNResched, h.lock]
    simp
  rw [heq]
  exact hopen.rtSchedUnlockNResched

/-- The end of an inner critical section. -/
theorem Sound.rtExitCritical_nested (h : Sound (n + 2) dying k) :
    Sound (n + 1) dying (k.onSched (·.rtExitCritical)) := by
  have heq : k.onSched (·.rtExitCritical) = k.onSched fun s => { s with lockNest := s.lockNest - 1 } := by
    simp only [onSched, Sched.rtExitCritical, h.lock]
    simp
  rw [heq]
  refine ⟨h.queue.congr rfl rfl, ?_, h.waiters, h.closing⟩
  change k.lockNest - 1 = n + 1
  rw [h.lock]
  rfl

/-- The end of an inner critical section does not switch. -/
theorem Sound.rtExitCritical_current (h : Sound (n + 2) dying k) :
    (k.onSched (·.rtExitCritical)).current = k.current := by
  simp only [onSched, Sched.rtExitCritical, h.lock]
  simp

/-- The scheduler part of a suspension. -/
theorem Sound.suspend {ok : Bool} {flag : IpcFlag} (h : Sound n dying k) (hwait : head.isWait)
    (heq : k.rtThreadSuspendToList t (some head) flag suspendFlag = some (s, ok))
    (hinfo : ∀ id, head = .event id → (k.eventInfo t).and = true ∨ (k.eventInfo t).or = true) :
    Sound n dying { k with toSched := s } := by
  obtain ⟨hlock, -, hclosed⟩ := h.queue.rtThreadSuspendToList_stays heq
  refine ⟨?_, hlock.trans h.lock, ?_, ?_⟩
  · refine h.queue.rtThreadSuspendToList ?_ heq
    intro _ hsome
    exact some.inj hsome ▸ hwait
  · intro id u hu
    cases ok with
    | false =>
      obtain ⟨-, ⟨rfl, -⟩ | ⟨hfalse, -⟩⟩ := h.queue.rtThreadSuspendToList_eq heq
      · exact h.waiters id u hu
      · cases hfalse
    | true =>
      rw [(h.queue.waits_rtThreadSuspendToList hwait heq).2, Waits.timerStop_waiting,
        Waits.mem_link_waiting] at hu
      rcases hu with hold | ⟨rfl, hhead⟩
      · exact h.waiters id u hold
      · exact hinfo id hhead.symm
  · intro u hu
    obtain ⟨hclose, hdefunct⟩ := h.closing u hu
    refine ⟨by rw [hclosed u hclose, hclose], fun hmem => hdefunct ?_⟩
    refine ((Sched.rtThreadSuspendToList_frame heq).2 .defunct ?_).subset hmem
    rintro rfl
    cases hwait

theorem Sound.startTimerIf (h : Sound n dying k) (t : T) (timeout : ℤ) :
    Sound n dying (k.startTimerIf t timeout) := by
  unfold State.startTimerIf
  split
  · exact { h with queue := h.queue.congr rfl rfl }
  · exact h

/-- A priority is changed. -/
theorem Frame.changePriority {priority : ℕ} (h : Frame touched mover k k')
    (heq : k'.changePriority t priority = some k'') : Frame touched mover k k'' := by
  obtain ⟨s, hs, rfl⟩ := map_eq_some_iff.mp heq
  exact h.trans (.quiet rfl rfl (Sched.frame_rtSchedThreadChangePriority hs))

/-! ## Functions that run while the scheduler is locked -/

/-- What a function does while the scheduler is locked: it works on some objects, and the scheduler stays
sound and does not switch. -/
structure Locked (touched : List (Object T)) (mover dying : Option T) (k k' : State T) : Prop where
  frame : Frame touched mover k k'
  sound : ∀ {n}, Sound (n + 1) dying k → Sound (n + 1) dying k' ∧ k'.current = k.current

/-- What a function does between two events. When it does not reschedule, only `ok` ensures that the right
thread runs. -/
structure Tame (touched : List (Object T)) (mover : Option T) (ok : Prop) (k k' : State T) : Prop where
  frame : Frame touched mover k k'
  calm : ∀ {strict : Prop}, (strict → ok) → k.Calm strict → k'.Calm strict

namespace Locked

omit [DecidableEq T] in
theorem refl (k : State T) : Locked touched mover dying k k := ⟨.refl k, fun h => ⟨h, rfl⟩⟩

omit [DecidableEq T] in
theorem trans (h : Locked touched mover dying k k') (h' : Locked touched mover dying k' k'') :
    Locked touched mover dying k k'' := by
  refine ⟨h.frame.trans h'.frame, fun hk => ?_⟩
  obtain ⟨hsound, hcurrent⟩ := h.sound hk
  obtain ⟨hsound', hcurrent'⟩ := h'.sound hsound
  exact ⟨hsound', hcurrent'.trans hcurrent⟩

theorem setPc {pc : Pc} (h : Locked touched (some t) dying k k') (hpc : ∀ o ∈ pc.object T, o ∈ touched) :
    Locked touched (some t) dying k (k'.setPc t pc) :=
  ⟨h.frame.setPc hpc, fun hk => (h.sound hk).imp_left fun hsound => hsound.congr rfl rfl⟩

theorem startTimerIf (h : Locked touched mover dying k k') (t : T) (timeout : ℤ) :
    Locked touched mover dying k (k'.startTimerIf t timeout) := by
  refine h.trans ⟨(Frame.refl k').startTimerIf t timeout, fun hk => ⟨hk.startTimerIf t timeout, ?_⟩⟩
  unfold State.startTimerIf
  split <;> rfl

/-- The end of an inner critical section. -/
theorem exitNested (h : Locked touched mover dying (k.onSched (·.rtEnterCritical)) k') :
    Locked touched mover dying k (k'.onSched (·.rtExitCritical)) := by
  refine ⟨(((Frame.refl k).onSched (.of_eq rfl rfl)).trans h.frame).onSched
    (Sched.frame_rtExitCritical _), fun hk => ?_⟩
  obtain ⟨hsound, hcurrent⟩ := h.sound hk.rtEnterCritical
  exact ⟨hsound.rtExitCritical_nested, hsound.rtExitCritical_current.trans hcurrent⟩

end Locked

/-- The outermost critical section. -/
theorem Tame.of_section (h : InSection (Locked touched mover none) k k') : Tame touched mover ok k k' := by
  obtain ⟨k1, h, rfl⟩ := h
  exact ⟨(((Frame.refl k).onSched (.of_eq rfl rfl)).trans h.frame).onSched (Sched.frame_rtExitCritical _),
    fun _ hk => (h.sound hk.toSound.rtEnterCritical).1.rtExitCritical⟩

section Mutexes

variable (hmem : .mutexes ∈ touched)
include hmem

omit [DecidableEq T] in
/-- The mutexes or an error code are written. -/
theorem Locked.write (h : Locked touched mover dying k k') (hobjects : k''.objects = { k'.objects with
      mutex := k''.mutex, takenObjectList := k''.takenObjectList, pendingObject := k''.pendingObject })
    (hpc : k''.pc = k'.pc) (hsched : k''.toSched = k'.toSched) : Locked touched mover dying k k'' := by
  refine ⟨h.frame.setMutexes hmem hobjects hpc hsched, fun hk => ?_⟩
  rw [hsched]
  exact (h.sound hk).imp_left fun hsound => hsound.congr hsched (congrArg Objects.eventInfo hobjects)

/-- Passing priorities on. -/
theorem passesOn_locked : PassesOn (fun _ => True) (Locked touched mover dying) where
  keeps _ := trivial
  refl _ := .refl _
  trans := .trans
  setMutex _ _ _ := (Locked.refl _).write hmem rfl rfl rfl
  requeue _ hsusp hpending := by
    refine ⟨(Frame.refl _).onSched ⟨Sched.Thins.trans (fun _ _ => List.filter_sublist)
      (.of_update rfl rfl), fun _ _ ht => ht⟩, fun hk => ⟨?_, rfl⟩⟩
    exact hk.reprioritized (reprioritized_requeue hk.queue hsusp hpending)
  changePriority _ _ heq := by
    refine ⟨(Frame.refl _).changePriority heq, fun hk => ?_⟩
    have hstep := reprioritized_changePriority hk.queue heq
    exact ⟨hk.reprioritized hstep, hstep.current⟩

/-- The mutex functions. -/
theorem mutexSteps_locked : MutexSteps t (fun _ => True) (Locked touched (some t) dying) fun _ _ => True :=
  (passesOn_locked hmem).mutexSteps (fun _ => (Locked.refl _).write hmem)
    (fun _ hpc => (Locked.refl _).setPc fun o ho => hpc o ho ▸ hmem)
    (fun _ => (Locked.refl _).startTimerIf t)
    (fun _ hs => ⟨.quiet rfl rfl (Sched.frame_rtThreadSuspendToList rfl hs), fun hk =>
      ⟨hk.suspend rfl hs (by simp), (hk.queue.rtThreadSuspendToList_stays hs).2.1⟩⟩)
    fun _ hs => ⟨.quiet rfl rfl (Sched.frame_releaseWake hs), fun hk =>
      ⟨hk.wakes (hk.queue.wakes_releaseWake hs).1, (hk.queue.wakes_releaseWake hs).1.current⟩⟩

/-! ## The end of a thread -/

/-- `rt_mutex_release` inside a critical section. -/
theorem mutexReleaseNested_locked (heq : k.mutexReleaseNested id = some k') :
    Locked touched mover dying k k' := by
  obtain ⟨⟨k1, ret⟩, hk1, rfl⟩ := map_eq_some_iff.mp heq
  cases hcur : k.current with
  | none =>
    unfold rtMutexRelease at hk1
    rw [hcur] at hk1
    cases hk1
  | some t =>
    have hR : MutexSteps t _ (Locked touched (some t) dying) _ := mutexSteps_locked hmem
    obtain ⟨k2, hk2, rfl⟩ := hR.rtMutexRelease trivial hcur (fun _ _ => trivial) hk1
    obtain ⟨⟨hrelease, hthins⟩, hsound⟩ := hk2.exitNested
    refine ⟨⟨{ hrelease with pc := fun u => .inl ?_ }, hthins.lists, hthins.flags⟩,
      fun hk => (hsound hk).imp_left fun h => h.congr rfl rfl⟩
    by_cases hu : u = t
    · rw [hu]
      exact update_self ..
    · refine (update_of_ne hu _ _).trans ?_
      refine (hrelease.pc u).resolve_right fun hmoved => hu ?_
      exact (some.inj hmoved.1).symm

/-- The release of the mutexes of a thread. -/
theorem Locked.releaseTaken {ids : List ℕ} (h : Locked touched mover dying k k')
    (heq : State.releaseTaken ids k' = some k'') : Locked touched mover dying k k'' := by
  induction ids generalizing k' with
  | nil =>
    cases heq
    exact h
  | cons id ids ih =>
    obtain ⟨k1, hk1, hrest⟩ := bind_eq_some_iff.mp heq
    exact ih (h.trans (mutexReleaseNested_locked hmem hk1)) hrest

omit [DecidableEq T] hmem in
/-- A thread that is being closed is linked nowhere. -/
theorem Sound.not_linked (h : Sound n (some t) k) (head : ListHead) : t ∉ k.lists head := by
  obtain ⟨hclose, hdefunct⟩ := h.closing t rfl
  intro hmem
  cases hhead : head with
  | ready p =>
    have hready := ((h.queue.queue.ready t p).mp (hhead ▸ hmem)).2.1
    rw [hclose] at hready
    cases hready
  | defunct => exact hdefunct (hhead ▸ hmem)
  | _ =>
    have hsusp := (h.queue.queue.wait t head (by rw [hhead]; rfl) hmem).2
    simp [Sched.isSuspended, hclose] at hsusp
/-- `rt_mutex_drop_thread` for a thread that is being closed, which is linked nowhere. -/
theorem rtMutexDropThread_locked (heq : State.rtMutexDropThread fuel k id t = some k') :
    Locked touched mover (some t) k k' := by
  unfold State.rtMutexDropThread at heq
  split_ifs at heq
  obtain ⟨k1, hk1, rfl⟩ := map_eq_some_iff.mp heq
  have hremove : Locked touched mover (some t) (k.onSched (·.rtEnterCritical))
      ((k.onSched (·.rtEnterCritical)).onSched (·.listRemove t)) := by
    refine ⟨(Frame.refl _).onSched (Sched.frame_listRemove _ t), fun hk => ⟨?_, rfl⟩⟩
    exact hk.congr (Sched.listRemove_of_not_linked hk.not_linked) rfl
  exact (hremove.trans ((passesOn_locked hmem).giveUp trivial hk1)).exitNested

theorem threadDetachFromMutex_locked (heq : State.threadDetachFromMutex fuel k t = some k') :
    Locked touched mover (some t) k k' := by
  obtain ⟨k1, hk1, hrest⟩ := bind_eq_some_iff.mp heq
  refine Locked.releaseTaken hmem ?_ hrest
  split at hk1
  · obtain ⟨k2, hk2, rfl⟩ := map_eq_some_iff.mp hk1
    exact (rtMutexDropThread_locked hmem hk2).write hmem rfl rfl rfl
  · cases hk1
    exact .refl k

end Mutexes

/-- Closing a thread, in `_thread_detach`. -/
theorem Sound.threadDetachSched (h : Sound n none k) (t : T) :
    Sound n (if (k.threadDetachSched t).2 then some t else none)
      { k with toSched := (k.threadDetachSched t).1 } := by
  obtain ⟨hlock, hlists⟩ := k.toSched.threadDetachSched_frame t
  refine ⟨h.queue.threadDetachSched t, hlock.trans h.lock, ?_, ?_⟩
  · intro id u hu
    refine h.waiters id u ?_
    exact hlists _ u hu
  · intro u hu
    split_ifs at hu with hclosed
    cases hu
    obtain ⟨hclose, hlink⟩ := h.queue.threadDetachSched_closed hclosed
    exact ⟨hclose, hlink .defunct⟩

/-- A closed thread is put among the closed threads. -/
theorem Sound.rtThreadDefunctEnqueue (h : Sound n (some t) k) :
    Sound n none (k.onSched (·.rtThreadDefunctEnqueue t)) := by
  refine ⟨h.queue.rtThreadDefunctEnqueue (h.closing t rfl).1 h.not_linked, h.lock, ?_, by simp⟩
  intro id u hu
  refine h.waiters id u ?_
  rw [Sched.waits_waiting rfl] at hu ⊢
  exact hu

theorem threadDetach_tame (heq : threadDetach fuel k t = some (k', ret)) :
    Tame [.mutexes, .thread t] mover ok k k' := by
  have hframe : Frame [.mutexes, .thread t] mover k
      { k with toSched := ((k.onSched (·.rtEnterCritical)).threadDetachSched t).1 } :=
    ((Frame.refl k).onSched (.of_eq rfl rfl)).trans
      (.quiet rfl rfl (Sched.frame_threadDetachSched _ (by simp)))
  have hsound : Sound 0 none k → Sound 1 _ _ := fun hk => hk.rtEnterCritical.threadDetachSched t
  unfold threadDetach at heq
  dsimp only at heq
  split at heq
  next hclosed =>
    rw [if_pos hclosed] at hsound
    obtain ⟨k1, hk1, ⟨⟩⟩ := map_eq_some_iff.mp heq
    have hmutex : Locked [.mutexes, .thread t] mover (some t) _ k1 :=
      threadDetachFromMutex_locked (.head _) hk1
    refine ⟨(hframe.trans hmutex.frame).onSched
      ((Sched.frame_rtThreadDefunctEnqueue _ t).trans (Sched.frame_rtExitCritical _)), fun _ hk => ?_⟩
    exact (hmutex.sound (hsound hk.toSound)).1.rtThreadDefunctEnqueue.rtExitCritical
  next hclosed =>
    rw [if_neg hclosed] at hsound
    cases heq
    exact ⟨hframe.onSched (Sched.frame_rtExitCritical _), fun _ hk => (hsound hk.toSound).rtExitCritical⟩

theorem threadExit_tame (hrunner : k.runner = some t) (heq : k.threadExit = some (k', ret)) :
    Tame [.thread t] mover ok k k' := by
  obtain ⟨hcur, hrunning⟩ := runner_eq hrunner
  obtain ⟨thread, hthread, heq⟩ := map_eq_some_iff.mp heq
  obtain rfl : thread = t := mem_unique hthread hcur
  cases heq
  refine ⟨.quiet rfl rfl (Sched.frame_threadExit _ (.head _)), fun _ hk => ?_⟩
  have hsched := hk.toSound.rtEnterCritical.threadDetachSched thread
  have hdetach : (k.onSched (·.rtEnterCritical)).threadDetachSched thread =
      (((k.rtEnterCritical.rtSchedRemoveThread thread).rtTimerDetach thread).rtSchedThreadClose thread,
        true) := by
    have hcode : ((k.onSched (·.rtEnterCritical)).stat thread).code = .running := hrunning
    simp only [Sched.threadDetachSched, hcode]
    rfl
  rw [hdetach] at hsched
  have hclosed := Sound.rtThreadDefunctEnqueue hsched
  have hopen : Calm True (State.onSched _ (·.rtExitCritical)) := hclosed.rtExitCritical
  exact hopen.toSound.rtSchedule

end State

end RtThread.Kernel
