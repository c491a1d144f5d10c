import Mathlib.Data.Fin.VecNotation
import RtThread.Kernel.SchedSystem

/-!
# Rotation among threads of one priority

`rt_schedule` replaces the running thread by a thread of the same priority when the `YIELD` bit of the
running thread is set. The bit is set when the thread yields or uses up its time slice, and it is meant
for the `rt_schedule` that follows.

`rt_schedule` clears the bit only when it switches. When the thread goes on, because no other thread of
its priority is ready or the scheduler is locked, the bit stays and a later `rt_schedule` rotates although
the time slice is new.

The history of the parts of operations says what happened since the last `rt_schedule`.
-/

namespace RtThread.Kernel

open Lib Option TransitionSystem

namespace Sched

variable {T : Type*} {s s' : Sched T} {t : T}

/-- No thread gets the bit, and the current thread stays. -/
structure KeepsYield (s s' : Sched T) : Prop where
  current : s'.current = s.current
  yield : ∀ t, (s'.stat t).yield = true → (s.stat t).yield = true

theorem KeepsYield.of_stat (hstat : s'.stat = s.stat) (hcur : s'.current = s.current) :
    KeepsYield s s' := ⟨hcur, fun t ht => by rwa [← hstat]⟩

theorem KeepsYield.trans {s'' : Sched T} (h : KeepsYield s s') (h' : KeepsYield s' s'') :
    KeepsYield s s'' := ⟨h'.current.trans h.current, fun t ht => h.yield t (h'.yield t ht)⟩

/-- Only the current thread has the bit, and only since the last `rt_schedule`. -/
structure YieldFresh (s : Sched T) (since : T → Bool) : Prop where
  queue : s.ReadyQueue
  yield : ∀ t, (s.stat t).yield = true → s.current = some t ∧ since t = true

/-- A part that gives no thread the bit. -/
theorem YieldFresh.keeps {since : T → Bool} (h : YieldFresh s since) (hqueue : s'.ReadyQueue)
    (hkeeps : KeepsYield s s') : YieldFresh s' since :=
  ⟨hqueue, fun t ht => hkeeps.current ▸ h.yield t (hkeeps.yield t ht)⟩

variable [DecidableEq T]

/-! ## The `YIELD` bit -/

theorem keepsYield_setStat {stat : Stat} (h : stat.yield = true → (s.stat t).yield = true) :
    KeepsYield s (s.setStat t stat) := by
  refine ⟨rfl, fun u hu => ?_⟩
  by_cases hsame : u = t
  · subst hsame
    rw [setStat_self] at hu
    exact h hu
  · rwa [setStat_of_ne _ hsame] at hu

section

variable (s) (thread : T)

theorem keepsYield_setCode (code : StatCode) :
    KeepsYield s (s.setCode thread code) := keepsYield_setStat fun h => h

theorem keepsYield_rtTimerDetach : KeepsYield s (s.rtTimerDetach thread) := .of_stat rfl rfl

theorem keepsYield_rtSchedThreadClose :
    KeepsYield s (s.rtSchedThreadClose thread) := keepsYield_setStat Bool.noConfusion

theorem keepsYield_rtSchedRemoveThread : KeepsYield s (s.rtSchedRemoveThread thread) := by
  rw [rtSchedRemoveThread_eq]
  exact .of_stat rfl rfl

theorem keepsYield_rtSchedInsertThread : KeepsYield s (s.rtSchedInsertThread thread) := by
  refine ⟨by rw [rtSchedInsertThread_eq], fun t ht => ?_⟩
  rw [rtSchedInsertThread_stat, Function.update_apply] at ht
  split at ht
  next hsame => exact hsame ▸ ht
  · exact ht

theorem keepsYield_rtSchedThreadTimerStop : KeepsYield s (s.rtSchedThreadTimerStop thread).1 := by
  unfold rtSchedThreadTimerStop
  split <;> exact .of_stat rfl rfl

theorem keepsYield_rtSchedThreadReady : KeepsYield s (s.rtSchedThreadReady thread).1 := by
  have hstop := keepsYield_rtSchedThreadTimerStop s thread
  unfold rtSchedThreadReady
  split
  · dsimp only
    split
    · refine hstop.trans (KeepsYield.trans ?_ (keepsYield_rtSchedInsertThread _ thread))
      exact .of_stat rfl rfl
    · exact hstop
  · exact .of_stat rfl rfl

end

theorem keepsYield_rtThreadSuspendToList {ok : Bool} {head : Option ListHead} {flag : IpcFlag}
    {suspendFlag : SuspendFlag}
    (heq : s.rtThreadSuspendToList t head flag suspendFlag = some (s', ok)) : KeepsYield s s' := by
  obtain ⟨-, heq⟩ := ite_none_right_eq_some.mp heq
  split at heq
  · cases heq
    refine KeepsYield.trans ?_ (keepsYield_rtSchedThreadTimerStop _ t)
    have hcode : KeepsYield s ((s.rtSchedRemoveThread t).setCode t (.suspend suspendFlag)) :=
      (keepsYield_rtSchedRemoveThread s t).trans (keepsYield_setCode _ t _)
    cases head with
    | none => exact hcode
    | some head => cases flag <;> exact hcode.trans (.of_stat rfl rfl)
  · cases heq
    exact .of_stat rfl rfl

theorem keepsYield_rtSchedThreadChangePriority {priority : ℕ}
    (heq : s.rtSchedThreadChangePriority t priority = some s') : KeepsYield s s' := by
  have hmasks : ∀ s1 : Sched T, KeepsYield s1 ((s1.setCurrentPriority t priority).setMasks t) := by
    intro s1
    rw [setMasks_eq]
    exact .of_stat rfl rfl
  obtain ⟨-, heq⟩ := ite_none_right_eq_some.mp heq
  split at heq
  · cases heq
    refine KeepsYield.trans ?_ (keepsYield_rtSchedInsertThread _ t)
    refine KeepsYield.trans ?_ (keepsYield_setStat (by simp))
    exact (keepsYield_rtSchedRemoveThread s t).trans (hmasks _)
  · cases heq
    exact hmasks s

/-- `rt_sched_thread_yield` gives its thread the bit. -/
theorem yield_rtSchedThreadYield {thread : T} (h : ((s.rtSchedThreadYield thread).stat t).yield = true) :
    t = thread ∨ (s.stat t).yield = true := by
  by_cases hsame : t = thread
  · exact .inl hsame
  · rw [rtSchedThreadYield, setStat_of_ne _ hsame] at h
    exact .inr h

/-- The section of `_thread_detach` under the scheduler lock. -/
theorem keepsYield_threadDetachSched (s : Sched T) (thread : T) :
    KeepsYield s (s.threadDetachSched thread).1 := by
  have hclose : ∀ s1 : Sched T,
      KeepsYield s1 ((s1.rtTimerDetach thread).rtSchedThreadClose thread) := fun s1 =>
    (keepsYield_rtTimerDetach s1 thread).trans (keepsYield_rtSchedThreadClose _ thread)
  unfold threadDetachSched
  split
  · exact .of_stat rfl rfl
  · split
    · exact hclose s
    · exact (keepsYield_rtSchedRemoveThread s thread).trans (hclose _)

/-- The bits after a switch. -/
theorem switchTo_yield {cur best : T} {running : Bool}
    (h : ((s.switchTo cur best running).stat t).yield = true) : t ≠ cur ∧ (s.stat t).yield = true := by
  have hback : ∀ s1 : Sched T, ((((s1.setStat cur { s1.stat cur with yield := false
      }).rtSchedRemoveThread best).setCode best .running).stat t).yield = true →
      t ≠ cur ∧ (s1.stat t).yield = true := by
    intro s1 h1
    have hcode := (keepsYield_setCode _ best .running).yield t h1
    have hcleared := (keepsYield_rtSchedRemoveThread _ best).yield t hcode
    by_cases hsame : t = cur
    · rw [hsame, setStat_self] at hcleared
      cases hcleared
    · rw [setStat_of_ne _ hsame] at hcleared
      exact ⟨hsame, hcleared⟩
  obtain ⟨hne, hyield⟩ := hback _ h
  refine ⟨hne, ?_⟩
  split at hyield
  · have hinsert : KeepsYield { s with current := some best } _ := keepsYield_rtSchedInsertThread _ cur
    exact hinsert.yield t hyield
  · exact hyield

/-- A rotation needs the bit. -/
theorem ReadyQueue.yield_of_rotation {cur next : T} (h : s.ReadyQueue) (hcur : s.current = some cur)
    (hrunning : (s.stat cur).code = .running) (hnext : s.rtSchedule.current = some next)
    (hne : next ≠ cur) (hprio : s.currentPriority next = s.currentPriority cur) :
    (s.stat cur).yield = true := by
  obtain ⟨heq, -⟩ | ⟨_, best, heq, -, hlock, hready, hmin, -⟩ := h.rtSchedule_cases
  · rw [heq] at hnext
    exact absurd (mem_unique hnext hcur) hne
  have hsame : best = next := by
    rw [heq, switchTo_eq] at hnext
    exact some.inj hnext
  subst hsame
  -- without the bit the running thread would stay
  by_contra hyield
  rw [Bool.not_eq_true] at hyield
  refine hne (some.inj (hnext.symm.trans ?_))
  unfold Sched.rtSchedule
  split
  next cur' first hcur' _ =>
    obtain rfl : cur' = cur := mem_unique hcur' hcur
    split
    next hopen =>
      obtain ⟨first', -, hfirst, hhighest, hall⟩ :=
        h.queue.schedulerGetHighestPriorityThread hopen.2
      have hequal : s.currentPriority cur' = s.highestReadyPriority := by
        have hle := hall best hready
        have hge := hmin first' hfirst
        omega
      simp only [hrunning, hequal, hyield, decide_true, and_self, or_true, if_true, ne_eq, if_false]
      rw [rtSchedRemoveThread_eq]
      exact hcur
    · exact hcur
  · exact hcur

/-! ## Runs -/

/-- What has happened since the last `rt_schedule`: a thread has yielded or used up its time slice. -/
def recordYield (s : Sched T) (a : SchedAction T) (_ : Sched T) (since : T → Bool) : T → Bool :=
  match a with
  | .threadYield => fun t => since t || decide (s.current = some t)
  | .tick => fun t => since t || decide (s.current = some t ∧ s.ticksLeft t = 0)
  | .schedule => fun _ => false
  | _ => since

/-- The scheduler, with the threads that have yielded or used up their time slice since the last
`rt_schedule`. -/
def actionSystem (T : Type*) [DecidableEq T] :
    TransitionSystem (Sched T × (T → Bool)) (SchedAction T) :=
  (TransitionSystem.ofNext (system T).init act).withHistory (fun _ => false) recordYield

/-- A thread that has its `YIELD` bit set is switched away by the next `rt_schedule`. -/
def YieldOk (s : Sched T) (a : SchedAction T) : Prop :=
  match a with
  | .schedule => ∀ cur ∈ s.current, (s.stat cur).yield = true → s.rtSchedule.current ≠ some cur
  | _ => True

/-- One part. -/
theorem YieldFresh.act {since : T → Bool} {a : SchedAction T} (h : YieldFresh s since)
    (hok : YieldOk s a) (hact : s.act a = some s') : YieldFresh s' (recordYield s a s' since) := by
  have hqueue := h.queue.act hact
  cases a with
  | threadStartup thread =>
    simp only [Sched.act] at hact
    split_ifs at hact
    cases hact
    refine h.keeps hqueue (KeepsYield.trans (.of_stat ?_ ?_) (keepsYield_setStat Bool.noConfusion)) <;>
      rw [setMasks_eq]
  | suspendToList thread head flag suspendFlag =>
    simp only [Sched.act] at hact
    split_ifs at hact
    obtain ⟨⟨s1, ok⟩, hsuspend, rfl⟩ := map_eq_some_iff.mp hact
    exact h.keeps hqueue (keepsYield_rtThreadSuspendToList hsuspend)
  | threadReady thread =>
    cases hact
    exact h.keeps hqueue (keepsYield_rtSchedThreadReady s thread)
  | timerStart | enterCritical | leaveCritical =>
    cases hact
    exact h.keeps hqueue (.of_stat rfl rfl)
  | timerDue thread =>
    simp only [Sched.act, Sched.timerDue] at hact
    split_ifs at hact
    cases hact
    exact h.keeps hqueue (.of_stat rfl rfl)
  | timedOut thread =>
    simp only [Sched.act] at hact
    split_ifs at hact
    cases hact
    refine h.keeps hqueue (KeepsYield.trans ?_ (keepsYield_rtSchedInsertThread _ thread))
    exact .of_stat rfl rfl
  | changePriority thread priority =>
    exact h.keeps hqueue (keepsYield_rtSchedThreadChangePriority hact)
  | threadYield =>
    obtain ⟨thread, hcur, rfl⟩ := map_eq_some_iff.mp hact
    refine ⟨hqueue, fun t ht => ?_⟩
    rcases yield_rtSchedThreadYield ht with rfl | hold
    · exact ⟨hcur, by simp [recordYield, hcur]⟩
    · obtain ⟨hsame, hsince⟩ := h.yield t hold
      exact ⟨hsame, by simp [recordYield, hsince]⟩
  | tick =>
    obtain ⟨thread, hcur, rfl⟩ := map_eq_some_iff.mp hact
    have hold : ∀ t, (s.stat t).yield = true →
        s.current = some t ∧ recordYield s .tick s since t = true := fun t ht =>
      ⟨(h.yield t ht).1, by simp [recordYield, (h.yield t ht).2]⟩
    split at hqueue
    next hleft =>
      rw [if_pos hleft]
      exact ⟨hqueue, fun t ht => hold t ht⟩
    next hleft =>
      rw [if_neg hleft]
      refine ⟨hqueue, fun t ht => ?_⟩
      rcases yield_rtSchedThreadYield ht with rfl | hyield
      · exact ⟨hcur, by simp [recordYield, hcur, not_not.mp hleft]⟩
      · exact hold t hyield
  | exit =>
    obtain ⟨thread, -, hexit⟩ := bind_eq_some_iff.mp hact
    split_ifs at hexit
    cases hexit
    have henter : KeepsYield s s.rtEnterCritical := .of_stat rfl rfl
    have hremove := henter.trans (keepsYield_rtSchedRemoveThread _ thread)
    have hdetach := hremove.trans (keepsYield_rtTimerDetach _ thread)
    have hclose := hdetach.trans (keepsYield_rtSchedThreadClose _ thread)
    exact h.keeps hqueue ⟨hclose.current, hclose.yield⟩
  | detach thread =>
    cases hact
    have henter : KeepsYield s s.rtEnterCritical := .of_stat rfl rfl
    have hdetach := henter.trans (keepsYield_threadDetachSched _ thread)
    refine h.keeps hqueue ?_
    split
    · exact ⟨hdetach.current, hdetach.yield⟩
    · exact hdetach
  | schedule =>
    cases hact
    refine ⟨hqueue, fun t ht => ?_⟩
    exfalso
    obtain ⟨heq, -⟩ | ⟨cur, best, heq, hcur, -⟩ := h.queue.rtSchedule_cases
    · rw [heq] at ht
      obtain ⟨hcur, -⟩ := h.yield t ht
      refine hok t hcur ht ?_
      rw [heq]
      exact hcur
    · rw [heq] at ht
      obtain ⟨hne, hyield⟩ := switchTo_yield ht
      exact hne (some.inj ((h.yield t hyield).1.symm.trans hcur))
  | schedulerStart =>
    simp only [Sched.act] at hact
    split_ifs at hact with hnone
    refine ⟨hqueue, fun t ht => ?_⟩
    unfold Sched.rtSystemSchedulerStart at hact
    split at hact
    · cases hact
      have hremove := (keepsYield_setStat Bool.noConfusion).yield t ht
      have hyield := (keepsYield_rtSchedRemoveThread _ _).yield t hremove
      exact absurd ((h.yield t hyield).1.symm.trans hnone) (by simp)
    · cases hact

/-- Whether the bit is used by the next `rt_schedule` can be evaluated. -/
instance (s : Sched T) (a : SchedAction T) : Decidable (YieldOk s a) := by
  unfold YieldOk
  split
  · exact inferInstanceAs (Decidable (∀ cur ∈ s.current, _ → _))
  · exact inferInstanceAs (Decidable True)

/-- A part with the history, as a function to the next state, when it meets a condition. -/
def actWhen (ok : Sched T → SchedAction T → Prop) [∀ s a, Decidable (ok s a)]
    (p : Sched T × (T → Bool)) (a : SchedAction T) : Option (Sched T × (T → Bool)) :=
  if ok p.1 a then (p.1.act a).map fun s' => (s', recordYield p.1 a s' p.2) else none

/-- A computed step is a step of the guarded system. -/
theorem guarded_step_of_actWhen {ok : Sched T → SchedAction T → Prop} [∀ s a, Decidable (ok s a)]
    {p p' : Sched T × (T → Bool)} {a : SchedAction T} (h : actWhen ok p a = some p') :
    ((actionSystem T).guarded fun p a => ok p.1 a).step p a p' := by
  obtain ⟨hok, h⟩ := ite_none_right_eq_some.mp h
  obtain ⟨s', hact, rfl⟩ := map_eq_some_iff.mp h
  exact ⟨hok, hact, rfl⟩

end Sched

end RtThread.Kernel
