import Mathlib.Data.Fintype.Lattice
import RtThread.Kernel.MutexExclusion
import RtThread.Kernel.MutexRelease
import RtThread.Kernel.MutexTake

/-!
# Runs of the mutex functions

Threads are started, take and release mutexes and yield, in any interleaving: with every take
waiting forever, and with timeouts. Who waits for what is known from mutual exclusion; `Tracked` adds the
timers of the waiting threads.
-/

namespace RtThread.Kernel

open Lib Function

namespace Waits

variable {T : Type*} [DecidableEq T] {w w' w'' : Waits T}

/-- The timer of a thread that is suspended runs if it is set. -/
def InTime (w : Waits T) (t : T) : Prop :=
  w.suspended t = true → w.ttmrSet t = true → w.timerActive t = true ∨ w.timerFiring t = true

/-- The timers stay in order, and no thread becomes fresh. -/
structure Onward (w w' : Waits T) : Prop where
  timer : ∀ t, w.InTime t → w'.InTime t
  fresh : ∀ t, w'.fresh t = true → w.fresh t = true

namespace Onward

omit [DecidableEq T] in
theorem refl (w : Waits T) : Onward w w := ⟨fun _ h => h, fun _ h => h⟩

omit [DecidableEq T] in
theorem trans (h : Onward w w') (h' : Onward w' w'') : Onward w w'' :=
  ⟨fun t ht => h'.timer t (h.timer t ht), fun t ht => h.fresh t (h'.fresh t ht)⟩

omit [DecidableEq T] in
/-- One thread changes. -/
theorem of_one (t : T) (hother : ∀ u, u ≠ t → w'.fresh u = w.fresh u ∧ (w.InTime u → w'.InTime u))
    (ht : w'.InTime t) (hfresh : w'.fresh t = true → w.fresh t = true) : Onward w w' := by
  constructor
  · intro u hu
    by_cases hut : u = t
    · exact hut ▸ ht
    · exact (hother u hut).2 hu
  · intro u hu
    by_cases hut : u = t
    · exact hut ▸ hfresh (hut ▸ hu)
    · exact (hother u hut).1 ▸ hu

section

variable (w) (t : T)

/-- A timer is stopped. -/
theorem timerStop : Onward w (w.timerStop t) := by
  rw [timerStop_eq]
  refine .of_one t (fun u hu => ?_) ?_ id
  · simp [InTime, hu]
  · simp [InTime]

/-- A thread is woken. -/
theorem wake : Onward w (w.wake t) := by
  refine .of_one t (fun u hu => ?_) ?_ ?_ <;> simp [InTime, Waits.wake, unlink, setSuspended, *]

/-- A thread is suspended. -/
theorem suspend (head : ListHead) (flag : IpcFlag) :
    Onward w (((w.setSuspended t true).link head t flag).timerStop t) := by
  rw [timerStop_eq]
  refine .of_one t (fun u hu => ?_) ?_ ?_ <;> simp [InTime, link, setSuspended, *]

/-- A timer is started. -/
theorem timerStart : Onward w (w.timerStart t) := by
  refine .of_one t (fun u hu => ?_) ?_ ?_ <;> simp [InTime, Waits.timerStart, *]

/-- A thread is started. -/
theorem start : Onward w (w.start t) := by
  refine .of_one t (fun u hu => ?_) ?_ ?_ <;> simp [InTime, Waits.start, *]

/-- A timer is due. -/
theorem timerDue : Onward w (w.timerDue t) := by
  refine .of_one t (fun u hu => ?_) ?_ ?_ <;> simp [InTime, Waits.timerDue, *]

/-- A thread times out. -/
theorem expire : Onward w ((w.timerFired t).wake t) := by
  refine .of_one t (fun u hu => ?_) ?_ ?_ <;>
    simp [InTime, timerFired, Waits.wake, unlink, setSuspended, *]

end

end Onward

end Waits

namespace State

variable {T : Type*} {k k' : State T} {t : T} {id : ℕ}
variable {e : KernelEvent T}
variable {fuel : ℕ} {ret : Option ℤ} {s : Sched T}

/-- The protocol is followed exactly, and no call is out of place. -/
structure Inheriting (k : State T) : Prop where
  calls : k.MutexCalls
  exact : k.locks.Exact none none

/-- A kernel in which no thread has been started. -/
theorem Booted.exact (h : k.Booted) :
    k.locks.Exact none none ∧ k.locks.Patient ∧ ∀ t, k.locks.firing t = false := by
  have hqueue := h.placed.queue.queue
  obtain ⟨priorityMax, priority, tick, -, -, hboot⟩ := h.sched
  have hlists : ∀ id, k.locks.waiting id = [] := fun id => by
    change k.lists (.mutex id) = []
    rw [hboot]
    rfl
  have hsusp : ∀ t, k.locks.suspended t = false := fun t => by
    change k.isSuspended t = false
    rw [hboot]
    rfl
  have hpending : ∀ t, k.locks.pending t = none := fun t => by
    change (k.pc t).pending (k.pendingObject t) = none
    rw [h.pc, h.pendingObject]
    rfl
  have htaken : ∀ t, k.locks.taken t = [] := h.takenObjectList
  have hmutex : ∀ id, k.locks.mutex id = ⟨0xff, 0xff, 0, none⟩ := h.mutex
  have hinit : k.locks.init = k.locks.current := by
    change k.initPriority = k.currentPriority
    rw [hboot]
    rfl
  have hbound : ∀ t, k.locks.current t ≤ 0xff := fun t =>
    Nat.le_of_lt_succ ((hqueue.priority t).trans_le hqueue.size)
  refine ⟨⟨⟨by simp [hmutex], hinit ▸ hbound, hbound, by simp [hmutex], by simp [hmutex],
    by simp [htaken, hmutex], by simp [hlists, hsusp]⟩, fun id _ hne => absurd (hlists id) hne,
    fun id => by simp [hlists], fun id _ _ => by simp [hlists, hmutex, firstKey],
    fun t _ => by simp [Locks.inherited, htaken, hinit, leastKey]⟩, fun t id hid => ?_, fun t => ?_⟩
  · simp [hpending] at hid
  · change k.timerFiring t = false
    rw [hboot]
    rfl

variable [DecidableEq T]

/-- The events of a run of the mutex functions, but for the timers. -/
def untimedEvent : KernelEvent T → Bool
  | .call (.startup _) => true
  | .call .yield => true
  | .call (.mutexTake _ _) => true
  | .call (.mutexRelease _) => true
  | .proceed => true
  | .isr (.startup _) => true
  | .tick => true
  | .schedulerStart => true
  | .dispatch _ => true
  | _ => false

/-- The events of a run of the mutex functions with timeouts. -/
def timedEvent : KernelEvent T → Bool
  | .timerDue _ => true
  | .timeout _ => true
  | e => untimedEvent e

omit [DecidableEq T] in
/-- They concern mutexes, threads that are started, or time. -/
theorem mutexEvent_of_timed (h : timedEvent e = true) : (mutexEvent e || backgroundEvent e) = true := by
  cases e with
  | call c | isr c => cases c <;> first | rfl | cases h
  | _ => rfl

/-! ## Where the threads are in their calls -/

/-- The timers stay in order, no thread becomes fresh, and only one goes on in its call. -/
structure Onward (t : T) (k k' : State T) : Prop where
  queue : k'.ReadyQueue
  waits : Waits.Onward k.waits k'.waits
  pc : ∀ u, u ≠ t → k'.pc u = k.pc u

/-- Threads that are started and time. -/
theorem Background.onward (h : Background k k') : Waits.Onward k.waits k'.waits := by
  cases h with
  | unseen tick hqueue hwaits => exact hwaits ▸ .refl _
  | start hqueue hfresh hwaits => exact hwaits ▸ .start ..
  | due hqueue hactive hfiring hwaits => exact hwaits ▸ .timerDue ..
  | expire hqueue hfiring hsusp hwaits => exact hwaits ▸ .expire ..

/-- The wake-up loop of `rt_mutex_release`. -/
theorem releaseWake_onward {rounds : ℕ} {s s' : Sched T} {next : Option T}
    (heq : releaseWake id rounds s = some (s', next)) : Waits.Onward s.waits s'.waits := by
  have hready : ∀ (s : Sched T) n, Waits.Onward s.waits ((s.listRemove n).rtSchedThreadReady n).1.waits := by
    intro s n
    have hremove : Waits.Onward s.waits (s.listRemove n).waits := ⟨fun _ h => h, fun _ h => h⟩
    rw [((s.listRemove n).waits_rtSchedThreadReady n).2]
    split_ifs
    · exact (hremove.trans (.timerStop ..)).trans (.wake ..)
    · exact hremove.trans (.timerStop ..)
    · exact hremove
  exact releaseWake_induct (C := fun s s' _ => Waits.Onward s.waits s'.waits)
    (fun _ => .refl _) (fun s n _ _ _ => hready s n)
    (fun s _ n _ _ _ _ hrest => (hready s n).trans hrest) heq

/-- The functions of mutexes. -/
theorem mutexSteps_onward (t : T) : MutexSteps t (fun k => k.ReadyQueue) (Onward t) fun _ _ => True := by
  have hquiet : ∀ {k k' : State T}, k'.ReadyQueue → Waits.Onward k.waits k'.waits → k'.pc = k.pc →
      Onward t k k' := fun hqueue hwaits hpc => ⟨hqueue, hwaits, fun _ _ => by rw [hpc]⟩
  have htrans : ∀ {k k' k'' : State T}, Onward t k k' → Onward t k' k'' → Onward t k k'' :=
    fun h h' => ⟨h'.queue, h.waits.trans h'.waits, fun u hu => (h'.pc u hu).trans (h.pc u hu)⟩
  refine PassesOn.mutexSteps ⟨Onward.queue, fun h => hquiet h (.refl _) rfl, htrans,
    fun h _ _ => hquiet h (.refl _) rfl,
    fun h hsusp _ => hquiet (h.relink rfl hsusp .prio) ⟨fun _ h => h, fun _ h => h⟩ rfl, ?_⟩ ?_ ?_ ?_ ?_ ?_
  · intro k k' u priority h _ heq
    obtain ⟨s, hs, rfl⟩ := Option.map_eq_some_iff.mp heq
    exact hquiet (h.rtSchedThreadChangePriority hs)
      (h.waits_rtSchedThreadChangePriority hs ▸ ⟨fun _ h => h, fun _ h => h⟩) rfl
  · exact fun h _ hpc hsched => hquiet (hsched ▸ h) (hsched ▸ .refl _) hpc
  · exact fun h _ => ⟨h, .refl _, fun u hu => update_of_ne hu ..⟩
  · intro k h timeout
    have hqueue := startTimerIf_queue h t timeout
    unfold startTimerIf at hqueue ⊢
    split
    · exact hquiet (by simpa [*] using hqueue) (.timerStart ..) rfl
    · exact hquiet h (.refl _) rfl
  · intro k id suspendFlag s ok h hs
    refine hquiet (h.rtThreadSuspendToList (by simp [ListHead.isWait]) hs) ?_ rfl
    obtain ⟨-, ⟨rfl, -⟩ | ⟨rfl, -⟩⟩ := h.rtThreadSuspendToList_eq hs
    · exact .refl _
    · exact (h.waits_rtThreadSuspendToList rfl hs).2 ▸ .suspend ..
  · exact fun h hs => hquiet (h.wakes_releaseWake hs).1.queue (releaseWake_onward hs) rfl

/-- A critical section. -/
theorem Onward.of_section (h : InSection (Onward t) k k') : Onward t k k' := by
  obtain ⟨k1, hk1, rfl⟩ := h
  refine ⟨hk1.queue.rtExitCritical, ?_, hk1.pc⟩
  have hwaits : (k1.onSched (·.rtExitCritical)).waits = k1.waits := hk1.queue.waits_rtExitCritical
  exact hwaits ▸ hk1.waits

/-- The running thread goes on inside a mutex function. -/
theorem proceed_onward (h : k.ReadyQueue) (hplace : (k.view t).PlaceOk (k.pc t))
    (heq : proceed fuel k t = some (k', ret)) : Onward t k k' := by
  unfold proceed at heq
  generalize k.pc t = pc at hplace heq
  cases pc with
  | idle => cases heq
  | resched r | mutexResched id =>
    cases heq
    refine ⟨h.rtSchedule, ?_, fun u hu => update_of_ne hu ..⟩
    exact h.waits_rtSchedule.symm ▸ .refl _
  | mutexWoken id => exact .of_section ((mutexSteps_onward t).mutexTakeWoken h.rtEnterCritical heq)
  | mutexClear r =>
    cases heq
    exact ⟨h, .refl _, fun u hu => update_of_ne hu ..⟩
  | _ => exact hplace.elim

/-- An event of a mutex is one of the running thread. -/
theorem exec_onward (h : k.ReadyQueue) (hplace : ∀ t, (k.view t).PlaceOk (k.pc t))
    (hevent : mutexEvent e = true) (heq : exec fuel k e = some (k', ret)) :
    ∃ t, k.runner = some t ∧ Onward t k k' := by
  cases e with
  | call c =>
    obtain ⟨t, hcaller, hcall⟩ := exec_call heq
    have hrunner := runner_of_caller hcaller
    refine ⟨t, hrunner, ?_⟩
    cases c with
    | mutexTake id timeout =>
      exact .of_section ((mutexSteps_onward t).rtMutexTake h.rtEnterCritical hrunner hcall)
    | mutexRelease id =>
      exact .of_section ((mutexSteps_onward t).rtMutexRelease h.rtEnterCritical (runner_eq hrunner).1
        (fun _ _ => trivial) hcall)
    | mutexSetprioceiling id priority =>
      obtain rfl | hsection := (mutexSteps_onward t).rtMutexSetprioceiling h.rtEnterCritical hcall
      · exact ⟨h, .refl _, fun _ _ => rfl⟩
      · exact .of_section hsection
    | _ => cases hevent
  | proceed =>
    obtain ⟨t, hrunner, hgo⟩ := exec_proceed heq
    exact ⟨t, hrunner, proceed_onward h (hplace t) hgo⟩
  | _ => cases hevent

/-- Mutual exclusion, with the timers in order. -/
structure Tracked (k : State T) : Prop where
  excluded : ∃ tally, Excluded k tally
  timer : ∀ t, k.waits.InTime t
  fresh : ∀ t, k.waits.fresh t = true → k.pc t = .idle

namespace Tracked

omit [DecidableEq T] in
/-- The threads are in mutex calls or in none. -/
theorem mutexCalls (h : k.Tracked) : k.MutexCalls := by
  obtain ⟨tally, hexcl⟩ := h.excluded
  refine ⟨hexcl.queue, fun t => ⟨h.timer t, ?_, h.fresh t⟩⟩
  have hplace : ∀ {pc}, k.pc t = pc → (k.view t).PlaceOk pc → (k.view t).PlaceOk (k.pc t) :=
    fun hpc hok => hpc ▸ hok
  have htake : ∀ {id}, AtTake id (k.seat t) → (k.view t).MutexWait id → (k.view t).PlaceOk (k.pc t) := by
    rintro id ⟨-, hpc | hpc⟩ hwait
    · exact hplace hpc hwait
    · exact hplace hpc hwait
  cases hexcl.place t with
  | calm hpc hpending =>
    obtain hpc | ⟨ret, hpc⟩ := hpc
    · exact hplace hpc hpending
    · exact hplace hpc hpending
  | waiting id hat hsusp herror hpending | granted id hat hsusp herror hpending
  | failed id hat hsusp herror hpending =>
    exact htake hat (by constructor <;> simp_all [view, seat])
  | leaving ret hpc _ hsusp => exact hplace hpc hsusp

omit [DecidableEq T] in
/-- At start-up. -/
theorem booted (h : k.Booted) : k.Tracked := by
  refine ⟨⟨_, h.excluded⟩, fun t htrue => ?_, fun t _ => h.pc t⟩
  obtain ⟨priorityMax, priority, tick, -, -, hboot⟩ := h.sched
  rw [hboot] at htrue
  cases htrue

/-- One event of a run of the mutex functions. -/
theorem exec {e : KernelEvent T} (h : k.Tracked) (hevent : (mutexEvent e || backgroundEvent e) = true)
    (heq : exec fuel k e = some (k', ret)) : k'.Tracked := by
  have hcalls := h.mutexCalls
  obtain ⟨tally, hexcl⟩ := h.excluded
  have hexcl' : ∃ tally, Excluded k' tally := ⟨_, hexcl.exec hevent heq⟩
  rcases Bool.or_eq_true_iff.mp hevent with hmutex | hback
  · obtain ⟨t, hrunner, hstep⟩ := exec_onward hcalls.queue (fun t => (hcalls.thread t).place) hmutex heq
    refine ⟨hexcl', fun u => hstep.waits.timer u (h.timer u), fun u hu => ?_⟩
    have hfresh := hstep.waits.fresh u hu
    have hne : u ≠ t := by
      rintro rfl
      cases (view_of_running (runner_eq hrunner).2).2.symm.trans hfresh
    exact (hstep.pc u hne).trans (h.fresh u hfresh)
  · have hstep := exec_background hcalls.queue hback heq
    obtain ⟨-, hpc, hfresh, -⟩ := hstep.mono
    exact ⟨hexcl', fun u => hstep.onward.timer u (h.timer u), fun u hu => hpc ▸ h.fresh u (hfresh u hu)⟩

end Tracked

/-! ## The steps of the protocol -/

/-- Going on inside a call is a step of the protocol, for a thread that has not timed out. -/
theorem proceed_step (h : k.MutexCalls) (hgiven : ∀ id, k.pc t = .mutexWoken id → k.error t = rtEok)
    (heq : proceed fuel k t = some (k', ret)) : Locks.Step k.locks k'.locks := by
  have hplace : (k.view t).PlaceOk (k.pc t) := (h.thread t).place
  have hresched : ∀ {pc : Pc}, (∀ pending, pc.pending pending = (k.pc t).pending pending) →
      Locks.Step k.locks ((k.setPc t pc).onSched (·.rtSchedule)).locks := by
    intro pc hpc
    have hlocks := (locks_toSched (k := k.setPc t pc) h.queue.waits_rtSchedule).trans (locks_setPc hpc)
    exact hlocks ▸ Locks.Step.refl
  unfold proceed at heq
  generalize hpc : k.pc t = pc at hplace heq
  cases pc with
  | idle => cases heq
  | resched r | mutexResched id =>
    cases heq
    exact hresched fun _ => by rw [hpc]; rfl
  | mutexWoken id => exact mutexTakeWoken_given h.queue hpc (hgiven id hpc) heq
  | mutexClear r =>
    cases heq
    have hlocks : ((k.setPendingObject t none).setPc t .idle).locks = k.locks := by
      apply Locks.ext <;> try rfl
      funext u
      change (Function.update k.pc t .idle u).pending (Function.update k.pendingObject t none u) =
        (k.pc u).pending (k.pendingObject u)
      by_cases hu : u = t
      · rw [hu, update_self, update_self, hpc]
        rfl
      · rw [update_of_ne hu, update_of_ne hu]
    rw [hlocks]
    exact Locks.Step.refl
  | _ => exact hplace.elim

/-- Threads that are started and time are steps of the protocol, and the expiry of a timer is seen. -/
theorem background_step (h : k.MutexCalls) (hstep : Background k k') : Locks.Step k.locks k'.locks ∨
    Locks.TimedStep k.locks k'.locks ∧
      ∃ t, k.waits.timerFiring t = true ∨ k'.waits.timerFiring t = true := by
  cases hstep with
  | @unseen s tick hqueue hwaits =>
    have hlocks : ({ k with toSched := s, tick := tick }).locks = k.locks :=
      locks_congr hwaits rfl rfl fun _ => rfl
    exact .inl (hlocks ▸ Locks.Step.refl)
  | @start s t hqueue hfresh hwaits =>
    have hlocks : ({ k with toSched := s }).locks = { k.locks with
          suspended := Function.update k.locks.suspended t (!k.waits.canStop t) } := by
      unfold locks
      rw [hwaits]
      rfl
    rw [hlocks]
    exact .inl (Locks.Step.suspend _ (h.locks_pending_of_idle ((h.thread t).fresh hfresh)))
  | @due s t hqueue _ _ hwaits =>
    have hlocks : ({ k with toSched := s }).locks = k.locks.setFiring t true := by
      unfold locks
      rw [hwaits]
      rfl
    refine .inr ⟨hlocks ▸ Locks.TimedStep.due t, t, .inr ?_⟩
    simp [hwaits, Waits.timerDue]
  | @expire s t hqueue hfiring _ hwaits =>
    have hlocks : ({ k with toSched := s, error := Function.update k.error t (-rtEtimeout) }).locks =
        (k.locks.leave t).setFiring t false := by
      unfold locks
      rw [hwaits]
      rfl
    exact .inr ⟨hlocks ▸ Locks.TimedStep.expire t, t, .inl hfiring⟩

/-- An event without a timeout is a step of the protocol. -/
theorem exec_step (h : k.MutexCalls)
    (hexact : k.locks.Exact none none) (hfiring : ∀ u, k.waits.timerFiring u = false)
    (hevent : untimedEvent e = true)
    (hgiven : ∀ t id, e = .proceed → k.runner = some t → k.pc t = .mutexWoken id →
      k.error t = rtEok) (heq : exec fuel k e = some (k', ret)) : Locks.Step k.locks k'.locks := by
  by_cases hback : backgroundEvent e = true
  · obtain ⟨hstep, hsame⟩ := exec_untimed h.queue hback (by rintro t rfl; cases hevent)
      (by rintro t rfl; cases hevent) heq
    rcases background_step h hstep with hstep | ⟨-, t, hfire⟩
    · exact hstep
    · simp [hsame, hfiring] at hfire
  cases e with
  | call c =>
    obtain ⟨t, hcaller, heq⟩ := exec_call heq
    obtain ⟨hcur, hrunning, hidle⟩ := caller_eq hcaller
    cases c with
    | mutexTake id timeout => exact mutexTake_step h hexact hcur hrunning hidle heq
    | mutexRelease id => exact rtMutexRelease_step h hexact hcur hrunning hidle hfiring heq
    | startup | yield => exact absurd rfl hback
    | _ => cases hevent
  | proceed =>
    obtain ⟨t, hrunner, heq⟩ := exec_proceed heq
    exact proceed_step h (fun id => hgiven t id rfl hrunner) heq
  | isr c =>
    cases c with
    | startup => exact absurd rfl hback
    | _ => cases hevent
  | timerDue | timeout => cases hevent
  | _ => exact absurd rfl hback

/-- The runs in which no take times out. -/
def untimedSystem (T : Type*) [DecidableEq T] : Lib.TransitionSystem (State T) (KernelEvent T) :=
  (system T).guarded fun _ e => untimedEvent e = true

/-- When no take times out, the protocol is followed exactly in every reachable state. -/
theorem inheriting_of_untimed (h : (untimedSystem T).Reachable k) :
    k.Inheriting ∧ k.locks.Patient ∧ ∀ t, k.locks.firing t = false := by
  have hinv : k.Tracked ∧ k.locks.Exact none none ∧ k.locks.Patient ∧ ∀ t, k.locks.firing t = false := by
    apply h.invariant
    · intro k hk
      exact ⟨Tracked.booted hk, Booted.exact hk⟩
    · rintro k e k' ⟨htracked, hexact, hpatient, hfiring⟩ ⟨hevent, fuel, ret, heq⟩
      have hcalls := htracked.mutexCalls
      have hgiven : ∀ t id, e = .proceed → k.runner = some t → k.pc t = .mutexWoken id →
          k.error t = rtEok := by
        intro t id _ hrunner hpc
        by_contra herror
        have hpending : k.locks.pending t = some id := by
          change (k.pc t).pending (k.pendingObject t) = some id
          rw [hpc]
          exact (hcalls.mutexWait hpc).expired herror
        have htrue := hpatient t id hpending
        rw [show k.locks.suspended t = false from (view_of_running (runner_eq hrunner).2).1] at htrue
        cases htrue
      have hstep := exec_step hcalls hexact hfiring hevent hgiven heq
      have htimed : timedEvent e = true := by
        cases e <;> first | exact hevent | rfl
      exact ⟨htracked.exec (mutexEvent_of_timed htimed) heq, hstep.exact hexact, hstep.patient hpatient,
        hstep.firing ▸ hfiring⟩
  exact ⟨⟨hinv.1.mutexCalls, hinv.2.1⟩, hinv.2.2⟩

/-- Priority inheritance is exact in every state of every run in which no take times out: every
thread has the smallest of its own priority and those of its mutexes, every mutex has the smallest
priority of the threads that wait for it, the wait lists are in order of priority, and a mutex is
held exactly when it has an owner, whose list of taken mutexes alone contains it. -/
theorem priorityInheritance_exact (h : (untimedSystem T).Reachable k) : (∀ t, k.currentPriority t =
      leastKey (fun id => (k.mutex id).priority) (k.initPriority t) (k.takenObjectList t)) ∧
    (∀ id, (k.mutex id).priority = leastKey k.currentPriority 0xff (k.lists (.mutex id))) ∧
    (∀ id, SortedBy k.currentPriority (k.lists (.mutex id))) ∧
    (∀ id, (k.mutex id).owner ≠ none ↔ 0 < (k.mutex id).hold) ∧
    (∀ t id, id ∈ k.takenObjectList t ↔ (k.mutex id).owner = some t) := by
  obtain ⟨⟨-, hexact⟩, hpatient, -⟩ := inheriting_of_untimed h
  have hsorted : ∀ id, SortedBy k.currentPriority (k.lists (.mutex id)) :=
    Locks.sorted_none_iff.mp hexact.sorted
  refine ⟨fun t => hexact.inherits t (by simp), fun id => ?_, hsorted, hexact.owned.hold,
    hexact.owned.taken⟩
  rw [(hsorted id).leastKey_eq fun t _ => hexact.owned.bound t]
  exact hexact.first id (by simp) fun t => hpatient t id

/-- A run with a chain of two mutexes: thread 2 waits for a mutex of thread 1, which waits for one
of thread 0; the priority of thread 2 has reached thread 0. -/
theorem priorityInheritance_exact_chain : ∃ k : State (Fin 3), (untimedSystem (Fin 3)).Reachable k ∧
    k.lists (.mutex 0) = [1] ∧ k.lists (.mutex 1) = [2] ∧ k.currentPriority 0 = 5 ∧ k.currentPriority 0 =
      leastKey (fun id => (k.mutex id).priority) (k.initPriority 0) (k.takenObjectList 0) := by
  obtain ⟨k, hreach, hfirst, hsecond, hprio⟩ := exists_run (M := untimedSystem (Fin 3))
    (P := fun k => k.lists (.mutex 0) = [1] ∧ k.lists (.mutex 1) = [2] ∧ k.currentPriority 0 = 5)
    (fun _ e => untimedEvent e = true) 3 (boot 32 ![20, 10, 5] fun _ => 10)
    [.isr (.startup 0), .schedulerStart, .call (.mutexTake 0 (-1)), .call (.startup 1),
      .call (.mutexTake 1 (-1)), .call (.mutexTake 0 (-1)), .call (.startup 2), .call (.mutexTake 1 (-1))]
    booted_boot (fun _ _ _ hok h => ⟨hok, h⟩)
  exact ⟨k, hreach, hfirst, hsecond, hprio, (priorityInheritance_exact hreach).1 0⟩

/-- No deadlock without a break of the lock order, whatever the order is: when no take times out and every
thread waits for a mutex of a larger rank than those it holds, some owner that is waited for does not wait. -/
theorem owner_runs_of_rank [Finite T] (h : (untimedSystem T).Reachable k) {rank : ℕ → ℕ}
    (hrank : ∀ u, ∀ id ∈ k.locks.pending u, ∀ held ∈ k.takenObjectList u, rank held < rank id)
    (hwait : t ∈ k.lists (.mutex id)) : ∃ u id', (k.mutex id').owner = some u ∧ k.lists (.mutex id') ≠ [] ∧
      ∀ id, u ∉ k.lists (.mutex id) := by
  obtain ⟨⟨-, hexact⟩, hpatient, -⟩ := inheriting_of_untimed h
  have hpending : ∀ {u id}, u ∈ k.lists (.mutex id) → k.locks.pending u = some id := fun hu =>
    ((hexact.owned.waiting _ _).mp hu).2
  -- a thread that waits for a mutex of the largest rank
  have : Nonempty T := ⟨t⟩
  obtain ⟨w, hmax⟩ := Finite.exists_max fun u => (k.locks.pending u).elim 0 (rank · + 1)
  cases hw : k.locks.pending w with
  | none => simpa [hpending hwait, hw] using hmax t
  | some id' =>
    have hlist : k.lists (.mutex id') ≠ [] :=
      List.ne_nil_of_mem ((hexact.owned.waiting w id').mpr ⟨hpatient w id' hw, hw⟩)
    obtain ⟨u, hu⟩ := Option.ne_none_iff_exists'.mp (hexact.served id' nofun hlist)
    refine ⟨u, id', hu, hlist, fun id₁ hu₁ => ?_⟩
    have hle : rank id₁ ≤ rank id' := by simpa [hpending hu₁, hw] using hmax u
    have hlt := hrank u id₁ (hpending hu₁) id' ((hexact.owned.taken u id').mpr hu)
    omega

/-- Thread 2 waits for a mutex of thread 1, which waits for one of thread 0. -/
theorem owner_runs_of_rank_chain : ∃ k : State (Fin 3), (untimedSystem (Fin 3)).Reachable k ∧
    (∀ u, ∀ id ∈ k.locks.pending u, ∀ held ∈ k.takenObjectList u, held < id) ∧ 2 ∈ k.lists (.mutex 0) ∧
    ∃ u id', (k.mutex id').owner = some u ∧ k.lists (.mutex id') ≠ [] ∧ ∀ id, u ∉ k.lists (.mutex id) :=
  TransitionSystem.Reachable.exists_and₂ (exists_run (fun _ e => untimedEvent e = true) 3
    (boot 32 ![20, 10, 5] fun _ => 10) [.isr (.startup 0), .schedulerStart, .call (.mutexTake 1 (-1)),
      .call (.startup 1), .call (.mutexTake 0 (-1)), .call (.mutexTake 1 (-1)), .call (.startup 2),
      .call (.mutexTake 0 (-1))] booted_boot (fun _ _ _ hok h => ⟨hok, h⟩))
    fun _ hreach hrank hwait => owner_runs_of_rank hreach hrank hwait

/-- The event is the timeout of a thread. -/
def isTimeoutOf (u : T) : KernelEvent T → Bool
  | .timeout t => t = u
  | _ => false

/-- The events of a run with timeouts, where the two steps of an expiry are not separated: while a
timer is firing, only its `_thread_timeout` can come next. -/
def TimedOk (k : State T) (e : KernelEvent T) : Prop :=
  timedEvent e = true ∧ ∀ u, k.timerFiring u = true → isTimeoutOf u e = true

/-- Conditions on finitely many threads can be evaluated. -/
instance [Fintype T] (k : State T) (e : KernelEvent T) : Decidable (TimedOk k e) :=
  inferInstanceAs (Decidable (_ ∧ _))

/-- The thread that gives up in this event, and its mutex. -/
def givesUp (k : State T) : KernelEvent T → Option (T × ℕ)
  | .proceed => k.runner.bind fun t =>
    match k.pc t with
    | .mutexWoken id => if k.error t = rtEok then none else some (t, id)
    | _ => none
  | _ => none

/-- When a thread gives up in this event, it is in order. -/
def GivesUpOk (k : State T) (e : KernelEvent T) : Prop := ∀ p ∈ k.givesUp e, k.GiveUpOk p.1 p.2

/-- Whether a thread gives up in order can be evaluated. -/
instance (k : State T) (e : KernelEvent T) : Decidable (GivesUpOk k e) :=
  inferInstanceAs (Decidable (∀ p ∈ _, _))

/-- The runs of the mutex functions with timeouts. -/
def timedSystem (T : Type*) [DecidableEq T] : Lib.TransitionSystem (State T) (KernelEvent T) :=
  (system T).guarded TimedOk

/-- An event with timeouts is a step of the protocol. -/
theorem exec_timedStep (h : k.MutexCalls) (hexact : k.locks.Exact none none)
    (hevent : TimedOk k e) (hgive : GivesUpOk k e) (heq : exec fuel k e = some (k', ret)) :
    Locks.TimedStep k.locks k'.locks := by
  by_cases hback : backgroundEvent e = true
  · rcases background_step h (exec_background h.queue hback heq) with hstep | ⟨hstep, -⟩
    · exact .untimed hstep
    · exact hstep
  have hfiring : ∀ u, k.waits.timerFiring u = false := by
    intro u
    by_contra hfire
    have hthis := hevent.2 u (Bool.eq_true_of_not_eq_false hfire)
    cases e with
    | timeout t => exact hback rfl
    | _ => cases hthis
  have huntimed : untimedEvent e = true := by
    have hkind := hevent.1
    cases e with
    | timerDue t | timeout t => exact absurd rfl hback
    | _ => exact hkind
  by_cases hgiven : ∀ t id, e = .proceed → k.runner = some t → k.pc t = .mutexWoken id → k.error t = rtEok
  · exact .untimed (exec_step h hexact hfiring huntimed hgiven heq)
  · push Not at hgiven
    obtain ⟨t, id, rfl, hrunner, hpc, herror⟩ := hgiven
    obtain ⟨t', hrunner', heq⟩ := exec_proceed heq
    obtain rfl : t = t' := Option.mem_unique hrunner hrunner'
    have hok := hgive (t, id) (by simp [givesUp, hrunner, hpc, herror])
    have hsusp := (view_of_running (runner_eq hrunner).2).1
    unfold proceed at heq
    rw [hpc] at heq
    exact mutexTakeWoken_giveUp h hexact hsusp hpc herror hok heq

/-- The protocol is followed exactly in every run in which giving up is always in order. -/
theorem inheriting_of_timed (h : ((timedSystem T).guarded GivesUpOk).Reachable k) : k.Inheriting := by
  have hinv : k.Tracked ∧ k.locks.Exact none none := by
    apply h.invariant
    · intro k hk
      exact ⟨Tracked.booted hk, (Booted.exact hk).1⟩
    · rintro k e k' ⟨htracked, hexact⟩ ⟨hgive, hevent, fuel, ret, heq⟩
      have hstep := exec_timedStep htracked.mutexCalls hexact hevent hgive heq
      exact ⟨htracked.exec (mutexEvent_of_timed hevent.1) heq, hstep.exact hexact⟩
  exact ⟨hinv.1.mutexCalls, hinv.2⟩

/-- A take has succeeded, is suspended or has completed its give-up path. -/
def settledAt (k : State T) (t : T) : Pc → Bool
  | .mutexResched id => k.isSuspended t || (k.mutex id).owner = some t
  | .mutexWoken id => k.isSuspended t || (k.mutex id).owner = some t
  | .mutexClear _ => false
  | _ => true

/-- No leaked boost: a thread that holds no mutex has its own priority, in every state of every run
in which giving up is always in order. -/
theorem priority_eq_of_taken_nil (h : ((timedSystem T).guarded GivesUpOk).Reachable k)
    (htaken : k.takenObjectList t = []) : k.currentPriority t = k.initPriority t := by
  have hinherits : k.locks.current t = k.locks.inherited t :=
    (inheriting_of_timed h).exact.inherits t (by simp)
  rw [Locks.inherited, show k.locks.taken t = [] from htaken] at hinherits
  exact hinherits

/-- A thread gives up and the owner falls back to its own priority; then the owner releases. -/
theorem priority_eq_of_taken_nil_timeout : ∃ k : State (Fin 2),
    ((timedSystem (Fin 2)).guarded GivesUpOk).Reachable k ∧ k.takenObjectList 0 = [] ∧
    k.currentPriority 0 = k.initPriority 0 :=
  TransitionSystem.Reachable.exists_and (exists_run
    (fun k e => GivesUpOk k e ∧ TimedOk k e) 2 (boot 32 ![20, 15] fun _ => 10)
    [.isr (.startup 0), .schedulerStart, .call (.mutexTake 0 (-1)), .call (.startup 1),
      .call (.mutexTake 0 7), .timerDue 1, .timeout 1, .call .yield, .proceed, .proceed, .proceed,
      .dispatch 0, .call (.mutexRelease 0)] booted_boot
    (fun _ _ _ hok h => ⟨hok.1, hok.2, h⟩)) fun _ hreach htaken =>
    priority_eq_of_taken_nil hreach htaken

/-- A leaked boost. Thread 1 waits for mutex 0 of thread 0 and times out; before it gives up, thread
2 waits for its mutex 1 and raises it from 15 to 5. Giving up, it finds the owner at another priority
and leaves it at 15; the release of mutex 0 then finds another priority in the mutex and leaves the
owner at 15, too. Thread 3 only serves to suspend the threads of higher priority. -/
theorem leakedBoost : ∃ k : State (Fin 4), (timedSystem (Fin 4)).Reachable k ∧
    (∀ t, k.settledAt t (k.pc t) = true) ∧ k.takenObjectList 0 = [] ∧ k.currentPriority 0 = 15 ∧
    k.initPriority 0 = 20 :=
  exists_run TimedOk 4 (boot 32 ![20, 15, 5, 30] fun _ => 10)
    [.isr (.startup 3), .schedulerStart, .call (.mutexTake 2 (-1)), .call (.startup 0),
      .call (.mutexTake 0 (-1)), .call (.startup 1), .call (.mutexTake 1 (-1)), .call (.mutexTake 0 7),
      .timerDue 1, .timeout 1, .call (.startup 2), .call (.mutexTake 1 (-1)), .proceed, .proceed,
      .proceed, .call (.mutexTake 2 (-1)), .call (.mutexTake 1 (-1)), .call (.mutexRelease 0)]
    booted_boot (fun _ _ _ hok h => ⟨hok, h⟩)

end State

end RtThread.Kernel
