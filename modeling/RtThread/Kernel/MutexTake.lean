import RtThread.Kernel.MutexView

/-!
# Taking a mutex follows the protocol

`rt_mutex_take` up to its suspension, and after it: the thread was given the mutex, or it has timed
out and gives up. `GiveUpOk` is the condition under which giving up leaves inheritance exact.
-/

namespace RtThread.Kernel.State

open Function Option Waits

variable {T : Type*} [DecidableEq T] {k k' : State T} {t : T} {id : ℕ}
variable {fuel : ℕ} {ret : Option ℤ} {suspendFlag : SuspendFlag}

/-- A thread has been suspended on a mutex: the protocol's `enter`. -/
theorem suspendOn_locks {s : Sched T} (hqueue : k.ReadyQueue) (hidle : k.pc t = .idle)
    (hs : k.rtThreadSuspendToList t (some (.mutex id)) .prio suspendFlag = some (s, true)) :
    k.locks.suspended t = false ∧
    (({ k with toSched := s }).setPendingObject t (some id)).locks = k.locks.enter t id := by
  obtain ⟨hsusp, hwaits⟩ := hqueue.waits_rtThreadSuspendToList rfl hs
  rw [timerStop_eq] at hwaits
  refine ⟨hsusp, ?_⟩
  refine Locks.ext (congrArg initPriority hwaits :) (congrArg currentPriority hwaits :)
    (congrArg suspended hwaits :) (congrArg timerFiring hwaits :) (funext fun id' => ?_) rfl rfl
    (funext fun u => ?_)
  · refine (congrArg (waiting · (.mutex id')) hwaits).trans ?_
    simp only [link, Locks.enter, update_apply, ListHead.mutex.injEq]
    split_ifs <;> rfl
  · change (k.pc u).pending (update k.pendingObject t (some id) u) = update k.locks.pending t (some id) u
    rw [update_apply, update_apply]
    split_ifs with hu
    · rw [hu, hidle]
      rfl
    · rfl

/-- The mutex notes the priority of a thread that has started to wait, and the owner inherits it. -/
theorem noteWaiter_step {k1 k2 : State T} (hqueue : k1.ReadyQueue)
    (hshown : k1.PendingShown) (hexact : k.locks.Exact none none) (hsusp : k.locks.suspended t = false)
    (hpending : k.locks.pending t = none) {o : T} (howner : (k.mutex id).owner = some o)
    (hlocks : k1.locks = k.locks.enter t id) (heq : noteWaiter fuel k1 t id = some k2) :
    Locks.Step k.locks k2.locks := by
  have hmutex : k1.mutex = k.mutex := congrArg Locks.mutex hlocks
  have hcurrent : k1.currentPriority = k.currentPriority := congrArg Locks.current hlocks
  unfold noteWaiter at heq
  dsimp only at heq
  rw [hmutex, hcurrent] at heq
  split at heq
  next hlt =>
    have hnote : (k1.setMutex id ((k.mutex id).withPriority (k.currentPriority t))).locks =
        (k.locks.enter t id).note t id := by
      rw [show (k1.setMutex id ((k.mutex id).withPriority (k.currentPriority t))).locks =
        k1.locks.setMutex id ((k.mutex id).withPriority (k.currentPriority t)) from rfl, hlocks]
      rfl
    have hrep : Repriced k1 (k1.setMutex id ((k.mutex id).withPriority (k.currentPriority t))) :=
      ⟨hqueue, fun _ => rfl⟩
    have howner' : ((k1.setMutex id ((k.mutex id).withPriority (k.currentPriority t))).mutex
        id).owner = some o := by
      simp [setMutex, Mutex.withPriority, howner]
    rw [howner'] at heq
    have hcurrent' : (k1.setMutex id ((k.mutex id).withPriority (k.currentPriority t))).currentPriority
      = k.currentPriority := hcurrent
    rw [hcurrent'] at heq
    dsimp only at heq
    split at heq
    next hlow =>
      have henter := hexact.enter hsusp hpending howner
      have hinherited := hexact.inherited_enter hsusp howner
      rw [← Locks.note_enter k.locks t (le_of_lt hlt), ← hnote] at henter hinherited
      rw [min_eq_right (show k.locks.current t ≤ k.locks.current o from le_of_lt hlow)] at hinherited
      have hspread := threadUpdatePriority_spread hrep.queue (hshown.repriced hrep) henter
        hinherited.symm heq
      rw [hnote] at hspread
      exact Locks.Step.waitSpread hsusp hpending howner hlt hlow hspread
    next hlow =>
      cases heq
      rw [hnote]
      exact Locks.Step.waitNote hsusp hpending howner hlt (Nat.le_of_not_lt hlow)
  next hle =>
    cases heq
    rw [hlocks]
    exact Locks.Step.wait hsusp hpending (ne_none_iff_exists'.mpr ⟨o, howner⟩)
      (Nat.le_of_not_lt hle)

/-- The waiting part of `rt_mutex_take` is a step of the protocol. -/
theorem mutexSuspend_step {timeout : ℤ} (hqueue : k.ReadyQueue) (hshown : k.PendingShown)
    (hexact : k.locks.Exact none none) (hrunning : (k.stat t).code = .running)
    (hidle : k.pc t = .idle) (hpending : k.locks.pending t = none) (howner : (k.mutex id).owner ≠ none)
    (heq : mutexSuspend fuel k t id timeout suspendFlag = some (k', ret)) :
    Locks.Step k.locks k'.locks := by
  obtain ⟨⟨s, ok⟩, hs, heq⟩ := bind_eq_some_iff.mp heq
  dsimp only at heq
  cases ok with
  | false =>
    obtain ⟨-, ⟨-, -, hcode⟩ | ⟨hok, -⟩⟩ := hqueue.rtThreadSuspendToList_eq hs
    · exact absurd hrunning hcode
    · cases hok
  | true =>
    obtain ⟨k2, hk2, heq⟩ := map_eq_some_iff.mp heq
    obtain ⟨hsusp, hlocks1⟩ := suspendOn_locks hqueue hidle hs
    have hqueue1 : s.ReadyQueue := hqueue.rtThreadSuspendToList (by simp [ListHead.isWait]) hs
    have hshown1 : (({ k with toSched := s }).setPendingObject t (some id)).PendingShown := by
      intro u hu
      change (({ k with toSched := s }).setPendingObject t (some id)).locks.suspended u = true at hu
      rw [hlocks1] at hu ⊢
      change update k.locks.pending t (some id) u = update k.pendingObject t (some id) u
      by_cases hut : u = t
      · rw [hut, update_self, update_self]
      · rw [update_of_ne hut, update_of_ne hut]
        exact hshown u ((update_of_ne hut ..).symm.trans hu)
    have hprio := passesOn_reprioritized.noteWaiter hqueue1 hk2
    have hidle2 : k2.pc t = .idle := by
      rw [hprio.frame]
      exact hidle
    obtain ⟨o, howner⟩ := ne_none_iff_exists'.mp howner
    have hstep := noteWaiter_step hqueue1 hshown1 hexact hsusp hpending howner hlocks1 hk2
    cases heq
    refine step_rtExitCritical (startTimerIf_queue hprio.queue t timeout) ?_
    rw [locks_setPc, locks_startTimerIf]
    · exact hstep
    · intro pending
      rw [show (k2.startTimerIf t timeout).pc = k2.pc from startTimerIf_pc .., hidle2]
      rfl

/-- `rt_mutex_take`, up to its return or its suspension, is a step of the protocol. -/
theorem mutexTake_step {timeout : ℤ}
    (h : k.MutexCalls) (hexact : k.locks.Exact none none) (hcur : k.current = some t)
    (hrunning : (k.stat t).code = .running) (hidle : k.pc t = .idle)
    (heq : mutexTake fuel k id timeout suspendFlag = some (k', ret)) : Locks.Step k.locks k'.locks := by
  unfold mutexTake at heq
  rw [hcur] at heq
  dsimp only at heq
  have hqueue0 := h.queue.rtEnterCritical
  have hlocks0 : ((k.onSched (·.rtEnterCritical)).setError t rtEok).locks = k.locks := rfl
  rw [← hlocks0] at hexact ⊢
  split at heq
  · -- the thread has the mutex
    rename_i howner
    split at heq
    · cases heq
      refine step_rtExitCritical hqueue0 (Locks.Step.count ?_ (Nat.succ_pos _))
      exact ne_of_eq_of_ne howner (some_ne_none t)
    · cases heq
      exact step_rtExitCritical hqueue0 Locks.Step.refl
  · split at heq
    · -- the mutex is free
      rename_i hfree
      rw [if_neg fun hlow => hlow.1 (hexact.owned.ceiling id)] at heq
      cases heq
      exact step_rtExitCritical hqueue0 (Locks.Step.acquire hfree)
    next howned =>
      split at heq
      · cases heq
        exact step_rtExitCritical hqueue0 Locks.Step.refl
      · refine mutexSuspend_step hqueue0 h.shown hexact hrunning hidle ?_ howned heq
        exact h.locks_pending_of_idle hidle

/-- A thread that was given its mutex returns. -/
theorem mutexTakeWoken_given (hqueue : k.ReadyQueue) (hpc : k.pc t = .mutexWoken id)
    (herror : k.error t = rtEok) (heq : mutexTakeWoken fuel k t id = some (k', ret)) :
    Locks.Step k.locks k'.locks := by
  unfold mutexTakeWoken at heq
  rw [if_pos (show (k.onSched (·.rtEnterCritical)).error t = rtEok from herror)] at heq
  split at heq
  · cases heq
    refine step_rtExitCritical hqueue.rtEnterCritical ?_
    rw [locks_setPc]
    · exact Locks.Step.refl
    · intro pending
      rw [show (k.onSched (·.rtEnterCritical)).pc = k.pc from rfl, hpc]
      rfl
  · cases heq

/-- Giving up is in order: the owner's priority is recomputed, or has no reason to change. -/
def GiveUpOk (k : State T) (t : T) (id : ℕ) : Prop :=
  ∀ o ∈ (k.mutex id).owner, k.currentPriority o = k.currentPriority t ∨
    (k.mutexUpdatePriority id).threadGetMutexPriority o = k.currentPriority o

/-- Whether giving up is in order can be evaluated. -/
instance (k : State T) (t : T) (id : ℕ) : Decidable (k.GiveUpOk t id) :=
  inferInstanceAs (Decidable (∀ o ∈ _, _))

/-- A thread that has given up has no pending mutex in the view. -/
theorem locks_setPc_mutexClear (k : State T) (t : T) (ret : ℤ) :
    (k.setPc t (.mutexClear ret)).locks = k.locks.forget t := by
  apply Locks.ext <;> try rfl
  funext u
  change (update k.pc t (.mutexClear ret) u).pending (k.pendingObject u) = update k.locks.pending t none u
  rw [update_apply, update_apply]
  split_ifs <;> rfl

/-- The clean-up of a thread that has timed out. -/
theorem giveUp_step {k2 : State T} (hqueue : k.ReadyQueue) (hshown : k.PendingShown)
    (hexact : k.locks.Exact none none)
    (hsusp : k.locks.suspended t = false) (hpending : k.locks.pending t = some id)
    (hok : k.GiveUpOk t id) (heq : giveUp fuel k t id = some k2) :
    Locks.TimedStep k.locks (k2.locks.forget t) := by
  have hlocks := locks_mutexUpdatePriority k id
  have hrep : Repriced k (k.mutexUpdatePriority id) := ⟨hqueue, fun _ => rfl⟩
  have hmid := hexact.refresh id
  have hplain := hmid.owned
  rw [← hlocks] at hmid hplain
  have hget : ∀ o, (k.mutexUpdatePriority id).threadGetMutexPriority o =
      (k.mutexUpdatePriority id).locks.inherited o :=
    fun o => threadGetMutexPriority_eq hplain.ceiling hplain.mutexBound o
  unfold giveUp at heq
  split at heq
  next o howner =>
    rw [show (k.locks.mutex id).owner = some o from howner] at hmid
    have hsame : k.locks.current o = (k.locks.refresh id).inherited o →
        Locks.TimedStep k.locks ((k.locks.refresh id).forget t) := by
      intro hcur
      refine Locks.TimedStep.giveUp hsusp hpending ?_
      intro o' ho'
      obtain rfl : o = o' := mem_unique howner ho'
      exact hcur
    dsimp only at heq
    split at heq
    · split at heq
      · have hspread := threadUpdatePriority_spread hrep.queue (hshown.repriced hrep) hmid (hget o) heq
        refine Locks.TimedStep.giveUpSpread hsusp hpending howner ?_
        rw [hget o, hlocks] at hspread
        exact hspread.forget hsusp
      next hcur =>
        cases heq
        rw [hlocks]
        apply hsame
        rw [← hlocks, ← hget o]
        exact (not_not.mp hcur).symm
    next hneed =>
      cases heq
      rw [hlocks]
      apply hsame
      rcases hok o howner with hcur | hcur
      · exact absurd hcur (by simpa using hneed)
      · rw [← hlocks, ← hget o]
        exact hcur.symm
  next howner =>
    cases heq
    rw [hlocks]
    refine Locks.TimedStep.giveUp hsusp hpending ?_
    intro o ho
    rw [show (k.locks.mutex id).owner = none from howner] at ho
    cases ho

/-- A thread that has timed out gives up. -/
theorem mutexTakeWoken_giveUp (h : k.MutexCalls) (hexact : k.locks.Exact none none)
    (hsusp : k.locks.suspended t = false) (hpc : k.pc t = .mutexWoken id)
    (herror : k.error t ≠ rtEok) (hok : k.GiveUpOk t id)
    (heq : mutexTakeWoken fuel k t id = some (k', ret)) : Locks.TimedStep k.locks k'.locks := by
  have hpending : k.locks.pending t = some id := by
    change (k.pc t).pending (k.pendingObject t) = some id
    rw [hpc]
    exact (h.mutexWait hpc).expired herror
  unfold mutexTakeWoken at heq
  rw [if_neg (show ¬ (k.onSched (·.rtEnterCritical)).error t = rtEok from herror)] at heq
  split_ifs at heq
  obtain ⟨k2, hk2, heq⟩ := map_eq_some_iff.mp heq
  have hqueue0 : (k.onSched (·.rtEnterCritical)).ReadyQueue := h.queue.rtEnterCritical
  have hqueue2 : ∀ pc, (k2.setPc t pc).ReadyQueue :=
    fun _ => (passesOn_reprioritized.giveUp hqueue0 hk2).queue
  have hstep := giveUp_step hqueue0 h.shown hexact hsusp hpending hok hk2
  cases heq
  rw [locks_rtExitCritical (hqueue2 _), locks_setPc_mutexClear]
  exact hstep

end RtThread.Kernel.State
