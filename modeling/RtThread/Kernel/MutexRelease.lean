import RtThread.Kernel.MutexView

/-!
# Releasing a mutex follows the protocol

The last `rt_mutex_release` frees the mutex or hands it to the first waiting thread.
-/

namespace RtThread.Kernel.State

open Lib Function Option Waits

variable {T : Type*} [DecidableEq T] {k k' : State T} {t : T} {id : ℕ}

/-- The wake-up of `rt_mutex_release`, when no timer is just expiring: the first waiting thread. -/
theorem releaseWake_cases {s s' : Sched T} {next : Option T} (hqueue : s.ReadyQueue)
    (hstop : ∀ u, s.waits.suspended u = true → s.waits.canStop u = true)
    (heq : releaseWake id (s.lists (.mutex id)).length s = some (s', next)) :
    s'.ReadyQueue ∧ ((s.waits.waiting (.mutex id) = [] ∧ next = none ∧ s' = s) ∨
      ∃ n rest, s.waits.waiting (.mutex id) = n :: rest ∧ next = some n ∧
        s'.waits = (s.waits.timerStop n).wake n) := by
  rw [Sched.waits_waiting rfl]
  cases hlist : s.lists (.mutex id) with
  | nil =>
    rw [hlist] at heq
    obtain ⟨rfl, rfl⟩ : s = s' ∧ none = next := by simpa [releaseWake] using heq
    exact ⟨hqueue, .inl ⟨rfl, rfl, rfl⟩⟩
  | cons n rest =>
    have hsusp : s.isSuspended n = true :=
      (hqueue.queue.wait n (.mutex id) rfl (by simp [hlist])).2
    have hremove := hqueue.listRemove hsusp
    rw [hlist, List.length_cons, releaseWake, hlist] at heq
    dsimp only at heq
    rw [if_pos hsusp] at heq
    obtain ⟨hok, hwaits⟩ := Sched.waits_rtSchedThreadReady (s.listRemove n) n
    have hcan : (s.listRemove n).waits.canStop n = true := hstop n hsusp
    have hsusp' : (s.listRemove n).waits.suspended n = true := hsusp
    rw [hcan, hsusp', Bool.true_and] at hok
    rw [if_pos hok] at heq
    obtain ⟨rfl, rfl⟩ : _ = s' ∧ some n = next := by simpa using heq
    refine ⟨hremove.rtSchedThreadReady n, .inr ⟨n, rest, rfl, rfl, ?_⟩⟩
    rw [hwaits, if_pos hsusp', if_pos hcan, Sched.waits_listRemove, timerStop_eq, timerStop_eq]
    simp only [wake, unlink, List.filter_filter, Bool.and_self]

/-- `_check_and_update_prio` in `rt_mutex_release`: the protocol's `letGo`, but for the owner, which
is still written in the mutex. -/
theorem checkAndUpdatePrio_locks {k1 k2 : State T} {needSchedule : Bool} (hqueue : k.ReadyQueue)
    (howned : k.locks.Owned) (hk1 : k1 = (k.setMutex id { k.mutex id with hold := 0 }).takenRemove id)
    (heq : k1.checkAndUpdatePrio t id = some (k2, needSchedule)) :
    k2.mutex id = { k.mutex id with hold := 0 } ∧
    k2.locks.setMutex id { k2.mutex id with owner := none } = k.locks.letGo t id := by
  have hself : k1.mutex id = { k.mutex id with hold := 0 } := by
    rw [hk1]
    exact update_self ..
  have hother : ∀ {id'}, id' ≠ id → k1.mutex id' = k.mutex id' := by
    intro id' hid
    rw [hk1]
    exact update_of_ne hid ..
  have hdrop : k1.locks.setMutex id { k1.mutex id with owner := none } = k.locks.drop id := by
    rw [hself, hk1]
    apply Locks.ext <;> try rfl
    exact update_idem ..
  have hqueue1 : k1.ReadyQueue := by
    rw [hk1]
    exact hqueue
  have hinherited : k1.locks.inherited t = (k.locks.drop id).inherited t := by
    rw [← hdrop]
    apply leastKey_congr
    intro id' hid'
    by_cases hid : id' = id
    · rw [hid, Locks.setMutex_self]
      rfl
    · rw [Locks.setMutex_of_ne _ _ hid]
  have hplain : ∀ id', (k1.mutex id').ceilingPriority = 0xff ∧ (k1.mutex id').priority ≤ 0xff := by
    intro id'
    by_cases hid : id' = id
    · rw [hid, hself]
      exact ⟨howned.ceiling id, howned.mutexBound id⟩
    · rw [hother hid]
      exact ⟨howned.ceiling id', howned.mutexBound id'⟩
  have hcurrent : k1.currentPriority t = k.currentPriority t := by rw [hk1]; rfl
  unfold checkAndUpdatePrio at heq
  unfold Locks.letGo
  rw [threadGetMutexPriority_eq (fun id => (hplain id).1) (fun id => (hplain id).2), hinherited,
    (hplain id).1, hcurrent, hself] at heq
  split at heq
  next hsame =>
    obtain ⟨k3, hk3, heq⟩ := map_eq_some_iff.mp heq
    obtain rfl : k3 = k2 := (Prod.mk.inj heq).1
    have hlocks := changePriority_locks hqueue1 hk3
    have hmutex : k3.mutex = k1.mutex := congrArg Locks.mutex hlocks
    refine ⟨by rw [hmutex, hself], ?_⟩
    rw [if_pos (show k.locks.current t = (k.locks.mutex id).priority from
      hsame.resolve_left (by simp)), hlocks, hmutex]
    exact congrArg (·.setPriority t ((k.locks.drop id).inherited t)) hdrop
  next hsame =>
    obtain rfl : k1 = k2 := (Prod.mk.inj (some.inj heq)).1
    refine ⟨hself, ?_⟩
    rw [if_neg (show ¬ k.locks.current t = (k.locks.mutex id).priority from
      fun hprio => hsame (.inr hprio))]
    exact hdrop

/-- The woken thread becomes the owner: the protocol's `give`. -/
theorem setNewOwner_locks (k : State T) {s : Sched T} {n : T} (id : ℕ)
    (hwaits : s.waits = (k.waits.timerStop n).wake n) :
    (({ k with toSched := s }).setNewOwner n id).locks =
      (k.locks.setMutex id { k.mutex id with owner := none }).give n id := by
  rw [timerStop_eq] at hwaits
  have hwaiting : ∀ id', s.waits.waiting (.mutex id') = (k.locks.waiting id').filter (· ≠ n) := by
    intro id'
    rw [hwaits]
    rfl
  have hcurrent : s.waits.currentPriority = k.locks.current := by
    rw [hwaits]
    rfl
  rw [setNewOwner, locks_mutexUpdatePriority]
  apply Locks.ext
  case firing =>
    change s.waits.timerFiring = _
    rw [hwaits]
    rfl
  case init =>
    change s.waits.initPriority = _
    rw [hwaits]
    rfl
  case current => exact hcurrent
  case suspended =>
    change s.waits.suspended = _
    rw [hwaits]
    rfl
  case waiting =>
    funext id'
    exact hwaiting id'
  case taken => rfl
  case pending =>
    funext u
    change (k.pc u).pending (update k.pendingObject n none u) = update k.locks.pending n none u
    by_cases hu : u = n
    · rw [hu, update_self, update_self]
      cases k.pc n <;> rfl
    · rw [update_of_ne hu, update_of_ne hu]
      rfl
  case mutex =>
    funext id'
    by_cases hid : id' = id
    · subst hid
      rw [Locks.refresh, Locks.setMutex_self]
      change Mutex.withPriority (update k.mutex id' _ id')
        (firstKey s.waits.currentPriority 0xff (s.waits.waiting (.mutex id'))) = _
      rw [update_self, hcurrent, hwaiting]
      refine Eq.trans ?_ (Locks.own_self ..).symm
      rw [show (Locks.leave (k.locks.setMutex id' { k.mutex id' with owner := none }) n).mutex id' =
        { k.mutex id' with owner := none } from update_self ..]
      rfl
    · rw [Locks.refresh, Locks.setMutex_of_ne _ _ hid]
      refine Eq.trans ?_ (Locks.own_of_ne _ _ _ hid).symm
      refine (update_of_ne hid ..).trans ?_
      exact (update_of_ne hid ..).symm

/-- The rest of `rt_mutex_release`: the mutex is freed or handed over. -/
theorem releaseLast_step {needSchedule : Bool} (hqueue : k.ReadyQueue) (hexact : k.locks.Exact none none)
    (ht : k.locks.suspended t = false) (howner : (k.mutex id).owner = some t)
    (hstop : ∀ u, k.waits.suspended u = true → k.waits.canStop u = true)
    (heq : (k.setMutex id { k.mutex id with hold := 0 }).releaseLast t id = some (k', needSchedule)) :
    k'.ReadyQueue ∧ Locks.Step k.locks k'.locks ∧ k'.pc = k.pc := by
  obtain ⟨⟨k2, need⟩, hk2, heq⟩ := bind_eq_some_iff.mp heq
  have hprio := passesOn_reprioritized.checkAndUpdatePrio
    (show ((k.setMutex id { k.mutex id with hold := 0 }).takenRemove id).ReadyQueue from hqueue) hk2
  have hpc : k2.pc = k.pc := by rw [hprio.frame]; rfl
  obtain ⟨hself, hlet⟩ := checkAndUpdatePrio_locks hqueue hexact.owned rfl hk2
  obtain ⟨⟨s, next⟩, hs, heq⟩ := map_eq_some_iff.mp heq
  have hstop2 : ∀ u, k2.waits.suspended u = true → k2.waits.canStop u = true := by
    intro u hu
    have hset : k2.waits.ttmrSet u = k.waits.ttmrSet u := congrArg ThreadView.ttmrSet (hprio.view u)
    have hactive : k2.waits.timerActive u = k.waits.timerActive u :=
      congrArg ThreadView.timerActive (hprio.view u)
    rw [canStop, hset, hactive]
    exact hstop u ((congrArg ThreadView.suspended (hprio.view u)).symm.trans hu)
  have hwaiting : k2.waits.waiting (.mutex id) = k.locks.waiting id := by
    have hcongr := congrFun (congrArg Locks.waiting hlet) id
    rw [Locks.letGo_waiting] at hcongr
    exact hcongr
  obtain ⟨hqueue', ⟨hempty, rfl, rfl⟩ | ⟨n, rest, hcons, rfl, hwaits⟩⟩ :=
    releaseWake_cases hprio.queue hstop2 hs
  · cases heq
    refine ⟨hqueue', ?_, hpc⟩
    have hstep := Locks.Step.free ht howner (hwaiting.symm.trans hempty)
    rw [← hlet, Locks.setMutex_self, Locks.setMutex_setMutex] at hstep
    exact hstep
  · cases heq
    refine ⟨hqueue', ?_, hpc⟩
    have hstep := Locks.Step.handOver ht howner (hwaiting.symm.trans hcons)
    rw [← hlet, ← setNewOwner_locks k2 id hwaits] at hstep
    exact hstep

/-- `rt_mutex_release`, up to its last `rt_schedule`, is a step of the protocol. -/
theorem rtMutexRelease_step {ret : Option ℤ} (h : k.MutexCalls) (hexact : k.locks.Exact none none)
    (hcur : k.current = some t) (hrunning : (k.stat t).code = .running) (hidle : k.pc t = .idle)
    (hfiring : ∀ u, k.waits.timerFiring u = false) (heq : k.rtMutexRelease id = some (k', ret)) :
    Locks.Step k.locks k'.locks := by
  unfold rtMutexRelease at heq
  rw [hcur] at heq
  dsimp only at heq
  have hqueue0 : (k.onSched (·.rtEnterCritical)).ReadyQueue := h.queue.rtEnterCritical
  have hlocks0 : (k.onSched (·.rtEnterCritical)).locks = k.locks := rfl
  split at heq
  next howner =>
    rw [show ∀ m, ((k.onSched (·.rtEnterCritical)).setMutex id m).mutex id = m from
      fun m => update_self ..] at heq
    split at heq
    next hzero =>
      obtain ⟨⟨k1, need⟩, hk1, heq⟩ := map_eq_some_iff.mp heq
      dsimp only at hzero
      rw [hzero] at hk1
      obtain ⟨hqueue1, hstep, hpc⟩ := releaseLast_step hqueue0 hexact (view_of_running hrunning).1 howner
        (fun u hu => h.canStop hfiring hu) hk1
      cases need with
      | false =>
        cases heq
        exact step_rtExitCritical hqueue1 hstep
      | true =>
        cases heq
        refine step_rtExitCritical hqueue1 ?_
        rw [locks_setPc]
        · exact hstep
        · intro pending
          rw [hpc, show (k.onSched (·.rtEnterCritical)).pc = k.pc from rfl, hidle]
          rfl
    next hpos =>
      cases heq
      refine step_rtExitCritical hqueue0 (Locks.Step.count ?_ (Nat.pos_of_ne_zero hpos))
      exact ne_of_eq_of_ne howner (some_ne_none t)
  · cases heq
    exact step_rtExitCritical hqueue0 Locks.Step.refl

end RtThread.Kernel.State
