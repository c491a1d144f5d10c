import RtThread.Kernel.Wakes

/-!
# Steps that only change priorities

The functions of `ipc.c` that pass priorities on change the priorities of threads and mutexes, and
the order of the wait lists. They leave who owns a mutex, who is suspended and where the threads are in
their calls. This holds in every state, also where priorities are not inherited exactly.

A thread that `rt_mutex_release` has skipped is suspended and on no list; passing a priority on to it
puts it back on the list of its mutex.
-/

namespace RtThread.Kernel

open Function Option

/-- A change of priority neither locks nor switches, and leaves the status of every thread. -/
theorem Sched.ReadyQueue.rtSchedThreadChangePriority_frame {T : Type*} [DecidableEq T]
    {s s' : Sched T} {thread : T} {priority : ℕ} (h : s.ReadyQueue)
    (heq : s.rtSchedThreadChangePriority thread priority = some s') :
    s'.lockNest = s.lockNest ∧ s'.current = s.current ∧ (∀ t, (s'.stat t).code = (s.stat t).code) ∧
      ∀ t, t ∈ s'.lists .defunct → t ∈ s.lists .defunct := by
  obtain ⟨-, heq⟩ := ite_none_right_eq_some.mp heq
  split at heq
  next hready =>
    cases heq
    have hcur : s.current ≠ some thread := fun hcur => h.current thread hcur hready
    generalize hs1 : ((((s.rtSchedRemoveThread thread).setCurrentPriority thread
      priority).setMasks thread).setStat thread ⟨.init, false, 0⟩) = s1
    have hlock1 : s1.lockNest = s.lockNest := by
      rw [← hs1, setMasks_eq, rtSchedRemoveThread_eq]
      rfl
    have hcurrent1 : s1.current = s.current := by
      rw [← hs1, setMasks_eq, rtSchedRemoveThread_eq]
      rfl
    have hstat1 : s1.stat = Function.update s.stat thread ⟨.init, false, 0⟩ := by
      rw [← hs1, setMasks_eq, rtSchedRemoveThread_eq]
      rfl
    have hdefunct1 : s1.lists .defunct = (s.lists .defunct).filter (· ≠ thread) := by
      rw [← hs1, setMasks_eq, rtSchedRemoveThread_eq]
      rfl
    refine ⟨?_, ?_, fun t => ?_, fun t ht => ?_⟩
    · rw [rtSchedInsertThread_eq, ← hlock1]
    · rw [rtSchedInsertThread_eq, ← hcurrent1]
    · rw [rtSchedInsertThread_stat, hcurrent1, if_neg hcur, hstat1]
      by_cases ht : t = thread
      · rw [ht, update_self, hready]
      · rw [update_of_ne ht, update_of_ne ht]
    · rw [rtSchedInsertThread_defunct, hdefunct1] at ht
      exact (List.mem_filter.mp ht).1
  · cases heq
    rw [setMasks_eq]
    exact ⟨rfl, rfl, fun _ => rfl, fun _ ht => ht⟩

namespace State

variable {T : Type*} {k k' : State T} {t : T} {id : ℕ}

/-- Only priorities and the wait lists of mutexes have changed. -/
structure Reprioritized (k k' : State T) : Prop where
  queue : k'.ReadyQueue
  lockNest : k'.lockNest = k.lockNest
  current : k'.current = k.current
  code : ∀ t, (k'.stat t).code = (k.stat t).code
  view : ∀ t, k'.view t = k.view t
  waiting : ∀ head t, t ∈ k'.waits.waiting head → t ∈ k.waits.waiting head ∨
    (k.waits.suspended t = true ∧ ∃ id, head = .mutex id ∧ k.pendingObject t = some id)
  defunct : ∀ t, t ∈ k'.lists .defunct → t ∈ k.lists .defunct
  mutex : ∀ id, ∃ priority, k'.mutex id = (k.mutex id).withPriority priority
  frame : k' = { k with toSched := k'.toSched, mutex := k'.mutex }

namespace Reprioritized

theorem refl (h : k.ReadyQueue) : Reprioritized k k :=
  ⟨h, rfl, rfl, fun _ => rfl, fun _ => rfl, fun _ _ => .inl, fun _ ht => ht, fun _ => ⟨_, rfl⟩, rfl⟩

theorem trans {k'' : State T} (h : Reprioritized k k') (h' : Reprioritized k' k'') :
    Reprioritized k k'' where
  queue := h'.queue
  lockNest := h'.lockNest.trans h.lockNest
  current := h'.current.trans h.current
  code t := (h'.code t).trans (h.code t)
  view t := (h'.view t).trans (h.view t)
  waiting := by
    intro head t ht
    rcases h'.waiting head t ht with hmid | ⟨hsusp, id, hhead, hpending⟩
    · exact h.waiting head t hmid
    · refine .inr ⟨?_, id, hhead, ?_⟩
      · exact (congrArg ThreadView.suspended (h.view t)).symm.trans hsusp
      · exact (congrArg ThreadView.pendingObject (h.view t)).symm.trans hpending
  defunct t ht := h.defunct t (h'.defunct t ht)
  mutex := by
    intro id
    obtain ⟨p, hp⟩ := h.mutex id
    obtain ⟨p', hp'⟩ := h'.mutex id
    exact ⟨p', by rw [hp', hp]; rfl⟩
  frame := by
    rw [h'.frame, h.frame]

/-- The owner of a mutex stays. -/
theorem owner (h : Reprioritized k k') (id : ℕ) : (k'.mutex id).owner = (k.mutex id).owner := by
  obtain ⟨p, hp⟩ := h.mutex id
  rw [hp]
  rfl

/-- The count of a mutex stays. -/
theorem hold (h : Reprioritized k k') (id : ℕ) : (k'.mutex id).hold = (k.mutex id).hold := by
  obtain ⟨p, hp⟩ := h.mutex id
  rw [hp]
  rfl

/-- The ceiling of a mutex stays. -/
theorem ceilingPriority (h : Reprioritized k k') (id : ℕ) :
    (k'.mutex id).ceilingPriority = (k.mutex id).ceilingPriority := by
  obtain ⟨p, hp⟩ := h.mutex id
  rw [hp]
  rfl

end Reprioritized

variable [DecidableEq T]

omit [DecidableEq T] in
/-- The priority of a mutex. -/
theorem reprioritized_setMutex (h : k.ReadyQueue) (id priority : ℕ) :
    Reprioritized k (k.setMutex id ((k.mutex id).withPriority priority)) where
  queue := h
  lockNest := rfl
  current := rfl
  code _ := rfl
  view _ := rfl
  waiting _ _ := .inl
  defunct _ ht := ht
  mutex := by
    intro id'
    by_cases hid : id' = id
    · subst hid
      exact ⟨priority, update_self ..⟩
    · exact ⟨(k.mutex id').priority, update_of_ne hid ..⟩
  frame := rfl

/-- The priority of a thread. -/
theorem reprioritized_changePriority {priority : ℕ} (h : k.ReadyQueue)
    (heq : k.changePriority t priority = some k') : Reprioritized k k' := by
  obtain ⟨s, hs, rfl⟩ := map_eq_some_iff.mp heq
  have hwaits := h.waits_rtSchedThreadChangePriority hs
  obtain ⟨hlock, hcurrent, hcode, hdefunct⟩ := h.rtSchedThreadChangePriority_frame hs
  refine ⟨h.rtSchedThreadChangePriority hs, hlock, hcurrent, hcode, ?_, ?_, hdefunct,
    fun _ => ⟨_, rfl⟩, rfl⟩
  · intro u
    unfold view
    rw [hwaits]
    rfl
  · intro head u hu
    rw [hwaits] at hu
    exact .inl hu

/-- Moving a thread to its place, as the waiting threads see it. -/
theorem waits_requeue (k : State T) (t : T) (id : ℕ) :
    (k.requeue t id).waits = (k.waits.unlink t).link (.mutex id) t .prio := by
  rw [requeue, onSched]
  rw [Sched.waits_rtSuspListEnqueue _ rfl, Sched.waits_listRemove]

/-- The place of a suspended thread in the list of its mutex. -/
theorem reprioritized_requeue (h : k.ReadyQueue) (hsusp : k.isSuspended t = true)
    (hpending : k.pendingObject t = some id) : Reprioritized k (k.requeue t id) := by
  have hwaits := waits_requeue k t id
  refine ⟨h.relink rfl hsusp .prio, rfl, rfl, fun _ => rfl, ?_, ?_, ?_, fun _ => ⟨_, rfl⟩, rfl⟩
  · intro u
    unfold view
    rfl
  · intro head u hu
    rw [hwaits, Waits.mem_link_waiting] at hu
    rcases hu with hold | ⟨rfl, rfl⟩
    · exact .inl (List.mem_filter.mp hold).1
    · exact .inr ⟨hsusp, id, rfl, hpending⟩
  · intro u hu
    exact (List.mem_filter.mp hu).1

/-! ## Passing priorities on -/

/-- A relation that holds, from the states that satisfy `I`, along every write of the functions that
pass priorities on. A thread gets a priority that is no lower, or the one that its mutexes ask for. -/
structure PassesOn (I : State T → Prop) (R : State T → State T → Prop) : Prop where
  keeps : ∀ {k k'}, R k k' → I k'
  refl : ∀ {k}, I k → R k k
  trans : ∀ {k k' k''}, R k k' → R k' k'' → R k k''
  setMutex : ∀ {k}, I k → ∀ id priority, R k (k.setMutex id ((k.mutex id).withPriority priority))
  requeue : ∀ {k t id}, I k → k.isSuspended t = true → k.pendingObject t = some id →
    R k (k.requeue t id)
  changePriority : ∀ {k k' t priority}, I k →
    priority ≤ k.currentPriority t ∨ priority = k.threadGetMutexPriority t →
    k.changePriority t priority = some k' → R k k'

namespace PassesOn

variable {I : State T → Prop} {R : State T → State T → Prop} {fuel : ℕ}

section

variable (hR : PassesOn I R) (h : I k)
include hR h

/-- The loop of `_thread_update_priority`. -/
theorem updatePriorityLoop (heq : State.updatePriorityLoop fuel k t = some k') : R k k' := by
  induction fuel generalizing k t with
  | zero => cases heq
  | succ fuel ih =>
    unfold State.updatePriorityLoop at heq
    split at heq
    next hsusp =>
      split at heq
      next id hpending =>
        have hrequeue := hR.requeue h hsusp hpending
        have hmid : R k ((k.requeue t id).mutexUpdatePriority id) :=
          hR.trans hrequeue (hR.setMutex (hR.keeps hrequeue) id _)
        dsimp only at heq
        split at heq
        · split at heq
          · obtain ⟨k2, hk2, hloop⟩ := bind_eq_some_iff.mp heq
            have hprio := hR.changePriority (hR.keeps hmid) (.inr rfl) hk2
            exact hR.trans (hR.trans hmid hprio) (ih (hR.keeps hprio) hloop)
          · cases heq
            exact hmid
        · cases heq
      · cases heq
        exact hR.refl h
    · cases heq
      exact hR.refl h

theorem threadUpdatePriority {priority : ℕ}
    (hpriority : priority ≤ k.currentPriority t ∨ priority = k.threadGetMutexPriority t)
    (heq : State.threadUpdatePriority fuel k t priority = some k') : R k k' := by
  obtain ⟨k1, hk1, hloop⟩ := bind_eq_some_iff.mp heq
  have hprio := hR.changePriority h hpriority hk1
  exact hR.trans hprio (hR.updatePriorityLoop (hR.keeps hprio) hloop)

/-- `_thread_update_priority`, when it is needed. -/
theorem updateIf {needed : Prop} [Decidable needed] {priority : ℕ}
    (hpriority : needed → priority ≤ k.currentPriority t ∨ priority = k.threadGetMutexPriority t)
    (heq : (if needed then State.threadUpdatePriority fuel k t priority else some k) = some k') :
    R k k' := by
  split at heq
  next hneeded =>
    exact hR.threadUpdatePriority h (hpriority hneeded) heq
  · cases heq
    exact hR.refl h

/-- The part of `_rt_mutex_take` that notes the priority of a waiting thread. -/
theorem noteWaiter (heq : State.noteWaiter fuel k t id = some k') : R k k' := by
  unfold State.noteWaiter at heq
  dsimp only at heq
  split at heq
  · have hset := hR.setMutex h id (k.currentPriority t)
    split at heq
    · exact hR.trans hset (hR.updateIf (hR.keeps hset) (fun hlt => .inl hlt.le) heq)
    · cases heq
  · cases heq
    exact hR.refl h

/-- The part of `_rt_mutex_take` that updates the priorities after a timeout. -/
theorem giveUp (heq : State.giveUp fuel k t id = some k') : R k k' := by
  have hset : R k (k.mutexUpdatePriority id) := hR.setMutex h id _
  unfold State.giveUp at heq
  split at heq
  · dsimp only at heq
    split at heq
    · exact hR.trans hset (hR.updateIf (hR.keeps hset) (fun _ => .inr rfl) heq)
    · cases heq
      exact hset
  · cases heq
    exact hset

theorem checkAndUpdatePrio {needSchedule : Bool}
    (heq : k.checkAndUpdatePrio t id = some (k', needSchedule)) : R k k' := by
  unfold State.checkAndUpdatePrio at heq
  split at heq
  · obtain ⟨k1, hk1, ⟨⟩⟩ := map_eq_some_iff.mp heq
    exact hR.changePriority h (.inr rfl) hk1
  · cases heq
    exact hR.refl h

end

end PassesOn

/-- Passing priorities on changes priorities only. -/
theorem passesOn_reprioritized : PassesOn (T := T) (fun k => k.ReadyQueue) Reprioritized :=
  ⟨Reprioritized.queue, .refl, .trans, reprioritized_setMutex, reprioritized_requeue,
    fun h _ heq => reprioritized_changePriority h heq⟩

end State

end RtThread.Kernel
