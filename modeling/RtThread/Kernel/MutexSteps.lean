import RtThread.Kernel.Confined
import RtThread.Kernel.PrioritySteps

/-!
# The writes of the mutex functions

A mutex function locks the scheduler, works on the mutexes and on the threads, and unlocks the scheduler
again. `MutexSteps` lists what it does in between. A relation that holds along each of these steps holds
along the functions.
-/

namespace RtThread.Kernel.State

open Option

variable {T : Type*} [DecidableEq T] {k k' k'' : State T} {t : T} {fuel id priority : ℕ} {ret : Option ℤ}
variable {I : State T → Prop} {R : State T → State T → Prop} {hand : State T → ℕ → Prop}

/-- The part of `_rt_mutex_take` that makes the thread the owner and raises it to the ceiling. -/
def raiseOwner (fuel : ℕ) (k : State T) (thread : T) (id : ℕ) : Option (State T) :=
  let m := k.mutex id
  let k := k.setMutex id { m with owner := some thread, priority := 0xff, hold := 1 }
  if m.ceilingPriority ≠ 0xff ∧ m.ceilingPriority < k.currentPriority thread then
    threadUpdatePriority fuel k thread m.ceilingPriority
  else some k

/-- The part of `rt_mutex_setprioceiling` that sets the ceiling and updates the owner. -/
def setCeiling (fuel : ℕ) (k : State T) (id priority : ℕ) : Option (State T) :=
  let k := k.setMutex id { k.mutex id with ceilingPriority := priority }
  match (k.mutex id).owner with
  | some owner =>
    let highest := k.threadGetMutexPriority owner
    if highest ≠ k.currentPriority owner then threadUpdatePriority fuel k owner highest else some k
  | none => some k

/-- A relation that holds, from the states that satisfy `I`, along every step of the mutex functions of a
thread. The last release is such a step when `hand` holds. -/
structure MutexSteps (t : T) (I : State T → Prop) (R : State T → State T → Prop)
    (hand : State T → ℕ → Prop) : Prop extends PassesOn I R where
  setError : ∀ {k}, I k → ∀ error, R k (k.setError t error)
  setPc : ∀ {k pc}, I k → (∀ o ∈ pc.object T, o = .mutexes) → R k (k.setPc t pc)
  setPending : ∀ {k}, I k → ∀ id, R k (k.setPendingObject t (some id))
  startTimerIf : ∀ {k}, I k → ∀ timeout, R k (k.startTimerIf t timeout)
  setHold : ∀ {k}, I k → ∀ id hold, R k (k.setMutex id { k.mutex id with hold := hold })
  suspend : ∀ {k id suspendFlag s ok}, I k →
    k.rtThreadSuspendToList t (some (.mutex id)) .prio suspendFlag = some (s, ok) →
    R k { k with toSched := s }
  own : ∀ {k k' fuel id}, I k → k.isSuspended t = false → raiseOwner fuel k t id = some k' →
    R k (k'.takenInsert t id)
  setCeiling : ∀ {k k' fuel id priority}, I k → setCeiling fuel k id priority = some k' → R k k'
  releaseLast : ∀ {k k' id needSchedule}, I k → hand k id →
    k.releaseLast t id = some (k', needSchedule) → R k k'

/-- A step after others. -/
theorem PassesOn.next (hR : PassesOn I R) (h : R k k') (hnext : I k' → R k' k'') : R k k'' :=
  hR.trans h (hnext (hR.keeps h))

/-- The scheduler is locked, the relation holds up to its unlocking. -/
def InSection (R : State T → State T → Prop) (k k' : State T) : Prop :=
  ∃ k1, R (k.onSched (·.rtEnterCritical)) k1 ∧ k' = k1.onSched (·.rtExitCritical)

namespace MutexSteps

variable (hR : MutexSteps t I R hand) (h : I (k.onSched (·.rtEnterCritical)))
include hR h

/-- `rt_mutex_take`, up to its return or its suspension. -/
theorem rtMutexTake {timeout : ℤ} (hrunner : k.runner = some t)
    (heq : State.rtMutexTake fuel k id timeout = some (k', ret)) : InSection R k k' := by
  obtain ⟨hcur, hrunning⟩ := runner_eq hrunner
  have henter := hR.setError h rtEok
  have hnot : ((k.onSched (·.rtEnterCritical)).setError t rtEok).isSuspended t = false :=
    (view_of_running hrunning).1
  unfold State.rtMutexTake mutexTake at heq
  rw [hcur] at heq
  dsimp only at heq
  split at heq
  · split at heq
    · cases heq
      exact ⟨_, hR.next henter fun h => hR.setHold h id _, rfl⟩
    · cases heq
      exact ⟨_, henter, rfl⟩
  split at heq
  · obtain ⟨k2, hk2, ⟨⟩⟩ := map_eq_some_iff.mp heq
    exact ⟨_, hR.next henter fun h => hR.own h hnot hk2, rfl⟩
  split at heq
  · cases heq
    exact ⟨_, hR.next henter fun h => hR.setError h _, rfl⟩
  · obtain ⟨⟨s, ok⟩, hs, heq⟩ := bind_eq_some_iff.mp heq
    have hsuspend := hR.next henter fun h => hR.suspend h hs
    dsimp only at heq
    split at heq
    · obtain ⟨k2, hk2, ⟨⟩⟩ := map_eq_some_iff.mp heq
      have hpending := hR.next hsuspend fun h => hR.setPending h id
      have hnote := hR.next hpending fun h => hR.noteWaiter h hk2
      have htimer := hR.next hnote fun h => hR.startTimerIf h timeout
      exact ⟨_, hR.next htimer fun h => hR.setPc h (by simp [Pc.object]), rfl⟩
    · cases heq
      exact ⟨_, hsuspend, rfl⟩

/-- The end of `rt_mutex_take` for a thread that was suspended. -/
theorem mutexTakeWoken (heq : State.mutexTakeWoken fuel k t id = some (k', ret)) : InSection R k k' := by
  unfold State.mutexTakeWoken at heq
  dsimp only at heq
  split at heq
  · split at heq
    · cases heq
      exact ⟨_, hR.setPc h (by simp [Pc.object]), rfl⟩
    · cases heq
  · split at heq
    · cases heq
    · obtain ⟨k1, hk1, ⟨⟩⟩ := map_eq_some_iff.mp heq
      exact ⟨_, hR.next (hR.giveUp h hk1) fun h => hR.setPc h (by simp [Pc.object]), rfl⟩

theorem rtMutexRelease (hcur : k.current = some t)
    (hhand : (k.mutex id).owner = some t → (k.mutex id).hold ≤ 1 →
      hand ((k.onSched (·.rtEnterCritical)).setMutex id
        { k.mutex id with hold := (k.mutex id).hold - 1 }) id)
    (heq : k.rtMutexRelease id = some (k', ret)) : InSection R k k' := by
  unfold State.rtMutexRelease at heq
  rw [hcur] at heq
  dsimp only at heq
  split at heq
  next howner =>
    have hset := hR.setHold h id ((k.mutex id).hold - 1)
    split at heq
    next hlast =>
      obtain ⟨⟨k1, need⟩, hk1, heq⟩ := map_eq_some_iff.mp heq
      have hhold : (k.mutex id).hold ≤ 1 := by
        simp only [setMutex, Function.update_self] at hlast
        exact Nat.sub_eq_zero_iff_le.mp hlast
      have hdone := hR.next hset fun h => hR.releaseLast h (hhand howner hhold) hk1
      split at heq
      · cases heq
        exact ⟨_, hR.next hdone fun h => hR.setPc h (by simp [Pc.object]), rfl⟩
      · cases heq
        exact ⟨_, hdone, rfl⟩
    · cases heq
      exact ⟨_, hset, rfl⟩
  · cases heq
    exact ⟨_, hR.setError h _, rfl⟩

theorem rtMutexSetprioceiling (heq : State.rtMutexSetprioceiling fuel k id priority = some (k', ret)) :
    k' = k ∨ InSection R k k' := by
  unfold State.rtMutexSetprioceiling at heq
  split at heq
  · obtain ⟨k1, hk1, ⟨⟩⟩ := map_eq_some_iff.mp heq
    exact .inr ⟨k1, hR.setCeiling h hk1, rfl⟩
  · cases heq
    exact .inl rfl

end MutexSteps

/-- A relation that holds along every write of mutexes. -/
theorem PassesOn.mutexSteps (hR : PassesOn I R)
    (hwrite : ∀ {k k' : State T}, I k → k'.objects = { k.objects with
      mutex := k'.mutex, takenObjectList := k'.takenObjectList, pendingObject := k'.pendingObject } →
      k'.pc = k.pc → k'.toSched = k.toSched → R k k')
    (hpc : ∀ {k : State T} {pc}, I k → (∀ o ∈ pc.object T, o = .mutexes) → R k (k.setPc t pc))
    (htimer : ∀ {k : State T}, I k → ∀ timeout, R k (k.startTimerIf t timeout))
    (hsuspend : ∀ {k : State T} {id suspendFlag s ok}, I k →
      k.rtThreadSuspendToList t (some (.mutex id)) .prio suspendFlag = some (s, ok) →
      R k { k with toSched := s })
    (hwake : ∀ {k : State T} {id rounds s next}, I k →
      releaseWake id rounds k.toSched = some (s, next) → R k { k with toSched := s }) :
    MutexSteps t I R fun _ _ => True where
  toPassesOn := hR
  setError h _ := hwrite h rfl rfl rfl
  setPc := hpc
  setPending h _ := hwrite h rfl rfl rfl
  startTimerIf := htimer
  setHold h _ _ := hwrite h rfl rfl rfl
  suspend := hsuspend
  own {k k' fuel id} h _ heq := by
    have hset : R k (k.setMutex id { k.mutex id with owner := some t, priority := 0xff, hold := 1 }) :=
      hwrite h rfl rfl rfl
    exact hR.next (hR.next hset fun h => hR.updateIf h (fun hlow => .inl hlow.2.le) heq)
      fun h => hwrite h rfl rfl rfl
  setCeiling {k k' fuel id priority} h heq := by
    have hset : R k (k.setMutex id { k.mutex id with ceilingPriority := priority }) :=
      hwrite h rfl rfl rfl
    unfold setCeiling at heq
    dsimp only at heq
    split at heq
    · exact hR.next hset fun h => hR.updateIf h (fun _ => .inr rfl) heq
    · cases heq
      exact hset
  releaseLast {k k' id needSchedule} h _ heq := by
    obtain ⟨⟨k1, need⟩, hk1, heq⟩ := bind_eq_some_iff.mp heq
    have hremove : R k (k.takenRemove id) := hwrite h rfl rfl rfl
    have hprio := hR.next hremove fun h => hR.checkAndUpdatePrio h hk1
    obtain ⟨⟨s, next⟩, hs, heq⟩ := map_eq_some_iff.mp heq
    have hwoken := hR.next hprio fun h => hwake h hs
    dsimp only at heq
    split at heq <;> cases heq <;> exact hR.next hwoken fun h => hwrite h rfl rfl rfl

end RtThread.Kernel.State
