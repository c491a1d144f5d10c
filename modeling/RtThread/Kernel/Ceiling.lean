import Mathlib.Data.List.Find
import RtThread.Kernel.DeadOwners

/-!
# The priority ceiling

`rt_mutex_take` raises a thread that takes a free mutex to the ceiling of the mutex, and
`rt_mutex_setprioceiling` raises an owner. Whenever a thread gets a new priority, the ceilings of its
mutexes bound it. Only `rt_mutex_release` hands a mutex over without a look at the ceiling.
-/

namespace RtThread.Kernel.State

open Lib Function List Option Sched

variable {T : Type*} {k k' k'' : State T} {t : T} {id : ℕ}
variable {fuel : ℕ}

/-- Priorities change, and a thread whose priority gets lower keeps the ceilings of its mutexes. -/
structure Capped (k k' : State T) : Prop extends Reprioritized k k' where
  capped : ∀ u, k'.currentPriority u ≤ k.currentPriority u ∨
    ∀ id ∈ k.takenObjectList u, k'.currentPriority u ≤ (k.mutex id).ceilingPriority

/-- `_thread_get_mutex_priority` is bounded by the ceilings of the mutexes of the thread. -/
theorem threadGetMutexPriority_le (hid : id ∈ k.takenObjectList t) :
    k.threadGetMutexPriority t ≤ (k.mutex id).ceilingPriority := by
  have hleast : k.threadGetMutexPriority t = leastKey
      (fun id => min (k.mutex id).priority (k.mutex id).ceilingPriority) (k.initPriority t)
      (k.takenObjectList t) := by
    unfold threadGetMutexPriority leastKey
    congr 1
    funext priority id
    dsimp only
    split <;> split <;> omega
  rw [hleast]
  exact (leastKey_le hid).trans (min_le_right ..)

/-- The owner of a mutex with a ceiling has at least that priority. -/
def CeilingOk (k : State T) : Prop := ∀ id t, (k.mutex id).owner = some t →
  (k.mutex id).ceilingPriority ≠ 0xff → k.currentPriority t ≤ (k.mutex id).ceilingPriority

/-- The count of a mutex is written. -/
theorem CeilingOk.setHold (h : k.CeilingOk) (id hold : ℕ) :
    (k.setMutex id { k.mutex id with hold := hold }).CeilingOk :=
  (forall_update_iff k.mutex fun _ m => ∀ t, m.owner = some t → m.ceilingPriority ≠ 0xff →
    k.currentPriority t ≤ m.ceilingPriority).mpr ⟨h id, fun id' _ => h id'⟩

variable [DecidableEq T]

/-! ## Passing priorities on -/

/-- A thread gets a priority that is higher than before, or its inherited priority. -/
theorem capped_changePriority {priority : ℕ} (h : k.ReadyQueue)
    (hpriority : priority ≤ k.currentPriority t ∨ priority = k.threadGetMutexPriority t)
    (heq : k.changePriority t priority = some k') : Capped k k' := by
  refine ⟨reprioritized_changePriority h heq, fun u => ?_⟩
  obtain ⟨s, hs, rfl⟩ := map_eq_some_iff.mp heq
  rw [rtSchedThreadChangePriority_currentPriority hs]
  by_cases hu : u = t
  · subst hu
    rw [update_self]
    rcases hpriority with hle | rfl
    · exact .inl hle
    · exact .inr fun id hid => threadGetMutexPriority_le hid
  · rw [update_of_ne hu]
    exact .inl le_rfl

/-- The loop of `_thread_update_priority` ends at a thread that is not suspended. -/
theorem updatePriorityLoop_of_not_suspended (h : k.isSuspended t = false)
    (heq : updatePriorityLoop fuel k t = some k') : k = k' := by
  cases fuel with
  | zero => cases heq
  | succ fuel =>
    rw [updatePriorityLoop, if_neg (by simp [h])] at heq
    exact some.inj heq

/-- `_check_and_update_prio` changes the priority of the thread only. -/
theorem checkAndUpdatePrio_cases {needSchedule : Bool} (h : k.ReadyQueue)
    (heq : k.checkAndUpdatePrio t id = some (k', needSchedule)) :
    k'.mutex = k.mutex ∧ k'.waits.waiting = k.waits.waiting ∧ k'.waits.canStop = k.waits.canStop ∧
    (∀ u, u ≠ t → k'.currentPriority u = k.currentPriority u) ∧
    (k'.currentPriority t = k.currentPriority t ∨ k'.currentPriority t = k.threadGetMutexPriority t) := by
  unfold checkAndUpdatePrio at heq
  split at heq
  · obtain ⟨k1, hk1, ⟨⟩⟩ := map_eq_some_iff.mp heq
    obtain ⟨s, hs, rfl⟩ := map_eq_some_iff.mp hk1
    have hwaits := h.waits_rtSchedThreadChangePriority hs
    have hcurrent := rtSchedThreadChangePriority_currentPriority hs
    refine ⟨rfl, ?_, ?_, fun u hu => ?_, ?_⟩
    · rw [hwaits]
      rfl
    · rw [hwaits]
      rfl
    · exact (congrFun hcurrent u).trans (update_of_ne hu ..)
    · exact .inr ((congrFun hcurrent t).trans (update_self ..))
  · cases heq
    exact ⟨rfl, rfl, rfl, fun _ _ => rfl, .inl rfl⟩

/-- The thread that `rt_mutex_release` hands the mutex to: the first that waits and is not just timing
out. -/
def nextOwner (k : State T) (id : ℕ) : Option T := (k.lists (.mutex id)).find? k.waits.canStop

/-- The wake-up loop of `rt_mutex_release` wakes the first thread that is not just timing out. -/
theorem releaseWake_next {s s' : Sched T} {next : Option T} {list : List T} (h : s.ReadyQueue)
    (hlist : s.lists (.mutex id) = list) (heq : releaseWake id list.length s = some (s', next)) :
    next = list.find? s.waits.canStop := by
  induction list generalizing s with
  | nil =>
    obtain ⟨-, rfl⟩ : s = s' ∧ none = next := by simpa [releaseWake] using heq
    rfl
  | cons n rest ih =>
    have hsusp : s.isSuspended n = true := (h.queue.wait n (.mutex id) rfl (by simp [hlist])).2
    have hother : ∀ u ∈ rest, u ≠ n := by
      have hnodup : (n :: rest).Nodup := hlist ▸ h.queue.nodup (.mutex id)
      rintro u hu rfl
      exact (nodup_cons.mp hnodup).1 hu
    rw [length_cons, releaseWake, hlist] at heq
    dsimp only at heq
    rw [if_pos hsusp] at heq
    obtain ⟨hok, hwaits⟩ := waits_rtSchedThreadReady (s.listRemove n) n
    have hsusp' : (s.listRemove n).waits.suspended n = true := hsusp
    have hcan : (s.listRemove n).waits.canStop n = s.waits.canStop n := rfl
    rw [hsusp', hcan] at hok
    rw [if_pos hsusp', hcan] at hwaits
    rw [hok] at heq
    rw [find?_cons]
    cases hstop : s.waits.canStop n with
    | true =>
      rw [hstop] at heq
      obtain ⟨-, rfl⟩ : _ = s' ∧ some n = next := by simpa using heq
      rfl
    | false =>
      rw [hstop] at heq
      rw [hstop, if_neg (by simp), waits_listRemove] at hwaits
      have hrest : ((s.listRemove n).rtSchedThreadReady n).1.lists (.mutex id) = rest := by
        rw [← waits_waiting rfl, hwaits, Waits.timerStop_waiting]
        change (s.waits.waiting (.mutex id)).filter (· ≠ n) = rest
        rw [waits_waiting rfl, hlist, filter_cons_of_neg (by simp)]
        exact filter_eq_self.mpr fun u hu => decide_eq_true (hother u hu)
      rw [ih ((h.listRemove hsusp).rtSchedThreadReady n) hrest heq]
      refine find?_congr fun u hu => ?_
      rw [hwaits, Waits.timerStop_eq]
      simp [Waits.canStop, Waits.unlink, hother u hu]

/-! ## The functions of mutexes -/

/-- The invariant of the priority ceiling; the threads are in calls of mutexes only. -/
structure CeilingKept (k : State T) : Prop where
  queue : k.ReadyQueue
  listed : k.holds.Listed
  place : ∀ t, ∀ o ∈ (k.pc t).object T, o = .mutexes
  ceiling : k.CeilingOk

/-- The part of `_rt_mutex_take` that takes a free mutex. -/
theorem CeilingOk.own (h : k.CeilingOk) (hqueue : k.ReadyQueue) (hnot : k.isSuspended t = false)
    (heq : raiseOwner fuel k t id = some k') : (k'.takenInsert t id).CeilingOk := by
  obtain ⟨p, hprio, hmutex, hle, hcap⟩ : ∃ p, k'.currentPriority = update k.currentPriority t p ∧
      k'.mutex = update k.mutex id { k.mutex id with owner := some t, priority := 0xff, hold := 1 } ∧
      p ≤ k.currentPriority t ∧
      ((k.mutex id).ceilingPriority ≠ 0xff → p ≤ (k.mutex id).ceilingPriority) := by
    unfold raiseOwner at heq
    dsimp only at heq
    split at heq
    next hlow =>
      obtain ⟨k1, hk1, hloop⟩ := bind_eq_some_iff.mp heq
      have hprio := reprioritized_changePriority (k := k.setMutex id _) hqueue hk1
      obtain ⟨s, hs, rfl⟩ := map_eq_some_iff.mp hk1
      obtain rfl := updatePriorityLoop_of_not_suspended (by
        rw [isSuspended, hprio.code]
        exact hnot) hloop
      exact ⟨_, rtSchedThreadChangePriority_currentPriority hs, rfl, hlow.2.le, fun _ => le_rfl⟩
    next hhigh =>
      cases heq
      refine ⟨k.currentPriority t, (update_eq_self ..).symm, rfl, le_rfl, fun hne => ?_⟩
      exact not_lt.mp fun hlt => hhigh ⟨hne, hlt⟩
  intro id' u howner hceiling
  change k'.currentPriority u ≤ (k'.mutex id').ceilingPriority
  change (k'.mutex id').owner = some u at howner
  change (k'.mutex id').ceilingPriority ≠ 0xff at hceiling
  rw [hmutex] at howner hceiling ⊢
  rw [hprio]
  by_cases hid : id' = id
  · subst hid
    simp only [update_self, some.injEq] at howner hceiling ⊢
    subst howner
    rw [update_self]
    exact hcap hceiling
  · simp only [update_of_ne hid] at howner hceiling ⊢
    have hold := h id' u howner hceiling
    by_cases hu : u = t
    · subst hu
      rw [update_self]
      exact hle.trans hold
    · rwa [update_of_ne hu]

/-- A ceiling is set, and the owner gets its inherited priority. -/
theorem CeilingOk.setCeiling {k1 : State T} {priority : ℕ} (h : k.CeilingOk) (hlisted : k.holds.Listed)
    (hset : k.setMutex id { k.mutex id with ceilingPriority := priority } = k1)
    (hmutex : k'.mutex = k1.mutex)
    (howner : ∀ t, (k.mutex id).owner = some t → k'.currentPriority t = k1.threadGetMutexPriority t)
    (hothers : ∀ u, (k.mutex id).owner ≠ some u → k'.currentPriority u = k.currentPriority u) :
    k'.CeilingOk := by
  subst hset
  intro id' u hu hceiling
  have hsame : (k.mutex id').owner = some u := by
    rw [hmutex] at hu
    by_cases hid : id' = id
    · subst hid
      simpa [setMutex] using hu
    · simpa [setMutex, hid] using hu
  by_cases hmine : (k.mutex id).owner = some u
  · rw [howner u hmine, hmutex]
    exact threadGetMutexPriority_le (hlisted id' u hsame)
  · have hid : id' ≠ id := by
      rintro rfl
      exact hmine hsame
    rw [hmutex] at hceiling ⊢
    simp only [setMutex, update_of_ne hid] at hceiling ⊢
    rw [hothers u hmine]
    exact h id' u hsame hceiling

/-- `rt_mutex_release` after its last `hold` has gone, when the ceiling allows the next owner. -/
theorem CeilingOk.releaseLast {needSchedule : Bool} (h : k.CeilingOk) (hqueue : k.ReadyQueue)
    (hlisted : k.holds.Listed) (hnot : k.isSuspended t = false)
    (hnext : ∀ next ∈ k.nextOwner id, (k.mutex id).ceilingPriority = 0xff ∨
      k.currentPriority next ≤ (k.mutex id).ceilingPriority)
    (heq : k.releaseLast t id = some (k', needSchedule)) : k'.CeilingOk := by
  obtain ⟨⟨k1, need⟩, hk1, heq⟩ := bind_eq_some_iff.mp heq
  have hprio := passesOn_reprioritized.checkAndUpdatePrio (k := k.takenRemove id) hqueue hk1
  obtain ⟨hmutex, hwaiting, hstop, hsame, hself⟩ :=
    checkAndUpdatePrio_cases (k := k.takenRemove id) hqueue hk1
  obtain ⟨⟨s, next⟩, hs, heq⟩ := map_eq_some_iff.mp heq
  obtain ⟨hwakes, hfrom⟩ := hprio.queue.wakes_releaseWake hs
  have hothers : ∀ id', id' ≠ id → ∀ u, (k.mutex id').owner = some u →
      (k.mutex id').ceilingPriority ≠ 0xff → s.currentPriority u ≤ (k.mutex id').ceilingPriority := by
    intro id' hid u howner hceiling
    rw [hwakes.priority]
    have hold := h id' u howner hceiling
    by_cases hut : u = t
    · subst hut
      rcases hself with hkeep | hinherit
      · rw [hkeep]
        exact hold
      · rw [hinherit]
        refine threadGetMutexPriority_le ?_
        exact mem_filter.mpr ⟨hlisted id' u howner, decide_eq_true hid⟩
    · rw [hsame u hut]
      exact hold
  have hmutex' : k1.mutex = k.mutex := hmutex
  cases next with
  | none =>
    cases heq
    intro id' u howner hceiling
    by_cases hid : id' = id
    · subst hid
      simp [setMutex] at howner
    · simp only [setMutex, update_of_ne hid, hmutex'] at howner hceiling ⊢
      exact hothers id' hid u howner hceiling
  | some next =>
    cases heq
    intro id' u howner hceiling
    by_cases hid : id' = id
    · subst hid
      simp only [setNewOwner, mutexUpdatePriority, setMutex, Mutex.withPriority, setPendingObject,
        takenInsert, update_self, some.injEq, hmutex'] at howner hceiling ⊢
      subst howner
      have hsusp : k.isSuspended next = true := by
        have hlater := (hfrom next rfl).2
        rw [isSuspended, hprio.code] at hlater
        exact hlater
      have hne : next ≠ t := by
        rintro rfl
        rw [hnot] at hsusp
        cases hsusp
      have hfind := releaseWake_next hprio.queue rfl hs
      have hmem : next ∈ k.nextOwner id' := by
        have hlists : k1.lists (.mutex id') = k.lists (.mutex id') := by
          rw [← waits_waiting rfl]
          exact congrFun hwaiting _
        rw [hlists, hstop] at hfind
        exact hfind.symm
      rw [hwakes.priority, hsame next hne]
      exact (hnext next hmem).resolve_left hceiling
    · simp only [setNewOwner, mutexUpdatePriority, setMutex, setPendingObject, takenInsert,
        update_of_ne hid, hmutex'] at howner hceiling ⊢
      exact hothers id' hid u howner hceiling

namespace CeilingKept

omit [DecidableEq T] in
/-- Neither the priorities nor the mutexes change. -/
theorem congr (h : k.CeilingKept) (hqueue : k'.ReadyQueue)
    (hprio : k'.currentPriority = k.currentPriority) (hmutex : k'.mutex = k.mutex)
    (htaken : k'.takenObjectList = k.takenObjectList)
    (hplace : ∀ t, ∀ o ∈ (k'.pc t).object T, o = .mutexes) : k'.CeilingKept := by
  refine ⟨hqueue, holds_congr hmutex htaken ▸ h.listed, hplace, ?_⟩
  unfold CeilingOk
  rw [hprio, hmutex]
  exact h.ceiling

omit [DecidableEq T] in
/-- The scheduler runs, and the threads do not see it. -/
theorem unseen (h : k.CeilingKept) {f : Sched T → Sched T} (hqueue : (f k.toSched).ReadyQueue)
    (hwaits : (f k.toSched).waits = k.waits) : (k.onSched f).CeilingKept :=
  h.congr hqueue (congrArg Waits.currentPriority hwaits) rfl rfl h.place

/-- The thread goes to another place. -/
theorem setPc {pc : Pc} (h : k.CeilingKept) (hpc : ∀ o ∈ pc.object T, o = .mutexes) :
    (k.setPc t pc).CeilingKept := by
  refine h.congr h.queue rfl rfl rfl fun u => ?_
  by_cases hu : u = t
  · subst hu
    simpa [State.setPc] using hpc
  · simpa [State.setPc, hu] using h.place u

omit [DecidableEq T] in
/-- Mutexes change their owners, and the threads stay in their calls. -/
theorem of_move {seats : T → Seat} {owners : Holds T} (h : k.CeilingKept)
    (hmove : MutexMove k k' seats owners) (hlisted : owners.Listed)
    (hpc : ∀ u, (seats u).pc = k.pc u) (hceiling : k'.CeilingOk) : k'.CeilingKept := by
  refine ⟨hmove.queue, hmove.holds ▸ hlisted, fun u => ?_, hceiling⟩
  have hsame : k'.pc u = k.pc u := (congrArg Seat.pc (congrFun hmove.seat u)).trans (hpc u)
  rw [hsame]
  exact h.place u

omit [DecidableEq T] in
/-- Priorities are passed on. -/
theorem capped (h : k.CeilingKept) (hstep : Capped k k') : k'.CeilingKept := by
  refine ⟨hstep.queue, hstep.holds ▸ h.listed, by rw [hstep.frame]; exact h.place, ?_⟩
  intro id u howner hceiling
  rw [hstep.owner] at howner
  rw [hstep.ceilingPriority] at hceiling ⊢
  rcases hstep.capped u with hle | hcap
  · exact hle.trans (h.ceiling id u howner hceiling)
  · exact hcap id (h.listed id u howner)

/-- Passing priorities on keeps the ceilings. -/
theorem passesOn : PassesOn (T := T) CeilingKept fun _ k' => k'.CeilingKept where
  keeps h := h
  refl h := h
  trans _ h := h
  setMutex h id priority := h.capped ⟨reprioritized_setMutex h.queue id priority, fun _ => .inl le_rfl⟩
  requeue h hsusp hpending :=
    h.capped ⟨reprioritized_requeue h.queue hsusp hpending, fun _ => .inl le_rfl⟩
  changePriority h hpriority heq := h.capped (capped_changePriority h.queue hpriority heq)

/-- A ceiling is set, and the priority of the owner is updated. -/
theorem setCeiling {priority : ℕ} (h : k.CeilingKept)
    (heq : State.setCeiling fuel k id priority = some k') : k'.CeilingKept := by
  unfold State.setCeiling at heq
  dsimp only at heq
  generalize hset : k.setMutex id { k.mutex id with ceilingPriority := priority } = k1 at heq
  have hholds : k1.holds = k.holds := by
    rw [← hset, holds_setMutex]
    exact congrArg₂ (Holds.mk · · _) (update_eq_self ..) (update_eq_self ..)
  have hprio : k1.currentPriority = k.currentPriority := hset ▸ rfl
  have hkept : ∀ s : Sched T, s.ReadyQueue →
      (∀ t, (k.mutex id).owner = some t → s.currentPriority t = k1.threadGetMutexPriority t) →
      (∀ u, (k.mutex id).owner ≠ some u → s.currentPriority u = k.currentPriority u) →
      CeilingKept { k1 with toSched := s } := fun s hqueue howner hothers =>
    ⟨hqueue, hholds ▸ h.listed, by subst hset; exact h.place,
      h.ceiling.setCeiling h.listed hset rfl howner hothers⟩
  have howner1 : (k1.mutex id).owner = (k.mutex id).owner := congrFun (congrArg Holds.owner hholds) id
  rw [howner1] at heq
  split at heq
  next owner howner =>
    have hone : ∀ u, (k.mutex id).owner = some u ↔ u = owner := by
      intro u
      rw [howner, some.injEq, eq_comm]
    split at heq
    · obtain ⟨k2, hk2, hloop⟩ := bind_eq_some_iff.mp heq
      have hqueue1 : k1.ReadyQueue := hset ▸ h.queue
      have hqueue := (reprioritized_changePriority hqueue1 hk2).queue
      obtain ⟨s, hs, rfl⟩ := map_eq_some_iff.mp hk2
      have hcurrent := rtSchedThreadChangePriority_currentPriority hs
      refine passesOn.updatePriorityLoop (hkept s hqueue (fun u hu => ?_) fun u hu => ?_) hloop
      · obtain rfl := (hone u).mp hu
        exact (congrFun hcurrent u).trans (update_self ..)
      · rw [hcurrent, update_of_ne fun hu' => hu ((hone u).mpr hu'), hprio]
    next hsame =>
      cases heq
      refine hkept _ (hset ▸ h.queue) (fun u hu => ?_) fun u _ => congrFun hprio u
      obtain rfl := (hone u).mp hu
      exact (not_not.mp hsame).symm
  next howner =>
    cases heq
    refine hkept _ (hset ▸ h.queue) (fun u hu => ?_) fun u _ => congrFun hprio u
    rw [howner] at hu
    cases hu

/-- The functions of mutexes keep the ceilings, when a mutex is handed to a thread within its ceiling. -/
theorem mutexSteps (t : T) : MutexSteps t CeilingKept (fun _ k' => k'.CeilingKept) fun k id =>
    k.isSuspended t = false ∧ (k.mutex id).hold = 0 ∧ ∀ next ∈ k.nextOwner id,
      (k.mutex id).ceilingPriority = 0xff ∨ k.currentPriority next ≤ (k.mutex id).ceilingPriority where
  toPassesOn := passesOn
  setError h _ := h.congr h.queue rfl rfl rfl h.place
  setPc := setPc
  setPending h _ := h.congr h.queue rfl rfl rfl h.place
  startTimerIf h timeout := by
    have hqueue := startTimerIf_queue h.queue t timeout
    unfold startTimerIf at hqueue ⊢
    split
    · exact h.congr (by simpa [*] using hqueue) rfl rfl rfl h.place
    · exact h
  setHold h id hold :=
    ⟨h.queue, holds_setMutex_hold _ id hold ▸ h.listed, h.place, h.ceiling.setHold id hold⟩
  suspend h hs := by
    refine h.congr (h.queue.rtThreadSuspendToList (by simp [ListHead.isWait]) hs) ?_ rfl rfl h.place
    obtain ⟨-, ⟨rfl, -⟩ | ⟨rfl, -⟩⟩ := h.queue.rtThreadSuspendToList_eq hs
    · rfl
    · have hwaits := (h.queue.waits_rtThreadSuspendToList rfl hs).2
      rw [Waits.timerStop_eq] at hwaits
      exact congrArg Waits.currentPriority hwaits
  own h hnot heq := h.of_move ((MutexMove.refl h.queue).own heq) (h.listed.own _ _) (fun _ => rfl)
    (h.ceiling.own h.queue hnot heq)
  setCeiling := setCeiling
  releaseLast h hhand heq := by
    obtain ⟨hnot, hhold, hnext⟩ := hhand
    have hceiling := h.ceiling.releaseLast h.queue h.listed hnot hnext heq
    obtain hfree | ⟨next, -, -, -, hhand⟩ := (MutexMove.refl h.queue).releaseLast hhold heq
    · exact h.of_move hfree (h.listed.free _) (fun _ => rfl) hceiling
    · refine h.of_move hhand ((h.listed.free _).own _ _) (fun u => ?_) hceiling
      by_cases hu : u = next
      · rw [hu, update_self]
        rfl
      · rw [update_of_ne hu]
        rfl

/-- A critical section. -/
theorem of_section (h : InSection (fun _ k' => k'.CeilingKept) k k') : k'.CeilingKept := by
  obtain ⟨k1, hk1, rfl⟩ := h
  exact hk1.unseen hk1.queue.rtExitCritical hk1.queue.waits_rtExitCritical

end CeilingKept

/-! ## Runs -/

/-- The thread that an event hands a mutex to, and the mutex. -/
def handsOver (k : State T) : KernelEvent T → Option (T × ℕ)
  | .call (.mutexRelease id) =>
    if (k.mutex id).owner = k.caller ∧ (k.mutex id).hold ≤ 1 then
      (k.nextOwner id).map fun next => (next, id)
    else none
  | _ => none

/-- A mutex with a ceiling is handed only to a thread that has at least that priority. -/
def HandOk (k : State T) (e : KernelEvent T) : Prop := ∀ p ∈ k.handsOver e,
  (k.mutex p.2).ceilingPriority = 0xff ∨ k.currentPriority p.1 ≤ (k.mutex p.2).ceilingPriority

/-- The runs of the mutex functions. -/
def mutexSystem (T : Type*) [DecidableEq T] : TransitionSystem (State T) (KernelEvent T) :=
  (system T).guarded fun _ e => (mutexEvent e || backgroundEvent e) = true

/-- The events that concern no mutex leave the priorities. -/
theorem CeilingKept.background (h : k.CeilingKept) (hstep : Background k k') : k'.CeilingKept := by
  cases hstep with
  | unseen _ hqueue hwaits | start hqueue _ hwaits | due hqueue _ _ hwaits | expire hqueue _ _ hwaits =>
    exact h.congr hqueue (congrArg Waits.currentPriority hwaits) rfl rfl h.place

/-- The running thread goes on inside a mutex function. -/
theorem CeilingKept.proceed {ret : Option ℤ} (h : k.CeilingKept)
    (heq : State.proceed fuel k t = some (k', ret)) : k'.CeilingKept := by
  have hplace := h.place t
  unfold State.proceed at heq
  generalize k.pc t = pc at hplace heq
  cases pc with
  | idle => cases heq
  | resched | mutexResched =>
    cases heq
    exact (h.setPc (by simp [Pc.object])).unseen h.queue.rtSchedule h.queue.waits_rtSchedule
  | mutexWoken id =>
    exact .of_section ((mutexSteps t).mutexTakeWoken (h.unseen h.queue.rtEnterCritical rfl) heq)
  | mutexClear r =>
    cases heq
    exact .setPc (h.congr h.queue rfl rfl rfl h.place) (by simp [Pc.object])
  | _ => simp [Pc.object] at hplace

/-- One event of a run of the mutex functions. -/
theorem CeilingKept.exec {e : KernelEvent T} {ret : Option ℤ} (h : k.CeilingKept)
    (hevent : (mutexEvent e || backgroundEvent e) = true) (hok : HandOk k e)
    (heq : exec fuel k e = some (k', ret)) : k'.CeilingKept := by
  by_cases hback : backgroundEvent e = true
  · exact h.background (exec_background h.queue hback heq)
  have henter : (k.onSched (·.rtEnterCritical)).CeilingKept := h.unseen h.queue.rtEnterCritical rfl
  cases e with
  | call c =>
    obtain ⟨t, hcaller, hcall⟩ := exec_call heq
    cases c with
    | mutexTake id timeout =>
      exact .of_section ((mutexSteps t).rtMutexTake henter (runner_of_caller hcaller) hcall)
    | mutexRelease id =>
      obtain ⟨hcur, hrunning, -⟩ := caller_eq hcaller
      refine .of_section ((mutexSteps t).rtMutexRelease henter hcur (fun howner hhold => ?_) hcall)
      rw [show ∀ m, ((k.onSched (·.rtEnterCritical)).setMutex id m).mutex id = m from
        fun _ => update_self ..]
      refine ⟨(view_of_running hrunning).1, Nat.sub_eq_zero_of_le hhold, fun next hnext => hok (next, id) ?_⟩
      unfold handsOver
      dsimp only
      rw [if_pos ⟨howner.trans hcaller.symm, hhold⟩]
      exact map_eq_some_iff.mpr ⟨next, hnext, rfl⟩
    | mutexSetprioceiling id priority =>
      obtain rfl | hsection := (mutexSteps t).rtMutexSetprioceiling henter hcall
      · exact h
      · exact .of_section hsection
    | _ => simp [mutexEvent, hback] at hevent
  | proceed =>
    obtain ⟨t, -, hgo⟩ := exec_proceed heq
    exact h.proceed hgo
  | _ => simp [mutexEvent, hback] at hevent

/-- The owner of a mutex with a ceiling has at least that priority, in every state of a run in which
mutexes are handed over as `HandOk` says. -/
theorem ceiling_respected (h : ((mutexSystem T).guarded HandOk).Reachable k) {id : ℕ}
    (howner : (k.mutex id).owner = some t) (hceiling : (k.mutex id).ceilingPriority ≠ 0xff) :
    k.currentPriority t ≤ (k.mutex id).ceilingPriority := by
  have hinv : k.CeilingKept := by
    apply h.invariant
    · intro k hk
      have hfree : ∀ id u, (k.mutex id).owner ≠ some u := by
        intro id u hu
        rw [hk.mutex] at hu
        cases hu
      refine ⟨(Booted.calm hk : k.Calm False).queue, fun id u hu => absurd hu (hfree id u), ?_,
        fun id u hu => absurd hu (hfree id u)⟩
      intro u o ho
      rw [hk.pc] at ho
      cases ho
    · rintro k e k' hk ⟨hok, hevent, fuel, ret, heq⟩
      exact hk.exec hevent hok heq
  exact hinv.ceiling id t howner hceiling

/-- Whether a mutex is handed over within its ceiling can be evaluated. -/
instance (k : State T) (e : KernelEvent T) : Decidable (HandOk k e) :=
  inferInstanceAs (Decidable (∀ p ∈ k.handsOver e, (k.mutex p.2).ceilingPriority = 0xff ∨
    k.currentPriority p.1 ≤ (k.mutex p.2).ceilingPriority))

/-- Thread 0 sets the ceiling 15 of a mutex for which thread 1 waits, and hands it the mutex. -/
theorem ceiling_respected_release : ∃ k : State (Fin 2),
    ((mutexSystem (Fin 2)).guarded HandOk).Reachable k ∧ (k.mutex 0).owner = some 1 ∧
    (k.mutex 0).ceilingPriority = 15 ∧ k.currentPriority 1 ≤ (k.mutex 0).ceilingPriority :=
  TransitionSystem.Reachable.exists_and₂ (exists_run
    (fun k e => (mutexEvent e || backgroundEvent e) = true ∧ HandOk k e) 5
    (boot 32 ![20, 10] fun _ => 10) [.isr (.startup 0), .schedulerStart, .call (.mutexTake 0 0),
      .call (.startup 1), .call (.mutexTake 0 (-1)), .call (.mutexSetprioceiling 0 15),
      .call (.mutexRelease 0)] booted_boot
    (fun _ _ _ hok h => ⟨hok.2, hok.1, h⟩)) fun _ hreach howner hceiling =>
    ceiling_respected hreach howner (by rw [hceiling]; decide)

/-- A ceiling that is not respected. Thread 1 of priority 10 waits for a mutex, the owner sets the
ceiling 5 and releases the mutex. Thread 1 owns it with priority 10. -/
theorem ceiling_missed : ∃ k : State (Fin 2), (mutexSystem (Fin 2)).Reachable k ∧
    (k.mutex 0).owner = some 1 ∧ (k.mutex 0).ceilingPriority = 5 ∧ k.currentPriority 1 = 10 :=
  exists_run (fun _ e => (mutexEvent e || backgroundEvent e) = true) 5 (boot 32 ![20, 10] fun _ => 10)
    [.isr (.startup 0), .schedulerStart, .call (.mutexTake 0 0), .call (.startup 1),
      .call (.mutexTake 0 (-1)), .call (.mutexSetprioceiling 0 5), .call (.mutexRelease 0)]
    booted_boot (fun _ _ _ hok h => ⟨hok, h⟩)

end RtThread.Kernel.State
