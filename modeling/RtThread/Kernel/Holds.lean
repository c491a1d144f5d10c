import RtThread.Kernel.MutexSteps

/-!
# Who holds the mutexes

What the functions of mutexes do to the owners and the counts of the mutexes, and to the threads: where
each of them is in its call, whether it is suspended, its error code and its pending object. Priorities
do not matter here, so this holds in every state.
-/

namespace RtThread.Kernel

open Function Option Sched Waits

/-- The owners and the counts of the mutexes, and the lists of the mutexes that the threads hold. -/
@[ext]
structure Holds (T : Type*) where
  owner : ℕ → Option T
  hold : ℕ → ℕ
  taken : T → List ℕ

namespace Holds

variable {T : Type*}

/-- The mutex is taken or released once more by its owner. -/
def setHold (h : Holds T) (id hold : ℕ) : Holds T := { h with hold := update h.hold id hold }

/-- The last release: nobody owns the mutex. -/
def free (h : Holds T) (id : ℕ) : Holds T where
  owner := update h.owner id none
  hold := update h.hold id 0
  taken := fun t => (h.taken t).filter (· ≠ id)

/-- Every mutex that is owned is in the list of its owner. -/
def Listed (h : Holds T) : Prop := ∀ id t, h.owner id = some t → id ∈ h.taken t

variable {p : T → Prop} {h h' : Holds T}

/-- A mutex that has become free is in no list. -/
theorem Listed.free (hlisted : h.Listed) (id : ℕ) : (h.free id).Listed :=
  (forall_update_iff h.owner fun id' o => ∀ u, o = some u → id' ∈ (h.free id).taken u).mpr
    ⟨nofun, fun id' hid u hu => List.mem_filter.mpr ⟨hlisted id' u hu, decide_eq_true hid⟩⟩

variable [DecidableEq T]

/-- A thread becomes the owner of the mutex. -/
def own (h : Holds T) (id : ℕ) (t : T) : Holds T where
  owner := update h.owner id (some t)
  hold := update h.hold id 1
  taken := update h.taken t (id :: h.taken t)

/-- One mutex is taken, released or handed over, to a thread in `p`. -/
inductive Passed (p : T → Prop) (h : Holds T) : Holds T → Prop where
  | same : Passed p h h
  | hold (id hold : ℕ) : Passed p h (h.setHold id hold)
  | own (id : ℕ) {t : T} : p t → Passed p h (h.own id t)
  | free (id : ℕ) : Passed p h (h.free id)
  | hand (id : ℕ) {t : T} : p t → Passed p h ((h.free id).own id t)

/-- A mutex that has become owned is in the list of its owner. -/
theorem Listed.own (hlisted : h.Listed) (id : ℕ) (t : T) : (h.own id t).Listed := by
  refine (forall_update_iff h.owner fun id' o => ∀ u, o = some u → id' ∈ (h.own id t).taken u).mpr
    ⟨?_, fun id' _ u hu => ?_⟩
  · simp [Holds.own]
  · have hmem := hlisted id' u hu
    by_cases hut : u = t
    · simp [Holds.own, hut, hut ▸ hmem]
    · simpa [Holds.own, hut] using hmem

/-- Mutexes that are owned stay in the lists of their owners. -/
theorem Listed.passed (hlisted : h.Listed) (hpass : Passed p h h') : h'.Listed := by
  cases hpass with
  | same | hold => exact hlisted
  | own id => exact hlisted.own id _
  | free id => exact hlisted.free id
  | hand id => exact (hlisted.free id).own id _

/-- Only a thread in `p` becomes an owner. -/
theorem Passed.owner (hpass : Passed p h h') {id : ℕ} {t : T} (ht : h'.owner id = some t) :
    h.owner id = some t ∨ p t := by
  have hown : ∀ (g : Holds T) (id' : ℕ) (u : T), p u → (g.own id' u).owner id = some t →
      g.owner id = some t ∨ p t := by
    intro g id' u hu hid
    simp only [Holds.own, update_apply] at hid
    split at hid
    · exact .inr (some.inj hid ▸ hu)
    · exact .inl hid
  have hfree : ∀ id' : ℕ, (h.free id').owner id = some t → h.owner id = some t := by
    intro id' hid
    simp only [Holds.free, update_apply] at hid
    split at hid
    · cases hid
    · exact hid
  cases hpass with
  | same | hold => exact .inl ht
  | own id' hp => exact hown h id' _ hp ht
  | free id' => exact .inl (hfree id' ht)
  | hand id' hp => exact (hown _ id' _ hp ht).imp_left (hfree id')

end Holds

/-- What the mutex functions know of a thread. -/
@[ext]
structure Seat where
  fresh : Bool
  suspended : Bool
  pc : Pc
  error : ℤ
  pending : Option ℕ

namespace State

variable {T : Type*} {k k' k'' : State T} {t : T} {id : ℕ} {seats : T → Seat} {owners : Holds T}
variable {fuel rounds : ℕ} {ret : Option ℤ} {s : Sched T}

/-- The owners and the counts in a state. -/
def holds (k : State T) : Holds T :=
  ⟨fun id => (k.mutex id).owner, fun id => (k.mutex id).hold, k.takenObjectList⟩

/-- One thread in a state. -/
def seat (k : State T) (t : T) : Seat :=
  ⟨k.waits.fresh t, k.waits.suspended t, k.pc t, k.error t, k.pendingObject t⟩

/-- What a mutex function has done: the threads and the owners after it, and that a thread which enters
the list of a mutex has the mutex as its pending object. -/
structure MutexMove (k k' : State T) (seats : T → Seat) (owners : Holds T) : Prop where
  queue : k'.ReadyQueue
  waiting : ∀ id u, u ∈ k'.waits.waiting (.mutex id) →
    u ∈ k.waits.waiting (.mutex id) ∨ k'.pendingObject u = some id
  seat : k'.seat = seats
  holds : k'.holds = owners

/-- The threads depend on the view of the scheduler and on their calls. -/
theorem seat_congr (hwaits : k'.waits = k.waits) (hpc : k'.pc = k.pc) (herror : k'.error = k.error)
    (hpending : k'.pendingObject = k.pendingObject) : k'.seat = k.seat := by
  unfold State.seat
  rw [hwaits, hpc, herror, hpending]

/-- The owners depend on the mutexes. -/
theorem holds_congr (hmutex : k'.mutex = k.mutex) (htaken : k'.takenObjectList = k.takenObjectList) :
    k'.holds = k.holds := by
  unfold State.holds
  rw [hmutex, htaken]

/-- A mutex is written. -/
theorem holds_setMutex (k : State T) (id : ℕ) (mutex : Mutex T) : (k.setMutex id mutex).holds =
    { k.holds with
      owner := update k.holds.owner id mutex.owner
      hold := update k.holds.hold id mutex.hold } :=
  Holds.ext (comp_update Mutex.owner k.mutex id mutex) (comp_update Mutex.hold k.mutex id mutex) rfl

/-- The count of a mutex is written. -/
theorem holds_setMutex_hold (k : State T) (id hold : ℕ) :
    (k.setMutex id { k.mutex id with hold := hold }).holds = k.holds.setHold id hold := by
  have howner : update k.holds.owner id (k.mutex id).owner = k.holds.owner :=
    update_eq_self ..
  rw [holds_setMutex, howner]
  rfl

namespace Reprioritized

/-- The threads stay. -/
theorem seat (h : Reprioritized k k') : k'.seat = k.seat := by
  funext t
  have hview := h.view t
  have hfresh := congrArg ThreadView.fresh hview
  have hsusp := congrArg ThreadView.suspended hview
  have hpc := congrArg ThreadView.pc hview
  have herror := congrArg ThreadView.error hview
  have hpending := congrArg ThreadView.pendingObject hview
  exact Seat.ext hfresh hsusp hpc herror hpending

/-- The owners stay. -/
theorem holds (h : Reprioritized k k') : k'.holds = k.holds := by
  apply Holds.ext
  · funext id
    exact h.owner id
  · funext id
    exact h.hold id
  · rw [h.frame]
    rfl

end Reprioritized

namespace MutexMove

theorem refl (h : k.ReadyQueue) : MutexMove k k k.seat k.holds :=
  ⟨h, fun _ _ => .inl, rfl, rfl⟩

/-- The start of a critical section. -/
theorem enter (h : k.ReadyQueue) : MutexMove k (k.onSched (·.rtEnterCritical)) k.seat k.holds :=
  ⟨h.rtEnterCritical, fun _ _ => .inl, rfl, rfl⟩

section

variable (h : MutexMove k k' seats owners)
include h

/-- The owner of a mutex. -/
theorem owner (id : ℕ) : (k'.mutex id).owner = owners.owner id := congrFun (congrArg Holds.owner h.holds) id

/-- The count of a mutex. -/
theorem hold (id : ℕ) : (k'.mutex id).hold = owners.hold id := congrFun (congrArg Holds.hold h.holds) id

/-- Only the mutexes change. -/
theorem of_mutex (hsched : k''.toSched = k'.toSched) (hpc : k''.pc = k'.pc) (herror : k''.error = k'.error)
    (hpending : k''.pendingObject = k'.pendingObject) : MutexMove k k'' seats k''.holds where
  queue := by
    rw [hsched]
    exact h.queue
  waiting id u hu := by
    rw [hsched] at hu
    rw [hpending]
    exact h.waiting id u hu
  seat := (seat_congr (by rw [hsched]) hpc herror hpending).trans h.seat
  holds := rfl

/-- Priorities change. -/
theorem reprioritized (hstep : Reprioritized k' k'') : MutexMove k k'' seats owners where
  queue := hstep.queue
  waiting id u hu := by
    have hpending : k''.pendingObject = k'.pendingObject := by rw [hstep.frame]
    rw [hpending]
    rcases hstep.waiting _ u hu with hmem | ⟨-, id', hhead, hsome⟩
    · exact h.waiting id u hmem
    · obtain rfl := ListHead.mutex.inj hhead
      exact .inr hsome
  seat := hstep.seat.trans h.seat
  holds := hstep.holds.trans h.holds

/-- The scheduler runs, and the threads do not see it. -/
theorem unseen {f : Sched T → Sched T}
    (hqueue : (f k'.toSched).ReadyQueue) (hwaits : (f k'.toSched).waits = k'.waits) :
    MutexMove k (k'.onSched f) seats owners where
  queue := hqueue
  waiting id u hu := by
    refine h.waiting id u ?_
    rw [← hwaits]
    exact hu
  seat := by
    have hsame : (k'.onSched f).seat = k'.seat := seat_congr hwaits rfl rfl rfl
    exact hsame.trans h.seat
  holds := h.holds

variable [DecidableEq T]

/-- The end of a critical section. -/
theorem rtExitCritical : MutexMove k (k'.onSched (·.rtExitCritical)) seats owners :=
  h.unseen h.queue.rtExitCritical h.queue.waits_rtExitCritical

/-- An error code is written. -/
theorem setError (t : T) (error : ℤ) :
    MutexMove k (k'.setError t error) (update seats t { seats t with error := error }) owners := by
  refine { h with seat := ?_ }
  rw [← h.seat, eq_update_iff]
  exact ⟨by simp [State.seat, State.setError], fun u hu => by simp [State.seat, State.setError, hu]⟩

/-- A thread goes to another place. -/
theorem setPc (t : T) (pc : Pc) :
    MutexMove k (k'.setPc t pc) (update seats t { seats t with pc := pc }) owners := by
  refine { h with seat := ?_ }
  rw [← h.seat, eq_update_iff]
  exact ⟨by simp [State.seat, State.setPc], fun u hu => by simp [State.seat, State.setPc, hu]⟩

end

end MutexMove

variable [DecidableEq T]

/-! ## Taking -/

/-- What `rt_mutex_take` does: the owner takes the mutex once more, a free mutex is taken, the call is
refused, or the caller is suspended. -/
inductive TakeStep (k : State T) (t : T) (id : ℕ) : State T → Option ℤ → Prop where
  | again {k' : State T} : k.holds.owner id = some t →
      MutexMove k k' (update k.seat t { k.seat t with error := rtEok })
        (k.holds.setHold id (k.holds.hold id + 1)) → TakeStep k t id k' (some rtEok)
  | own {k' : State T} : k.holds.owner id = none →
      MutexMove k k' (update k.seat t { k.seat t with error := rtEok }) (k.holds.own id t) →
      TakeStep k t id k' (some rtEok)
  | refused {k' : State T} {error ret : ℤ} : ret ≠ rtEok →
      MutexMove k k' (update k.seat t { k.seat t with error := error }) k.holds →
      TakeStep k t id k' (some ret)
  | wait {k' : State T} : k.holds.owner id ≠ some t →
      MutexMove k k' (update k.seat t ⟨false, true, .mutexResched id, rtEok, some id⟩)
        k.holds → TakeStep k t id k' none

section

variable (h : MutexMove k k' seats owners)
include h

omit [DecidableEq T] in
/-- The count of a mutex is written. -/
theorem MutexMove.setHold (id hold : ℕ) :
    MutexMove k (k'.setMutex id { k'.mutex id with hold := hold }) seats (owners.setHold id hold) := by
  have hset : MutexMove k (k'.setMutex id { k'.mutex id with hold := hold }) seats _ :=
    h.of_mutex rfl rfl rfl rfl
  rwa [holds_setMutex_hold, h.holds] at hset

/-- A mutex that is owned is put into the list of its owner. -/
theorem MutexMove.takenInsert (t : T) (id : ℕ) : MutexMove k (k'.takenInsert t id) seats
      { owners with taken := update owners.taken t (id :: owners.taken t) } := by
  have htaken : MutexMove k (k'.takenInsert t id) seats _ := h.of_mutex rfl rfl rfl rfl
  rw [← h.holds]
  exact htaken

omit [DecidableEq T] in
/-- A mutex is written. -/
theorem MutexMove.setMutex (id : ℕ) (mutex : Mutex T) : MutexMove k (k'.setMutex id mutex) seats
      { owners with
        owner := update owners.owner id mutex.owner
        hold := update owners.hold id mutex.hold } := by
  have hset : MutexMove k (k'.setMutex id mutex) seats _ := h.of_mutex rfl rfl rfl rfl
  rwa [holds_setMutex, h.holds] at hset

/-- A thread becomes the owner of a mutex. -/
theorem MutexMove.own (heq : raiseOwner fuel k' t id = some k'') :
    MutexMove k (k''.takenInsert t id) seats (owners.own id t) := by
  have hset := h.setMutex id { k'.mutex id with owner := some t, priority := 0xff, hold := 1 }
  have hraised := passesOn_reprioritized.updateIf hset.queue (fun hlow => .inl hlow.2.le) heq
  exact (hset.reprioritized hraised).takenInsert t id

/-- A thread is suspended on the list of a mutex, which becomes its pending object. -/
theorem MutexMove.suspend {suspendFlag : SuspendFlag}
    (heq : k'.rtThreadSuspendToList t (some (.mutex id)) .prio suspendFlag = some (s, true)) :
    MutexMove k (({ k' with toSched := s }).setPendingObject t (some id))
      (update seats t ⟨false, true, (seats t).pc, (seats t).error, some id⟩) owners := by
  obtain ⟨hsusp, hwaits⟩ := h.queue.waits_rtThreadSuspendToList rfl heq
  have hqueue : s.ReadyQueue := h.queue.rtThreadSuspendToList (by simp [ListHead.isWait]) heq
  rw [timerStop_eq] at hwaits
  refine ⟨hqueue, ?_, ?_, h.holds⟩
  · intro id' u hu
    have hmem : u ∈ ((k'.waits.setSuspended t true).link (.mutex id) t .prio).waiting (.mutex id') := by
      change u ∈ s.waits.waiting (.mutex id') at hu
      rw [hwaits] at hu
      exact hu
    rw [mem_link_waiting] at hmem
    by_cases hut : u = t
    · subst hut
      rcases hmem with hold | ⟨-, hhead⟩
      · have hold' : u ∈ k'.waits.waiting (.mutex id') := hold
        exact absurd hold' (h.queue.queue.not_waiting hsusp _ rfl)
      · obtain rfl := ListHead.mutex.inj hhead
        exact .inr (update_self ..)
    · rcases hmem with hold | ⟨rfl, -⟩
      · exact (h.waiting id' u hold).imp_right fun hpending =>
          (update_of_ne hut ..).trans hpending
      · exact absurd rfl hut
  · rw [← h.seat, eq_update_iff]
    unfold State.seat setPendingObject
    rw [hwaits]
    exact ⟨by simp [link, setSuspended], fun u hu => by simp [link, setSuspended, hu]⟩

/-- A timer is started. -/
theorem MutexMove.startTimerIf (t : T) (timeout : ℤ) :
    MutexMove k (k'.startTimerIf t timeout) seats owners := by
  have hqueue := startTimerIf_queue h.queue t timeout
  unfold State.startTimerIf at hqueue ⊢
  split
  next hpos =>
    rw [if_pos hpos] at hqueue
    refine ⟨hqueue, ?_, ?_, h.holds⟩
    · intro id' u hu
      refine h.waiting id' u ?_
      exact hu
    · rw [← h.seat]
      funext u
      simp [State.seat, onSched, waits_rtTimerStart, timerStart]
  · exact h

end

/-- `rt_mutex_take`, up to its return or its suspension. -/
theorem rtMutexTake_takeStep {timeout : ℤ} (h : k.ReadyQueue)
    (hrunner : k.runner = some t) (heq : rtMutexTake fuel k id timeout = some (k', ret)) :
    TakeStep k t id k' ret := by
  obtain ⟨hcur, hrunning⟩ := runner_eq hrunner
  unfold rtMutexTake mutexTake at heq
  split at heq
  · cases heq
  rename_i thread hthread
  obtain rfl : thread = t := mem_unique hthread hcur
  have hlocked := MutexMove.enter h
  have henter := hlocked.setError thread rtEok
  have hcode : (((k.onSched (·.rtEnterCritical)).setError thread rtEok).stat thread).code = .running :=
    hrunning
  dsimp only at heq
  have howner := henter.owner id
  split at heq
  next hmine =>
    split at heq
    · cases heq
      refine .again (howner ▸ hmine) (MutexMove.rtExitCritical ?_)
      rw [← henter.hold]
      exact henter.setHold id _
    · cases heq
      exact .refused (by decide) henter.rtExitCritical
  rename_i hmine
  split at heq
  next hfree =>
    obtain ⟨k2, hk2, ⟨⟩⟩ := map_eq_some_iff.mp heq
    exact .own (howner ▸ hfree) (henter.own hk2).rtExitCritical
  · split at heq
    · cases heq
      have herror := (henter.setError thread rtEtimeout).rtExitCritical
      rw [update_self, update_idem] at herror
      exact .refused (by decide) herror
    · obtain ⟨⟨s, ok⟩, hs, heq⟩ := bind_eq_some_iff.mp heq
      cases ok with
      | false =>
        obtain ⟨-, ⟨-, -, hnot⟩ | ⟨hok, -⟩⟩ := henter.queue.rtThreadSuspendToList_eq hs
        · exact absurd hcode hnot
        · cases hok
      | true =>
        dsimp only at heq
        obtain ⟨k2, hk2, ⟨⟩⟩ := map_eq_some_iff.mp heq
        have hsuspend := henter.suspend hs
        have hnote := hsuspend.reprioritized (passesOn_reprioritized.noteWaiter hsuspend.queue hk2)
        have hwait := ((hnote.startTimerIf thread timeout).setPc thread (.mutexResched id)).rtExitCritical
        rw [update_self, update_self, update_idem, update_idem] at hwait
        exact .wait (howner ▸ hmine) hwait

/-- The end of `rt_mutex_take` for a thread that was suspended: it owns the mutex, or gives up. The
assertions of the function hold. -/
inductive WokenStep (k : State T) (t : T) (id : ℕ) : State T → Option ℤ → Prop where
  | granted {k' : State T} : k.error t = rtEok → k.holds.owner id = some t →
      MutexMove k k' (update k.seat t { k.seat t with pc := .idle }) k.holds →
      WokenStep k t id k' (some rtEok)
  | failed {k' : State T} {ret : ℤ} : k.error t ≠ rtEok → k.holds.owner id ≠ some t → ret ≠ rtEok →
      MutexMove k k' (update k.seat t { k.seat t with pc := .mutexClear ret }) k.holds →
      WokenStep k t id k' none

/-- The end of `rt_mutex_take` for a thread that was suspended. -/
theorem mutexTakeWoken_wokenStep (h : k.ReadyQueue)
    (heq : mutexTakeWoken fuel k t id = some (k', ret)) : WokenStep k t id k' ret := by
  have hlocked := MutexMove.enter h
  have herror : (k.onSched (·.rtEnterCritical)).error = k.error := rfl
  unfold mutexTakeWoken at heq
  dsimp only at heq
  rw [herror, hlocked.owner] at heq
  split at heq
  next hok =>
    split_ifs at heq with hmine
    cases heq
    exact .granted hok hmine (hlocked.setPc t .idle).rtExitCritical
  next hok =>
    split at heq
    · cases heq
    next hmine =>
      obtain ⟨k2, hk2, ⟨⟩⟩ := map_eq_some_iff.mp heq
      have hgive := hlocked.reprioritized (passesOn_reprioritized.giveUp hlocked.queue hk2)
      refine .failed hok hmine ?_ (hgive.setPc t _).rtExitCritical
      have hok' : k.error t ≠ 0 := hok
      change (if 0 < k.error t then -k.error t else k.error t) ≠ 0
      split <;> omega

/-! ## Releasing -/

/-- What `rt_mutex_release` does: the caller is not the owner, or it holds the mutex still, or the mutex
is freed or handed to a waiting thread. -/
inductive ReleaseStep (k : State T) (t : T) (id : ℕ) : State T → Option ℤ → Prop where
  | refused {k' : State T} : k.holds.owner id ≠ some t → k'.waits = k.waits →
      k'.mutex = k.mutex →
      MutexMove k k' (update k.seat t { k.seat t with error := -rtError }) k.holds →
      ReleaseStep k t id k' (some (-rtError))
  | drop {k' : State T} : k.holds.owner id = some t → k.holds.hold id - 1 ≠ 0 →
      MutexMove k k' k.seat (k.holds.setHold id (k.holds.hold id - 1)) →
      ReleaseStep k t id k' (some rtEok)
  | free {k' : State T} {pc : Pc} {ret : Option ℤ} : k.holds.owner id = some t →
      k.holds.hold id - 1 = 0 → pc = k.pc t ∧ ret = some rtEok ∨ pc = .resched rtEok ∧ ret = none →
      MutexMove k k' (update k.seat t { k.seat t with pc := pc }) (k.holds.free id) →
      ReleaseStep k t id k' ret
  | hand {k' : State T} {next : T} : k.holds.owner id = some t → k.holds.hold id - 1 = 0 →
      next ∈ k.waits.waiting (.mutex id) ∨ k.pendingObject next = some id →
      (k.seat next).suspended = true → next ≠ t →
      MutexMove k k' (update (update k.seat next
          { k.seat next with suspended := false, pending := none }) t
        { k.seat t with pc := .resched rtEok }) ((k.holds.free id).own id next) →
      ReleaseStep k t id k' none

omit [DecidableEq T] in
/-- A mutex is taken out of the list of its owner. -/
theorem MutexMove.takenRemove (h : MutexMove k k' seats owners) (id : ℕ) :
    MutexMove k (k'.takenRemove id) seats
      { owners with taken := fun t => (owners.taken t).filter (· ≠ id) } := by
  have htaken : MutexMove k (k'.takenRemove id) seats _ := h.of_mutex rfl rfl rfl rfl
  rw [← h.holds]
  exact htaken

omit [DecidableEq T] in
/-- The priority of a mutex is computed again. -/
theorem MutexMove.mutexUpdatePriority (h : MutexMove k k' seats owners) (id : ℕ) :
    MutexMove k (k'.mutexUpdatePriority id) seats owners :=
  h.reprioritized (reprioritized_setMutex h.queue id _)

/-- A thread that is not suspended forgets its pending object. -/
theorem MutexMove.clearPending (h : MutexMove k k' seats owners) (ht : k'.isSuspended t = false) :
    MutexMove k (k'.setPendingObject t none) (update seats t { seats t with pending := none })
      owners where
  queue := h.queue
  waiting id u hu := by
    have hmem : u ∈ k'.waits.waiting (.mutex id) := hu
    have hut : u ≠ t := by
      rintro rfl
      exact h.queue.queue.not_waiting ht _ rfl hmem
    exact (h.waiting id u hmem).imp_right fun hpending =>
      (update_of_ne hut ..).trans hpending
  seat := by
    rw [← h.seat, eq_update_iff]
    exact ⟨by simp [State.seat, State.setPendingObject],
      fun u hu => by simp [State.seat, State.setPendingObject, hu]⟩
  holds := h.holds

/-- The wake-up loop of `rt_mutex_release` wakes the thread that it returns. -/
theorem releaseWake_woken {s' : Sched T} {next : T}
    (heq : releaseWake id rounds s = some (s', some next)) : s'.isSuspended next = false := by
  refine releaseWake_induct (C := fun _ s' next => ∀ n ∈ next, s'.isSuspended n = false)
    (by simp) ?_ (fun _ _ _ _ _ _ _ hrest => hrest) heq next rfl
  rintro s n - - hready n' ⟨⟩
  obtain ⟨hok, hwaits⟩ := (s.listRemove n).waits_rtSchedThreadReady n
  rw [hok, Bool.and_eq_true] at hready
  change ((s.listRemove n).rtSchedThreadReady n).1.waits.suspended n = false
  rw [hwaits]
  simp [wake, setSuspended, hready.1, hready.2]

omit [DecidableEq T] in
/-- A thread whose state the scheduler has left. -/
theorem seat_of_code {u : T} (hcode : (s.stat u).code = (k.stat u).code) :
    ({ k with toSched := s } : State T).seat u = k.seat u := by
  refine Seat.ext ?_ ?_ rfl rfl rfl
  · exact congrArg (fun code => decide (code = .init)) hcode
  · exact congrArg (·.isSuspend) hcode

/-- The wake-up loop of `rt_mutex_release`: no thread is woken. -/
theorem MutexMove.releaseWake_none (h : MutexMove k k' seats owners)
    (heq : releaseWake id rounds k'.toSched = some (s, none)) :
    MutexMove k { k' with toSched := s } seats owners := by
  obtain ⟨hwakes, -⟩ := h.queue.wakes_releaseWake heq
  refine ⟨hwakes.queue, fun id u hu => h.waiting id u (hwakes.waiting _ u hu), ?_, h.holds⟩
  rw [← h.seat]
  funext u
  rcases hwakes.code u with hsame | ⟨⟨⟩, -⟩
  exact seat_of_code hsame

/-- The wake-up loop of `rt_mutex_release`: the thread that it returns is woken. -/
theorem MutexMove.releaseWake_some {next : T} (h : MutexMove k k' seats owners)
    (heq : releaseWake id rounds k'.toSched = some (s, some next)) :
    (k'.seat next).suspended = true ∧ next ∈ k'.waits.waiting (.mutex id) ∧
    MutexMove k { k' with toSched := s }
      (update seats next { seats next with suspended := false }) owners := by
  obtain ⟨hwakes, hnext⟩ := h.queue.wakes_releaseWake heq
  have hwoken := releaseWake_woken heq
  obtain ⟨hmem, hsusp⟩ := hnext next rfl
  refine ⟨hsusp, hmem, hwakes.queue, fun id u hu => h.waiting id u (hwakes.waiting _ u hu), ?_, h.holds⟩
  rw [← h.seat]
  funext u
  by_cases hu : u = next
  · subst hu
    rw [update_self]
    refine Seat.ext ?_ hwoken rfl rfl rfl
    · change s.isFresh u = k'.isFresh u
      have hstarted : k'.isFresh u = false := by
        unfold isSuspended at hsusp
        unfold isFresh
        rw [decide_eq_false_iff_not]
        intro hinit
        rw [hinit] at hsusp
        cases hsusp
      rcases hwakes.code u with hsame | ⟨-, -, hcode⟩
      · rw [isFresh, isFresh, hsame]
      · rw [hstarted]
        rcases hcode with hcode | hcode <;> simp [isFresh, hcode]
  · rw [update_of_ne hu]
    rcases hwakes.code u with hsame | ⟨hsome, -⟩
    · exact seat_of_code hsame
    · exact absurd (some.inj hsome).symm hu

/-- `rt_mutex_release` after its last `hold` has gone: the mutex is freed, or handed to a thread that
waits for it. -/
theorem MutexMove.releaseLast {needSchedule : Bool} (h : MutexMove k k' seats owners)
    (hhold : owners.hold id = 0) (heq : k'.releaseLast t id = some (k'', needSchedule)) :
    MutexMove k k'' seats (owners.free id) ∨ ∃ next, needSchedule = true ∧
      (next ∈ k.waits.waiting (.mutex id) ∨ (seats next).pending = some id) ∧
      (seats next).suspended = true ∧ MutexMove k k'' (update seats next
        { seats next with suspended := false, pending := none }) ((owners.free id).own id next) := by
  obtain ⟨⟨k1, need⟩, hk1, heq⟩ := bind_eq_some_iff.mp heq
  have hremove := h.takenRemove id
  have hprio := hremove.reprioritized (passesOn_reprioritized.checkAndUpdatePrio hremove.queue hk1)
  obtain ⟨⟨s, next⟩, hs, heq⟩ := map_eq_some_iff.mp heq
  cases next with
  | none =>
    cases heq
    left
    have hnone := hprio.releaseWake_none hs
    have hset := hnone.setMutex id { k1.mutex id with owner := none, priority := 0xff }
    have hsame : (k1.mutex id).hold = owners.hold id := hprio.hold id
    have howners : ({ owners with
        owner := update owners.owner id none
        hold := update owners.hold id (k1.mutex id).hold
        taken := fun t => (owners.taken t).filter (· ≠ id) } : Holds T) = owners.free id := by
      rw [hsame, hhold]
      rfl
    rw [← howners]
    exact hset
  | some next =>
    cases heq
    right
    obtain ⟨hsusp, hmem, hwoken⟩ := hprio.releaseWake_some hs
    have hseat : k1.seat next = seats next := congrFun hprio.seat next
    refine ⟨next, rfl, ?_, hseat ▸ hsusp, ?_⟩
    · rw [← hseat]
      exact hprio.waiting id next hmem
    have hnot : s.isSuspended next = false := releaseWake_woken hs
    have hset := hwoken.setMutex id { k1.mutex id with owner := some next, hold := 1 }
    have hclear := (hset.takenInsert next id).clearPending hnot
    have hdone := hclear.mutexUpdatePriority id
    rw [update_self, update_idem] at hdone
    have howners : (owners.free id).own id next = ⟨update owners.owner id (some next),
        update owners.hold id 1, update (fun t => (owners.taken t).filter (· ≠ id)) next
          (id :: (owners.taken next).filter (· ≠ id))⟩ := by
      unfold Holds.own Holds.free
      rw [update_idem, update_idem]
    rw [howners]
    exact hdone

/-- `rt_mutex_release`, by a thread that is not suspended. -/
theorem rtMutexRelease_releaseStep (h : k.ReadyQueue) (hcur : k.current = some t)
    (hnot : (k.seat t).suspended = false) (heq : k.rtMutexRelease id = some (k', ret)) :
    ReleaseStep k t id k' ret := by
  unfold State.rtMutexRelease at heq
  split at heq
  · cases heq
  rename_i thread hthread
  obtain rfl : thread = t := mem_unique hthread hcur
  have hlocked := MutexMove.enter h
  have hwaits : (k.onSched (·.rtEnterCritical)).waits = k.waits := rfl
  have hmutex : (k.onSched (·.rtEnterCritical)).mutex = k.mutex := rfl
  generalize k.onSched (·.rtEnterCritical) = k1 at heq hlocked hwaits hmutex
  dsimp only at heq
  have howner := hlocked.owner id
  have hhold := hlocked.hold id
  split at heq
  next hmine =>
    rw [howner] at hmine
    have hset := hlocked.setHold id ((k1.mutex id).hold - 1)
    have hself : ((k1.setMutex id { k1.mutex id with hold := (k1.mutex id).hold - 1 }).mutex id).hold =
        k.holds.hold id - 1 := by
      simp [State.setMutex, hhold]
    rw [hself] at heq
    rw [hhold] at heq hset
    split at heq
    next hlast =>
      obtain ⟨⟨k2, need⟩, hk2, heq⟩ := map_eq_some_iff.mp heq
      have hzero : (k.holds.setHold id (k.holds.hold id - 1)).hold id = 0 := by
        rw [hlast]
        exact update_self ..
      have hfree : (k.holds.setHold id (k.holds.hold id - 1)).free id = k.holds.free id := by
        unfold Holds.free Holds.setHold
        rw [update_idem]
      rcases hset.releaseLast hzero hk2 with hfreed | ⟨next, rfl, hfrom, hsusp, hhand⟩
      · rw [hfree] at hfreed
        split at heq
        · cases heq
          exact .free hmine hlast (.inr ⟨rfl, rfl⟩) (hfreed.setPc thread _).rtExitCritical
        · cases heq
          refine .free hmine hlast (.inl ⟨rfl, rfl⟩) ?_
          rw [show ({ k.seat thread with pc := k.pc thread } : Seat) = k.seat thread from rfl,
            update_eq_self]
          exact hfreed.rtExitCritical
      · rw [hfree] at hhand
        cases heq
        have hne : next ≠ thread := by
          rintro rfl
          rw [hsusp] at hnot
          cases hnot
        have hdone := (hhand.setPc thread (.resched rtEok)).rtExitCritical
        rw [update_of_ne (Ne.symm hne)] at hdone
        exact .hand hmine hlast hfrom hsusp hne hdone
    next hmore =>
      cases heq
      exact .drop hmine hmore hset.rtExitCritical
  next hmine =>
    rw [howner] at hmine
    cases heq
    refine .refused hmine ?_ hmutex (hlocked.setError thread (-rtError)).rtExitCritical
    have hexit : k1.rtExitCritical.waits = k1.waits := hlocked.queue.waits_rtExitCritical
    exact hexit.trans hwaits

/-- `rt_mutex_setprioceiling` leaves the threads and the owners. -/
theorem rtMutexSetprioceiling_mutexMove {priority : ℕ} (h : k.ReadyQueue)
    (heq : rtMutexSetprioceiling fuel k id priority = some (k', ret)) : MutexMove k k' k.seat k.holds := by
  unfold rtMutexSetprioceiling at heq
  split at heq
  · obtain ⟨k2, hk2, ⟨⟩⟩ := map_eq_some_iff.mp heq
    have hset := (MutexMove.enter h).setMutex id { k.mutex id with ceilingPriority := priority }
    have howner : update k.holds.owner id (k.mutex id).owner = k.holds.owner :=
      update_eq_self ..
    have hhold : update k.holds.hold id (k.mutex id).hold = k.holds.hold :=
      update_eq_self ..
    rw [howner, hhold] at hset
    have hraised : Reprioritized ((k.onSched (·.rtEnterCritical)).setMutex id
        { k.mutex id with ceilingPriority := priority }) k2 := by
      split at hk2
      · exact passesOn_reprioritized.updateIf hset.queue (fun _ => .inr rfl) hk2
      · cases hk2
        exact .refl hset.queue
    exact (hset.reprioritized hraised).rtExitCritical
  · cases heq
    exact .refl h

/-! ## Who can become an owner -/

/-- `rt_mutex_take` makes the caller an owner. -/
theorem TakeStep.passed (h : TakeStep k t id k' ret) {p : T → Prop} (ht : p t) :
    Holds.Passed p k.holds k'.holds := by
  cases h with
  | again _ hmove => rw [hmove.holds]; exact .hold id _
  | own _ hmove => rw [hmove.holds]; exact .own id ht
  | refused _ hmove | wait _ hmove => rw [hmove.holds]; exact .same

/-- `rt_mutex_release` makes a suspended thread an owner. -/
theorem ReleaseStep.passed (h : ReleaseStep k t id k' ret) {p : T → Prop}
    (hp : ∀ u, (k.seat u).suspended = true → p u) : Holds.Passed p k.holds k'.holds := by
  cases h with
  | refused _ _ _ hmove => rw [hmove.holds]; exact .same
  | drop _ _ hmove => rw [hmove.holds]; exact .hold id _
  | free _ _ _ hmove => rw [hmove.holds]; exact .free id
  | hand _ _ _ hsusp _ hmove => rw [hmove.holds]; exact .hand id (hp _ hsusp)

/-- The end of `rt_mutex_take` leaves the owners. -/
theorem WokenStep.holds (h : WokenStep k t id k' ret) : k'.holds = k.holds := by
  cases h with
  | granted _ _ hmove | failed _ _ _ hmove => exact hmove.holds

/-- The events of a run of the mutex functions. -/
def mutexEvent : KernelEvent T → Bool
  | .call (.mutexTake _ _) => true
  | .call (.mutexRelease _) => true
  | .call (.mutexSetprioceiling _ _) => true
  | .proceed => true
  | _ => false

end State

end RtThread.Kernel
