import RtThread.Kernel.Basic

/-!
# Mutexes, their owners and the threads that wait

The part of the kernel that priority inheritance depends on. A thread inherits the smallest priority
among the mutexes it holds, and a mutex carries the smallest priority of the threads that wait for
it. `Exact` says that both hold everywhere; while a change is being passed on, it holds everywhere
but at one place in a wait list.

A thread that timed out has left the list, but its priority stays with the mutex until it gives up.
-/

namespace RtThread.Kernel

open Lib Function

/-- What priority inheritance depends on. A thread whose timer is just expiring is firing. -/
@[ext]
structure Locks (T : Type*) where
  init : T → ℕ
  current : T → ℕ
  suspended : T → Bool
  firing : T → Bool
  waiting : ℕ → List T
  mutex : ℕ → Mutex T
  taken : T → List ℕ
  pending : T → Option ℕ

namespace Locks

variable {T : Type*} {v : Locks T}

/-- The priority that a thread inherits: the smallest of its own and those of its mutexes. -/
def inherited (v : Locks T) (t : T) : ℕ :=
  leastKey (fun id => (v.mutex id).priority) (v.init t) (v.taken t)

/-- Who owns and who waits for which mutex; no mutex has a ceiling. -/
structure Owned (v : Locks T) : Prop where
  ceiling : ∀ id, (v.mutex id).ceilingPriority = 0xff
  initBound : ∀ t, v.init t ≤ 0xff
  bound : ∀ t, v.current t ≤ 0xff
  mutexBound : ∀ id, (v.mutex id).priority ≤ 0xff
  hold : ∀ id, (v.mutex id).owner ≠ none ↔ 0 < (v.mutex id).hold
  taken : ∀ t id, id ∈ v.taken t ↔ (v.mutex id).owner = some t
  waiting : ∀ t id, t ∈ v.waiting id ↔ v.suspended t = true ∧ v.pending t = some id

/-- A mutex that threads wait for has an owner, but perhaps for the mutex `free`. -/
def Served (v : Locks T) (free : Option ℕ) : Prop :=
  ∀ id, free ≠ some id → v.waiting id ≠ [] → (v.mutex id).owner ≠ none

/-- The wait lists are in order of priority, but for the thread `moved`, whose priority has
changed. -/
def Sorted (v : Locks T) (moved : Option T) : Prop :=
  ∀ id, (v.waiting id).Pairwise
    (fun a b => moved ≠ some a → moved ≠ some b → v.current a ≤ v.current b)

/-- A mutex carries the first priority of its list, if `moved` is not in the list and no thread that
has timed out is still to give up. -/
def First (v : Locks T) (moved : Option T) : Prop :=
  ∀ id, (∀ u ∈ v.waiting id, moved ≠ some u) → (∀ u, v.pending u = some id → v.suspended u = true) →
    (v.mutex id).priority = firstKey v.current 0xff (v.waiting id)

/-- Every thread but `except` has the priority it inherits. -/
def Inherits (v : Locks T) (except : Option T) : Prop :=
  ∀ t, except ≠ some t → v.current t = v.inherited t

/-- Priority inheritance is exact, but for the thread `moved`, whose new priority is still to be
passed on, and the thread `except`, whose priority is still to be changed. -/
structure Exact (v : Locks T) (moved except : Option T) : Prop where
  owned : v.Owned
  served : v.Served none
  sorted : v.Sorted moved
  first : v.First moved
  inherits : v.Inherits except

/-- With no thread out of place the lists are sorted. -/
theorem sorted_none_iff : v.Sorted none ↔ ∀ id, SortedBy v.current (v.waiting id) := by
  simp only [Sorted, SortedBy, ne_eq, reduceCtorEq, not_false_eq_true, forall_const]

/-- A thread that waits nowhere is never out of place. -/
theorem Sorted.settle {t : T} (h : v.Sorted (some t)) (ht : ∀ id, t ∉ v.waiting id) : v.Sorted none := by
  intro id
  apply List.Pairwise.imp_of_mem _ (h id)
  intro a b ha hb hab _ _
  apply hab
  · rintro ⟨rfl⟩
    exact ht id ha
  · rintro ⟨rfl⟩
    exact ht id hb

/-- A thread that waits nowhere leaves the first priorities. -/
theorem First.settle {t : T} (h : v.First (some t)) (ht : ∀ id, t ∉ v.waiting id) : v.First none := by
  intro id _ hghost
  refine h id ?_ hghost
  rintro u hu ⟨rfl⟩
  exact ht id hu

/-- A new priority of a thread that waits nowhere need not be passed on. -/
theorem Exact.settle {t : T} (h : v.Exact (some t) none) (ht : ∀ id, t ∉ v.waiting id) :
    v.Exact none none :=
  ⟨h.owned, h.served, h.sorted.settle ht, h.first.settle ht, h.inherits⟩

/-- A suspended thread waits for one mutex. -/
theorem Owned.not_waiting {t : T} (h : v.Owned)
    (ht : v.suspended t = false ∨ v.pending t = none) (id : ℕ) : t ∉ v.waiting id := by
  intro hmem
  obtain ⟨hsusp, hpending⟩ := (h.waiting t id).mp hmem
  rcases ht with ht | ht
  · rw [ht] at hsusp
    cases hsusp
  · rw [ht] at hpending
    cases hpending

section Update

variable {t : T} {id : ℕ}

/-- A mutex is written. -/
def setMutex (v : Locks T) (id : ℕ) (mutex : Mutex T) : Locks T :=
  { v with mutex := update v.mutex id mutex }

theorem setMutex_self (v : Locks T) (id : ℕ) (mutex : Mutex T) :
    (v.setMutex id mutex).mutex id = mutex := update_self ..

theorem setMutex_of_ne (v : Locks T) {id id' : ℕ} (mutex : Mutex T) (h : id' ≠ id) :
    (v.setMutex id mutex).mutex id' = v.mutex id' := update_of_ne h ..

/-- The last write counts. -/
theorem setMutex_setMutex (v : Locks T) (id : ℕ) (mutex mutex' : Mutex T) :
    (v.setMutex id mutex).setMutex id mutex' = v.setMutex id mutex' := by
  unfold setMutex
  rw [update_idem]

/-- A mutex gets the priority of the first thread that waits for it. -/
def refresh (v : Locks T) (id : ℕ) : Locks T :=
  v.setMutex id ((v.mutex id).withPriority (firstKey v.current 0xff (v.waiting id)))

/-- A mutex is written, and the lists of the mutexes that the threads hold. -/
def write (v : Locks T) (id : ℕ) (m : Mutex T) (held : T → List ℕ) : Locks T :=
  { v with mutex := update v.mutex id m, taken := held }

variable {m : Mutex T} {held : T → List ℕ}

/-- A write that keeps to the limits and lists the mutex for its owner. -/
theorem Owned.write (h : v.Owned) (hceiling : m.ceilingPriority = 0xff) (hbound : m.priority ≤ 0xff)
    (hhold : m.owner ≠ none ↔ 0 < m.hold) (hself : ∀ u, id ∈ held u ↔ m.owner = some u)
    (hother : ∀ u, ∀ id' ≠ id, id' ∈ held u ↔ id' ∈ v.taken u) : (v.write id m held).Owned :=
  { h with
    ceiling := (forall_update_iff v.mutex fun _ m => m.ceilingPriority = 0xff).mpr
      ⟨hceiling, fun id' _ => h.ceiling id'⟩
    mutexBound := (forall_update_iff v.mutex fun _ m => m.priority ≤ 0xff).mpr
      ⟨hbound, fun id' _ => h.mutexBound id'⟩
    hold := (forall_update_iff v.mutex fun _ m => m.owner ≠ none ↔ 0 < m.hold).mpr
      ⟨hhold, fun id' _ => h.hold id'⟩
    taken := fun u => (forall_update_iff v.mutex fun id' m => id' ∈ held u ↔ m.owner = some u).mpr
      ⟨hself u, fun id' hid => (hother u id' hid).trans (h.taken u id')⟩ }

/-- A write that leaves an owner to the threads that wait for the mutex. -/
theorem Served.write {free free' : Option ℕ} (h : v.Served free)
    (hself : free' ≠ some id → v.waiting id ≠ [] → m.owner ≠ none)
    (hother : ∀ id' ≠ id, free' ≠ some id' → free ≠ some id') : (v.write id m held).Served free' :=
  (forall_update_iff v.mutex fun id' m => free' ≠ some id' → v.waiting id' ≠ [] → m.owner ≠ none).mpr
    ⟨hself, fun id' hid hfree => h id' (hother id' hid hfree)⟩

/-- A write of the first priority. -/
theorem First.write (h : v.First none) (hself : (∀ u, v.pending u = some id → v.suspended u = true) →
    m.priority = firstKey v.current 0xff (v.waiting id)) : (v.write id m held).First none := by
  intro id' hmoved hghost
  by_cases hid : id' = id
  · subst hid
    simpa only [Locks.write, update_self] using hself hghost
  · simpa only [Locks.write, update_of_ne hid] using h id' hmoved hghost

/-- A thread that does not hold the mutex inherits nothing from it. -/
theorem inherited_write {u : T} (hu : id ∉ v.taken u) (hheld : held u = v.taken u) :
    (v.write id m held).inherited u = v.inherited u := by
  simp only [inherited, write, hheld]
  apply leastKey_congr
  intro id' hmem
  exact congrArg Mutex.priority (update_of_ne (ne_of_mem_of_not_mem hmem hu) ..)

/-- Writing the priority of a mutex leaves the owners and the waiting threads. -/
theorem Owned.setMutexPriority (h : v.Owned) {priority : ℕ} (hprio : priority ≤ 0xff) :
    (v.setMutex id ((v.mutex id).withPriority priority)).Owned :=
  h.write (h.ceiling id) hprio (h.hold id) (fun u => h.taken u id) fun _ _ _ => Iff.rfl

/-- A lower priority of a mutex is inherited by its owner. -/
theorem inherited_setMutex_min {o : T} (h : v.Owned) (ho : (v.mutex id).owner = some o) (p : ℕ) :
    (v.setMutex id ((v.mutex id).withPriority (min p (v.mutex id).priority))).inherited o =
      min (v.inherited o) p := by
  apply leastKey_eq_of_bounds
  intro b
  rw [le_min_iff, inherited, le_leastKey_iff]
  have hmem : id ∈ v.taken o := (h.taken o id).mpr ho
  constructor
  · rintro ⟨⟨hinit, hall⟩, hp⟩
    refine ⟨hinit, fun id' hid' => ?_⟩
    by_cases hid : id' = id
    · subst hid
      rw [setMutex_self]
      exact le_min hp (hall id' hid')
    · rw [setMutex_of_ne _ _ hid]
      exact hall id' hid'
  · rintro ⟨hinit, hall⟩
    have hself := hall id hmem
    rw [setMutex_self] at hself
    obtain ⟨hp, hprio⟩ := le_min_iff.mp hself
    refine ⟨⟨hinit, fun id' hid' => ?_⟩, hp⟩
    by_cases hid : id' = id
    · rw [hid]
      exact hprio
    · have hother := hall id' hid'
      rwa [setMutex_of_ne _ _ hid] at hother

/-- The priority of a mutex matters to its owner only. -/
theorem Inherits.setMutex (h : v.Inherits none) (howned : v.Owned) (id : ℕ) (mutex : Mutex T) :
    (v.setMutex id mutex).Inherits (v.mutex id).owner := by
  intro u hu
  have hnot : id ∉ v.taken u := fun hmem => hu ((howned.taken u id).mp hmem)
  exact (h u (by simp)).trans (inherited_write hnot rfl).symm

/-- A thread inherits at most 0xff. -/
theorem Owned.inherited_le (h : v.Owned) (t : T) : v.inherited t ≤ 0xff :=
  le_trans leastKey_le_init (h.initBound t)

/-- The lists of other mutexes do not have the thread. -/
theorem Owned.ne_of_mem_waiting (h : v.Owned) (ht : t ∈ v.waiting id) {id' : ℕ} (hid : id' ≠ id) :
    ∀ u ∈ v.waiting id', some t ≠ some u := by
  rintro u hu ⟨rfl⟩
  have hpending := ((h.waiting t id).mp ht).2
  rw [((h.waiting t id').mp hu).2] at hpending
  exact hid (by simpa using hpending)

/-- The first priority is at most 0xff. -/
theorem Owned.firstKey_le (h : v.Owned) (l : List T) : firstKey v.current 0xff l ≤ 0xff := by
  cases l with
  | nil => exact le_rfl
  | cons u _ => exact h.bound u

/-- A mutex gets the first priority; its owner is still to be changed. -/
theorem Exact.refresh (h : v.Exact none none) (id : ℕ) : (v.refresh id).Exact none (v.mutex id).owner :=
  ⟨h.owned.setMutexPriority (h.owned.firstKey_le _), h.served.write (h.served id) fun _ _ hfree => hfree,
    h.sorted, h.first.write fun _ => rfl, h.inherits.setMutex h.owned id _⟩

variable [DecidableEq T]

/-- A thread gets a priority. -/
def setPriority (v : Locks T) (t : T) (priority : ℕ) : Locks T :=
  { v with current := update v.current t priority }

/-- A waiting thread is moved to its place in the list. -/
def requeue (v : Locks T) (t : T) (id : ℕ) : Locks T :=
  { v with
    waiting := update v.waiting id
      (insertBy v.current t ((v.waiting id).filter (· ≠ t))) }

theorem requeue_self (v : Locks T) (t : T) (id : ℕ) : (v.requeue t id).waiting id =
    insertBy v.current t ((v.waiting id).filter (· ≠ t)) := update_self ..

theorem requeue_of_ne (v : Locks T) (t : T) {id id' : ℕ} (h : id' ≠ id) :
    (v.requeue t id).waiting id' = v.waiting id' := update_of_ne h ..

/-- The current priorities after a change. -/
theorem current_setPriority (v : Locks T) (t : T) (priority : ℕ) :
    (v.setPriority t priority).current = update v.current t priority := rfl

/-- A change of priority leaves the owners and the waiting threads. -/
theorem Owned.setPriority (h : v.Owned) {priority : ℕ} (hprio : priority ≤ 0xff) :
    (v.setPriority t priority).Owned :=
  { h with
    bound := (forall_update_iff v.current fun _ prio => prio ≤ 0xff).mpr ⟨hprio, fun u _ => h.bound u⟩ }

theorem current_setPriority_of_ne (v : Locks T) {u : T} (priority : ℕ) (hu : some t ≠ some u) :
    (v.setPriority t priority).current u = v.current u := by
  apply update_of_ne
  rintro rfl
  exact hu rfl

/-- A change of priority leaves the order of the other threads. -/
theorem Sorted.setPriority (h : v.Sorted none) (priority : ℕ) :
    (v.setPriority t priority).Sorted (some t) := by
  intro id
  apply List.Pairwise.imp_of_mem _ (h id)
  intro a b _ _ hab ha hb
  rw [current_setPriority_of_ne v priority ha, current_setPriority_of_ne v priority hb]
  exact hab (by simp) (by simp)

/-- A change of priority leaves the first priorities of the lists without the thread. -/
theorem First.setPriority (h : v.First none) (priority : ℕ) :
    (v.setPriority t priority).First (some t) := by
  intro id hid hghost
  refine (h id (by simp) hghost).trans (Eq.symm ?_)
  exact firstKey_congr fun u hu => current_setPriority_of_ne v priority (hid u hu)

/-- A thread that gets the priority it inherits. -/
theorem Inherits.setPriority (h : v.Inherits (some t)) :
    (v.setPriority t (v.inherited t)).Inherits none := fun u _ =>
  (forall_update_iff v.current fun u prio => prio = v.inherited u).mpr
    ⟨rfl, fun u hu => h u (by simpa using Ne.symm hu)⟩ u

/-- A thread that has the priority it inherits. -/
theorem Inherits.settle (h : v.Inherits (some t)) (ht : v.current t = v.inherited t) :
    v.Inherits none := by
  intro u _
  by_cases hu : u = t
  · rw [hu]
    exact ht
  · exact h u (by simpa using Ne.symm hu)

/-- A thread that has the priority it inherits is not to be changed. -/
theorem Exact.inherit (h : v.Exact none (some t)) (ht : v.current t = v.inherited t) : v.Exact none none :=
  { h with inherits := h.inherits.settle ht }

/-- Moving a thread to its place leaves the threads that wait. -/
theorem mem_requeue (ht : t ∈ v.waiting id) {u : T} {id' : ℕ} :
    u ∈ (v.requeue t id).waiting id' ↔ u ∈ v.waiting id' := by
  by_cases hid : id' = id
  · subst hid
    rw [requeue_self, mem_insertBy, List.mem_filter, decide_eq_true_eq]
    constructor
    · rintro (rfl | ⟨hu, -⟩)
      · exact ht
      · exact hu
    · intro hu
      by_cases hut : u = t
      · exact .inl hut
      · exact .inr ⟨hu, hut⟩
  · rw [requeue_of_ne _ _ hid]

/-- Moving a thread to its place leaves the mutexes that threads wait for. -/
theorem Served.requeue {free : Option ℕ} (h : v.Served free) (ht : t ∈ v.waiting id) :
    (v.requeue t id).Served free := by
  intro id' hfree hne
  obtain ⟨u, hu⟩ := List.exists_mem_of_ne_nil _ hne
  exact h id' hfree (List.ne_nil_of_mem ((mem_requeue ht).mp hu))

/-- Moving a thread to its place leaves the owners and the waiting threads. -/
theorem Owned.requeue (h : v.Owned) (ht : t ∈ v.waiting id) : (v.requeue t id).Owned :=
  { h with waiting := fun u id' => (mem_requeue ht).trans (h.waiting u id') }

/-- A thread out of place is moved to its place. -/
theorem Sorted.requeue_refresh (h : v.Sorted (some t)) (howned : v.Owned)
    (ht : t ∈ v.waiting id) : ((v.requeue t id).refresh id).Sorted none := by
  rw [sorted_none_iff]
  intro id'
  change SortedBy v.current ((v.requeue t id).waiting id')
  by_cases hid : id' = id
  · subst hid
    rw [requeue_self]
    apply SortedBy.insertBy
    refine List.Pairwise.imp_of_mem ?_ (List.Pairwise.filter _ (h id'))
    intro a b ha hb hab
    apply hab
    · rintro ⟨rfl⟩
      simp at ha
    · rintro ⟨rfl⟩
      simp at hb
  · rw [requeue_of_ne _ _ hid]
    refine List.Pairwise.imp_of_mem ?_ (h id')
    intro a b ha hb hab
    exact hab (howned.ne_of_mem_waiting ht hid a ha) (howned.ne_of_mem_waiting ht hid b hb)

/-- The mutex of a thread that was moved to its place gets the first priority. -/
theorem First.requeue_refresh (h : v.First (some t)) (howned : v.Owned)
    (ht : t ∈ v.waiting id) : ((v.requeue t id).refresh id).First none := by
  intro id' _ hghost
  by_cases hid : id' = id
  · subst hid
    rw [Locks.refresh, setMutex_self]
    rfl
  · have hfirst := h id' (howned.ne_of_mem_waiting ht hid) hghost
    rw [Locks.refresh, setMutex_of_ne _ _ hid]
    change (v.mutex id').priority = firstKey v.current 0xff ((v.requeue t id).waiting id')
    rw [requeue_of_ne _ _ hid]
    exact hfirst

/-- A thread gets the priority it inherits; this is still to be passed on. -/
theorem Exact.setPriority (h : v.Exact none (some t)) :
    (v.setPriority t (v.inherited t)).Exact (some t) none where
  owned := h.owned.setPriority (h.owned.inherited_le t)
  served := h.served
  sorted := h.sorted.setPriority _
  first := h.first.setPriority _
  inherits := h.inherits.setPriority

/-- A thread is moved to its place in the list of a mutex; the owner is still to be changed. -/
theorem Exact.requeue_refresh (h : v.Exact (some t) none) (ht : t ∈ v.waiting id) :
    ((v.requeue t id).refresh id).Exact none (v.mutex id).owner := by
  have howned := h.owned.requeue ht
  have hserved := h.served.requeue ht
  refine ⟨?_, hserved.write (hserved id) fun _ _ hfree => hfree, h.sorted.requeue_refresh h.owned ht,
    h.first.requeue_refresh h.owned ht, ?_⟩
  · exact howned.setMutexPriority (howned.firstKey_le _)
  · exact Inherits.setMutex (v := v.requeue t id) h.inherits howned id _

end Update

end Locks

end RtThread.Kernel
