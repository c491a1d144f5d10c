import RtThread.Kernel.Locks

/-!
# Taking, waiting for and handing over a mutex

The effect of the mutex functions on `Locks`, one operation at a time, and what each keeps of exact
priority inheritance. A take that has to wait and a release leave one thread with a priority that is
still to be adjusted.
-/

namespace RtThread.Kernel.Locks

open Lib Function List

variable {T : Type*} {v : Locks T} {t : T} {id : ℕ}
variable {id' p : ℕ} {u : T}

/-- The priority inherited by a thread that takes or is given a mutex. -/
theorem inherited_cons {v' : Locks T} (id : ℕ) (hinit : v'.init t = v.init t)
    (htaken : v'.taken t = id :: v.taken t)
    (hprio : ∀ id' ∈ v.taken t, (v'.mutex id').priority = (v.mutex id').priority)
    (hle : v.inherited t ≤ (v'.mutex id).priority) : v'.inherited t = v.inherited t := by
  apply leastKey_eq_of_bounds
  intro b
  rw [hinit, htaken, forall_mem_cons]
  constructor
  · intro hb
    obtain ⟨hb1, hb2⟩ := le_leastKey_iff.mp hb
    refine ⟨hb1, le_trans hb hle, fun id' hid' => ?_⟩
    rw [hprio id' hid']
    exact hb2 id' hid'
  · rintro ⟨hb1, -, hb2⟩
    refine le_leastKey_iff.mpr ⟨hb1, fun id' hid' => ?_⟩
    rw [← hprio id' hid']
    exact hb2 id' hid'

/-- Counting a recursive take or release keeps inheritance exact. -/
theorem Exact.setHold (h : v.Exact none none) (howner : (v.mutex id).owner ≠ none) {n : ℕ} (hn : 0 < n) :
    (v.setMutex id { v.mutex id with hold := n }).Exact none none := by
  have howned : (v.setMutex id { v.mutex id with hold := n }).Owned :=
    h.owned.write (h.owned.ceiling id) (h.owned.mutexBound id) (by simp [howner, hn])
      (fun u => h.owned.taken u id) fun _ _ _ => Iff.rfl
  refine ⟨howned, h.served.write (fun _ _ => howner) fun _ _ hfree => hfree, h.sorted,
    h.first.write (h.first id (by simp)), fun u _ => (h.inherits u (by simp)).trans ?_⟩
  apply leastKey_congr
  intro id' _
  by_cases hid : id' = id
  · rw [hid, setMutex_self]
  · rw [setMutex_of_ne _ _ hid]

/-- A mutex is let go of. -/
def drop (v : Locks T) (id : ℕ) : Locks T :=
  { v with
    mutex := update v.mutex id { v.mutex id with owner := none, hold := 0 }
    taken := fun u => (v.taken u).filter (· ≠ id) }

theorem drop_self (v : Locks T) (id : ℕ) :
    (v.drop id).mutex id = { v.mutex id with owner := none, hold := 0 } := update_self ..

theorem drop_of_ne (v : Locks T) {id : ℕ} (h : id' ≠ id) :
    (v.drop id).mutex id' = v.mutex id' := update_of_ne h ..

/-- The mutexes of a thread after one was let go of. -/
theorem mem_drop : id' ∈ (v.drop id).taken u ↔ id' ∈ v.taken u ∧ id' ≠ id := by
  rw [drop, mem_filter, decide_eq_true_eq]

/-- Letting go of a mutex keeps the owners of the others. -/
theorem Owned.drop (h : v.Owned) (id : ℕ) : (v.drop id).Owned :=
  h.write (h.ceiling id) (h.mutexBound id) (by simp) (by simp) (by simp +contextual)

/-- Only the owner may have inherited from the mutex that it lets go of. -/
theorem Inherits.drop (h : v.Inherits none) (howned : v.Owned) (id : ℕ) :
    (v.drop id).Inherits (v.mutex id).owner := by
  intro u hu
  have hnot : id ∉ v.taken u := fun hmem => hu ((howned.taken u id).mp hmem)
  refine (h u (by simp)).trans (inherited_write hnot (filter_eq_self.mpr fun id' hid' => ?_)).symm
  exact decide_eq_true (ne_of_mem_of_not_mem hid' hnot)

/-- A thread whose priority is not that of the mutex has inherited it from elsewhere. -/
theorem Inherits.inherited_drop (h : v.Inherits none) (howned : v.Owned)
    (ht : (v.mutex id).owner = some t) (hne : v.current t ≠ (v.mutex id).priority) :
    v.current t = (v.drop id).inherited t := by
  have hcur := h t (by simp)
  have hlt : v.inherited t < (v.mutex id).priority := by
    rw [← hcur]
    refine lt_of_le_of_ne ?_ hne
    rw [hcur]
    exact leastKey_le ((howned.taken t id).mpr ht)
  rw [hcur]
  symm
  apply leastKey_eq_of_bounds
  intro b
  constructor
  · intro hb
    obtain ⟨hb1, hb2⟩ := le_leastKey_iff.mp hb
    refine ⟨hb1, fun id' hid' => ?_⟩
    obtain ⟨hmem, hid⟩ := mem_drop.mp hid'
    rw [drop_of_ne _ hid]
    exact hb2 id' hmem
  · rintro ⟨hb1, hb2⟩
    -- the smaller of `b` and the priority of the mutex is below everything that `t` inherits
    have hmin : min b (v.mutex id).priority ≤ v.inherited t := by
      refine le_leastKey_iff.mpr ⟨le_trans (min_le_left ..) hb1, fun id' hid' => ?_⟩
      by_cases hid : id' = id
      · rw [hid]
        exact min_le_right ..
      · refine le_trans (min_le_left ..) ?_
        rw [← drop_of_ne v hid]
        exact hb2 id' (mem_drop.mpr ⟨hid', hid⟩)
    rcases min_le_iff.mp hmin with hb | hb
    · exact hb
    · exact absurd hlt (not_lt.mpr hb)

/-- A free mutex is in nobody's list. -/
theorem Owned.not_taken (h : v.Owned) (hfree : (v.mutex id).owner = none) (u : T) : id ∉ v.taken u := by
  intro hmem
  rw [h.taken, hfree] at hmem
  cases hmem

variable [DecidableEq T]

/-- A thread starts to wait for a mutex. -/
def enter (v : Locks T) (t : T) (id : ℕ) : Locks T :=
  { v with
    suspended := update v.suspended t true
    waiting := update v.waiting id (insertBy v.current t (v.waiting id))
    pending := update v.pending t (some id) }

/-- A thread becomes the owner of a mutex. -/
def own (v : Locks T) (t : T) (id priority : ℕ) : Locks T :=
  { v with
    mutex := update v.mutex id
      { v.mutex id with owner := some t, hold := 1, priority := priority }
    taken := update v.taken t (id :: v.taken t) }

/-- A thread leaves the wait list it is in and runs again. -/
def leave (v : Locks T) (t : T) : Locks T :=
  { v with
    suspended := update v.suspended t false
    waiting := fun id => (v.waiting id).filter (· ≠ t) }

/-- The pending mutex of a thread is cleared. -/
def forget (v : Locks T) (t : T) : Locks T :=
  { v with pending := update v.pending t none }

/-- A waiting thread is woken and gets a mutex. -/
def give (v : Locks T) (next : T) (id : ℕ) : Locks T :=
  ((v.leave next).own next id
    (firstKey v.current 0xff ((v.waiting id).filter (· ≠ next)))).forget next

/-- The threads that wait after one has started to wait. -/
theorem mem_enter : u ∈ (v.enter t id).waiting id' ↔ (u = t ∧ id' = id) ∨ u ∈ v.waiting id' := by
  by_cases hid : id' = id
  · subst hid
    simp only [enter, update_self, mem_insertBy, and_true]
  · simp only [enter, update_of_ne hid, hid, and_false, false_or]

/-- Starting to wait keeps the owners. -/
theorem Owned.enter (h : v.Owned) (ht : v.suspended t = false) : (v.enter t id).Owned := by
  refine { h with waiting := fun u id' => ?_ }
  rw [mem_enter, h.waiting]
  by_cases hu : u = t
  · subst hu
    simp [Locks.enter, ht, eq_comm]
  · simp [Locks.enter, hu]

/-- Starting to wait for a mutex that has an owner. -/
theorem Served.enter (h : v.Served none) (howner : (v.mutex id).owner ≠ none) :
    (v.enter t id).Served none := by
  intro id' hfree hne
  obtain ⟨u, hu⟩ := exists_mem_of_ne_nil _ hne
  obtain ⟨-, rfl⟩ | hu := mem_enter.mp hu
  · exact howner
  · exact h id' hfree (ne_nil_of_mem hu)

/-- Starting to wait keeps the order of the lists. -/
theorem Sorted.enter (h : v.Sorted none) : (v.enter t id).Sorted none := by
  rw [sorted_none_iff] at h ⊢
  intro id'
  by_cases hid : id' = id
  · subst hid
    simp only [Locks.enter, update_self]
    exact (h id').insertBy
  · simp only [Locks.enter, update_of_ne hid]
    exact h id'

/-- After a thread has started to wait, the first priority of the mutex is the smaller of its old
one and the thread's. -/
theorem First.enter (h : v.First none) (ht : v.current t ≤ 0xff) (hpending : v.pending t = none) :
    ((v.enter t id).setMutex id
      ((v.mutex id).withPriority (min (v.current t) (v.mutex id).priority))).First none := by
  intro id' _ hghost
  have hold : ∀ u, v.pending u = some id' → v.suspended u = true := by
    intro u hu
    have hne : u ≠ t := by
      rintro rfl
      rw [hpending] at hu
      cases hu
    have hsusp := hghost u
    simp only [setMutex, Locks.enter, update_of_ne hne] at hsusp
    exact hsusp hu
  by_cases hid : id' = id
  · subst hid
    simp only [Locks.enter, setMutex, update_self]
    rw [firstKey_insertBy ht, ← h id' (by simp) hold]
    rfl
  · simp only [Locks.enter, setMutex, update_of_ne hid]
    exact h id' (by simp) hold

/-- A thread waits for a mutex, and its priority is noted; the owner is still to be changed. -/
theorem Exact.enter {o : T} (h : v.Exact none none) (ht : v.suspended t = false)
    (hpending : v.pending t = none) (howner : (v.mutex id).owner = some o) : ((v.enter t id).setMutex id
      ((v.mutex id).withPriority (min (v.current t) (v.mutex id).priority))).Exact none (some o) := by
  have howned : (v.enter t id).Owned := h.owned.enter ht
  refine ⟨?_, ?_, ?_, ?_, ?_⟩
  · exact howned.setMutexPriority (le_trans (min_le_left ..) (h.owned.bound t))
  · have hserved : (v.enter t id).Served none := h.served.enter (by simp [howner])
    exact hserved.write (hserved id) fun _ _ hfree => hfree
  · exact h.sorted.enter
  · exact h.first.enter (h.owned.bound t) hpending
  · rw [← howner]
    exact Inherits.setMutex (v := v.enter t id) h.inherits howned id _

/-- The priority that the owner then inherits. -/
theorem Exact.inherited_enter {o : T} (h : v.Exact none none) (ht : v.suspended t = false)
    (howner : (v.mutex id).owner = some o) : ((v.enter t id).setMutex id
      ((v.mutex id).withPriority (min (v.current t) (v.mutex id).priority))).inherited o =
      min (v.current o) (v.current t) := by
  rw [h.inherits o (by simp)]
  exact inherited_setMutex_min (h.owned.enter ht) howner _

theorem own_self (v : Locks T) (t : T) (id p : ℕ) : (v.own t id p).mutex id =
    { v.mutex id with owner := some t, hold := 1, priority := p } := update_self ..

theorem own_of_ne (v : Locks T) (t : T) {id : ℕ} (p : ℕ) (h : id' ≠ id) :
    (v.own t id p).mutex id' = v.mutex id' := update_of_ne h ..

/-- A free mutex gets an owner. -/
theorem Owned.own (h : v.Owned) (hfree : (v.mutex id).owner = none) (hp : p ≤ 0xff) :
    (v.own t id p).Owned := by
  refine h.write (h.ceiling id) hp (by simp) ?_ ?_
  · exact (forall_update_iff v.taken fun u l => id ∈ l ↔ some t = some u).mpr ⟨by simp, fun u hu =>
      ⟨fun hmem => absurd hmem (h.not_taken hfree u), fun heq => absurd (Option.some.inj heq).symm hu⟩⟩
  · exact (forall_update_iff v.taken fun u l => ∀ id' ≠ id, id' ∈ l ↔ id' ∈ v.taken u).mpr
      ⟨fun id' hid => by simp [hid], fun _ _ _ _ => Iff.rfl⟩

/-- The mutex that got an owner is served. -/
theorem Served.own {free : Option ℕ} (h : v.Served free) (hfree : ∀ id', free = some id' → id' = id)
    (p : ℕ) : (v.own t id p).Served none :=
  h.write (by simp) fun id' hid _ heq => hid (hfree id' heq)

/-- A mutex of no higher priority changes nothing for its new owner. -/
theorem Inherits.own (h : v.Inherits none) (howned : v.Owned) (hfree : (v.mutex id).owner = none)
    (hp : v.current t ≤ p) : (v.own t id p).Inherits none := by
  intro u _
  refine (h u (by simp)).trans (Eq.symm ?_)
  have hnot := howned.not_taken hfree u
  by_cases hu : u = t
  · subst hu
    refine inherited_cons id rfl (update_self ..) (fun id' hid' => ?_) ?_
    · rw [own_of_ne _ _ _ (ne_of_mem_of_not_mem hid' hnot)]
    · rw [own_self, ← h u (by simp)]
      exact hp
  · exact inherited_write hnot (update_of_ne hu ..)

/-- Taking a free mutex keeps inheritance exact. -/
theorem Exact.acquire (h : v.Exact none none) (hfree : (v.mutex id).owner = none) :
    (v.own t id 0xff).Exact none none := by
  have hempty : v.waiting id = [] := by
    by_contra hne
    exact h.served id (by simp) hne hfree
  refine ⟨h.owned.own hfree le_rfl, h.served.own (by simp) _, h.sorted, ?_,
    h.inherits.own h.owned hfree (h.owned.bound t)⟩
  exact h.first.write fun _ => by rw [hempty]; rfl

/-- A thread lets go of a mutex: `rt_mutex_release` up to the wake-up. -/
def letGo (v : Locks T) (t : T) (id : ℕ) : Locks T :=
  if v.current t = (v.mutex id).priority then
    (v.drop id).setPriority t ((v.drop id).inherited t)
  else v.drop id

/-- After letting go, everything is exact but for the mutex without an owner. -/
theorem Exact.letGo (h : v.Exact none none) (ht : v.suspended t = false)
    (howner : (v.mutex id).owner = some t) :
    (v.letGo t id).Owned ∧ (v.letGo t id).Served (some id) ∧ (v.letGo t id).Sorted none ∧
    (v.letGo t id).First none ∧ (v.letGo t id).Inherits none := by
  have howned := h.owned.drop id
  have hinherits : (v.drop id).Inherits (some t) := howner ▸ h.inherits.drop h.owned id
  have hnot := h.owned.not_waiting (.inl ht)
  have hserved : (v.drop id).Served (some id) := h.served.write (fun hne => absurd rfl hne) (by simp)
  have hfirst : (v.drop id).First none := h.first.write (h.first id (by simp))
  by_cases heq : v.current t = (v.mutex id).priority
  · rw [Locks.letGo, if_pos heq]
    have hsorted : (v.drop id).Sorted none := h.sorted
    exact ⟨howned.setPriority (howned.inherited_le t), hserved,
      (hsorted.setPriority _).settle hnot, (hfirst.setPriority _).settle hnot, hinherits.setPriority⟩
  · rw [Locks.letGo, if_neg heq]
    exact ⟨howned, hserved, h.sorted, hfirst,
      hinherits.settle (h.inherits.inherited_drop h.owned howner heq)⟩

section

variable (v t id)

/-- The fields of a mutex that was let go of. -/
theorem letGo_mutex : (v.letGo t id).mutex = (v.drop id).mutex := by
  unfold letGo
  split <;> rfl

/-- The waiting threads after letting go. -/
theorem letGo_waiting : (v.letGo t id).waiting = v.waiting := by
  unfold letGo
  split <;> rfl

/-- Letting go leaves the waits. -/
theorem letGo_frame : (v.letGo t id).pending = v.pending ∧
    (v.letGo t id).suspended = v.suspended ∧ (v.letGo t id).firing = v.firing := by
  unfold letGo
  split <;> exact ⟨rfl, rfl, rfl⟩

/-- Nobody owns a mutex that was let go of. -/
theorem letGo_owner : ((v.letGo t id).mutex id).owner = none := by
  rw [letGo_mutex, drop_self]

end

/-- A mutex that nobody waits for is free after its release. -/
theorem Exact.free (h : v.Exact none none) (ht : v.suspended t = false)
    (howner : (v.mutex id).owner = some t) (hempty : v.waiting id = []) :
    ((v.letGo t id).setMutex id (((v.letGo t id).mutex id).withPriority 0xff)).Exact none none := by
  obtain ⟨howned, hserved, hsorted, hfirst, hinherits⟩ := h.letGo ht howner
  have hwaiting : (v.letGo t id).waiting id = [] := (congrFun (letGo_waiting v t id) id).trans hempty
  refine ⟨howned.setMutexPriority le_rfl, ?_, hsorted, ?_, ?_⟩
  · exact hserved.write (fun _ hwait => absurd hwaiting hwait) fun id' hid _ => by simpa using Ne.symm hid
  · exact hfirst.write fun _ => by rw [hwaiting]; rfl
  · have hnone := hinherits.setMutex howned id (((v.letGo t id).mutex id).withPriority 0xff)
    rwa [letGo_owner] at hnone

/-- The threads that wait after one has left. -/
theorem mem_leave : u ∈ (v.leave t).waiting id' ↔ u ∈ v.waiting id' ∧ u ≠ t := by
  rw [leave, mem_filter, decide_eq_true_eq]

/-- Leaving keeps the owners. -/
theorem Owned.leave (h : v.Owned) (t : T) : (v.leave t).Owned := by
  refine { h with waiting := fun u id' => ?_ }
  rw [mem_leave, h.waiting]
  by_cases hu : u = t
  · simp [Locks.leave, hu]
  · simp [Locks.leave, hu]

/-- Leaving keeps the mutexes served. -/
theorem Served.leave {free : Option ℕ} (h : v.Served free) (t : T) : (v.leave t).Served free := by
  intro id' hfree hwait
  apply h id' hfree
  intro hempty
  apply hwait
  rw [Locks.leave]
  dsimp only
  rw [hempty]
  rfl

/-- Leaving keeps the order of the lists. -/
theorem Sorted.leave (h : v.Sorted none) (t : T) : (v.leave t).Sorted none :=
  fun id => List.Pairwise.filter _ (h id)

/-- The mutex of a thread that has left keeps its priority until the thread gives up. -/
theorem First.leave (h : v.First none) (howned : v.Owned) (t : T) : (v.leave t).First none := by
  intro id' _ hghost
  have hnot : t ∉ v.waiting id' := by
    intro hmem
    have hsusp := hghost t ((howned.waiting t id').mp hmem).2
    simp [Locks.leave] at hsusp
  have hsame : (v.leave t).waiting id' = v.waiting id' := by
    apply filter_eq_self.mpr
    intro u hu
    apply decide_eq_true
    rintro rfl
    exact hnot hu
  rw [hsame]
  refine h id' (by simp) ?_
  intro u hu
  by_cases hut : u = t
  · have hsusp := hghost u hu
    simp [Locks.leave, hut] at hsusp
  · have hsusp := hghost u hu
    simpa [Locks.leave, hut] using hsusp

/-- Timing out keeps inheritance exact. -/
theorem Exact.leave (h : v.Exact none none) (t : T) : (v.leave t).Exact none none :=
  ⟨h.owned.leave t, h.served.leave t, h.sorted.leave t, h.first.leave h.owned t, h.inherits⟩

/-- Clearing the pending mutex of a thread that runs. -/
theorem Owned.forget (h : v.Owned) (ht : v.suspended t = false) : (v.forget t).Owned := by
  refine { h with waiting := fun u id' => ?_ }
  change u ∈ v.waiting id' ↔ _
  rw [h.waiting]
  by_cases hu : u = t
  · simp [Locks.forget, hu, ht]
  · simp [Locks.forget, hu]

/-- A mutex that a thread gives up on has to carry the first priority. -/
theorem First.forget (h : v.First none) (hid : ∀ id, v.pending t = some id →
    (v.mutex id).priority = firstKey v.current 0xff (v.waiting id)) : (v.forget t).First none := by
  intro id' _ hghost
  by_cases ht : v.pending t = some id'
  · exact hid id' ht
  · refine h id' (by simp) ?_
    intro u hu
    apply hghost u
    have hne : u ≠ t := by
      rintro rfl
      exact ht hu
    exact (update_of_ne hne ..).trans hu

/-- Handing over a mutex makes inheritance exact again. -/
theorem Exact.give {next : T} {rest : List T} (howned : v.Owned) (hserved : v.Served (some id))
    (hsorted : v.Sorted none) (hfirst : v.First none) (hinherits : v.Inherits none)
    (hfree : (v.mutex id).owner = none) (hwait : v.waiting id = next :: rest) :
    (v.give next id).Exact none none := by
  have hmem : next ∈ v.waiting id := by simp [hwait]
  have hpending := ((howned.waiting next id).mp hmem).2
  have hle : v.current next ≤ firstKey v.current 0xff ((v.leave next).waiting id) := by
    cases hfilter : (v.leave next).waiting id with
    | nil => exact howned.bound next
    | cons u l =>
      have hu : u ∈ v.waiting id := (mem_leave.mp (hfilter ▸ mem_cons_self)).1
      have hfirstKey : firstKey v.current 0xff (v.waiting id) ≤ v.current u :=
        ((sorted_none_iff.mp hsorted) id).firstKey_le hu
      rw [hwait] at hfirstKey
      exact hfirstKey
  have hleave : (v.leave next).Inherits none := hinherits
  refine ⟨?_, ?_, hsorted.leave next, ?_, ?_⟩
  · apply Owned.forget
    · exact (howned.leave next).own hfree (howned.firstKey_le _)
    · exact update_self ..
  · exact (hserved.leave next).own (by simp) _
  · apply First.forget
    · exact (hfirst.leave howned next).write fun _ => rfl
    · intro id' hid'
      obtain rfl : id = id' := Option.mem_unique hpending hid'
      rw [own_self]
      rfl
  · exact hleave.own (howned.leave next) hfree hle

end RtThread.Kernel.Locks
