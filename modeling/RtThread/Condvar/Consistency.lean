import RtThread.Condvar.Basic
import RtThread.Lib.Count
import Mathlib.Data.Fintype.Defs

/-!
# The count of the waiters and their mutex

`waiters_cnt` counts the threads between its increment and its decrement, and `waiting_mtx` is meant to
be the mutex of the waiters as long as there are any. A thread joins in two steps: under the spinlock it
reads or writes `waiting_mtx`, and then, without the spinlock, it counts itself. A thread that leaves
does not hold the mutex; if it is the last one that is counted, it clears `waiting_mtx` although another
thread has joined. Without such a step the two fields agree and no assertion fails.
-/

namespace RtThread.Condvar

open Lib TransitionSystem Function Option State

/-- What the bookkeeping tells apart of a thread's place: outside the wait, before the first section
under the spinlock, between that section and the increment, counted with the mutex, counted without the
mutex, and no longer counted. -/
inductive Place (M : Type*) where
  | out
  | entering (mtx : M)
  | joined (mtx : M)
  | counted (mtx : M)
  | leaving (mtx : M)
  | left (mtx : M)

namespace Place

variable {M : Type*}

/-- The places of the threads that `waiters_cnt` counts. -/
def IsCounted : Place M → Prop
  | counted _ | leaving _ => True
  | _ => False

/-- What a thread at a place relies on, if all threads wait with the mutex `m`: it owns the mutex up to
its sleep, `waiting_mtx` is the mutex from the first section under the spinlock to the second one, and
after its sleep it can take the mutex once more. -/
def Fits {T : Type*} (m : M) (waitingMtx : Option M) (mutex : Mutex T) (t : T) : Place M → Prop
  | out => True
  | entering m' => m' = m ∧ mutex.owner = some t
  | joined m' | counted m' => m' = m ∧ mutex.owner = some t ∧ waitingMtx = some m
  | leaving m' => m' = m ∧ waitingMtx = some m ∧ (mutex.owner = some t → mutex.hold < rtMutexHoldMax)
  | left m' => m' = m ∧ (mutex.owner = some t → mutex.hold < rtMutexHoldMax)

end Place

/-- The place of a thread. -/
def Pc.place {M : Type*} : Pc M → Place M
  | .called m _ => .entering m
  | .joined m _ => .joined m
  | .counted m _ => .counted m
  | .waiting m _ | .woken m _ | .removed m _ => .leaving m
  | .left m _ => .left m
  | .idle | .waking _ | .resetting => .out

/-- Between the first section under the spinlock and the increment of `waiters_cnt`. -/
def Pc.isJoined {M : Type*} : Pc M → Bool
  | .joined _ _ => true
  | _ => false

/-- Before the second section under the spinlock. -/
def Pc.isRemoved {M : Type*} : Pc M → Bool
  | .removed _ _ => true
  | _ => false

/-- The only place where a thread has joined and is not counted. -/
theorem Pc.isJoined_of_place {M : Type*} {pc : Pc M} {m : M} (h : pc.place = .joined m) : pc.isJoined := by
  cases pc with
  | joined => rfl
  | _ => cases h

/-- The bookkeeping of a condition variable. -/
structure Books (T M : Type*) where
  place : T → Place M
  waitersCnt : ℤ
  waitingMtx : Option M
  mutex : M → Mutex T

variable {T M : Type*}

/-- The bookkeeping of a state. -/
def State.books (s : State T M) : Books T M :=
  ⟨fun t => (s.pc t).place, s.waitersCnt, s.waitingMtx, s.mutex⟩

section Mutexes

variable [DecidableEq T] {mutex : Mutex T} {t u : T}
variable {r : Mutex T × Err}

/-- The mutex looks the same to a thread: it owns it as before, and holds it as often. -/
def Mutex.SameFor (u : T) (mutex mutex' : Mutex T) : Prop :=
  (mutex'.owner = some u ↔ mutex.owner = some u) ∧ (mutex'.owner = some u → mutex'.hold = mutex.hold)

/-- Only a free mutex or one's own can be taken, so no other thread is concerned. -/
theorem Mutex.sameFor_rtMutexTake (hr : mutex.rtMutexTake t = some r) (hu : u ≠ t) :
    Mutex.SameFor u mutex r.1 := by
  have hne : ¬ t = u := fun h => hu h.symm
  unfold Mutex.rtMutexTake at hr
  split at hr
  next hfree =>
    cases hr
    simp [SameFor, hfree, hne]
  next owner howner =>
    split_ifs at hr with ht <;> obtain rfl := some.inj hr <;> simp [SameFor, howner, ht, hne]

/-- The hold count stays within its bound. -/
theorem Mutex.hold_rtMutexTake (hr : mutex.rtMutexTake t = some r)
    (hle : mutex.hold ≤ rtMutexHoldMax) : r.1.hold ≤ rtMutexHoldMax := by
  unfold Mutex.rtMutexTake at hr
  split at hr
  · cases hr
    exact Nat.le_of_ble_eq_true rfl
  · split_ifs at hr with ht hroom <;> obtain rfl := some.inj hr
    · exact hroom
    · exact hle

/-- A take succeeds if there is room for one more hold. -/
theorem Mutex.eok_rtMutexTake (hr : mutex.rtMutexTake t = some r)
    (hroom : mutex.owner = some t → mutex.hold < rtMutexHoldMax) : r.2 = .eok := by
  unfold Mutex.rtMutexTake at hr
  split at hr
  · cases hr
    rfl
  next owner howner =>
    split_ifs at hr with ht hlt <;> obtain rfl := some.inj hr
    · rfl
    · exact absurd (hroom (howner.trans (congrArg some ht))) hlt

/-- Only the owner can release the mutex, so no other thread is concerned. -/
theorem Mutex.sameFor_rtMutexRelease (hu : u ≠ t) : Mutex.SameFor u mutex (mutex.rtMutexRelease t).1 := by
  have hne : ¬ t = u := fun h => hu h.symm
  unfold Mutex.rtMutexRelease
  split_ifs with howner hlast <;> simp [SameFor, howner, hne]

/-- The hold count stays within its bound. -/
theorem Mutex.hold_rtMutexRelease (hle : mutex.hold ≤ rtMutexHoldMax) :
    (mutex.rtMutexRelease t).1.hold ≤ rtMutexHoldMax := by
  unfold Mutex.rtMutexRelease
  split_ifs <;> dsimp only <;> omega

/-- The owner's release succeeds and leaves room for one more hold. -/
theorem Mutex.rtMutexRelease_owner (howner : mutex.owner = some t) (hle : mutex.hold ≤ rtMutexHoldMax) :
    (mutex.rtMutexRelease t).2 = .eok ∧ (mutex.rtMutexRelease t).1.hold < rtMutexHoldMax := by
  unfold Mutex.rtMutexRelease
  split_ifs with hlast
  · exact ⟨rfl, Nat.lt_of_sub_eq_succ rfl⟩
  · exact ⟨rfl, by dsimp only; omega⟩

end Mutexes

namespace Books

/-- The count and `waiting_mtx` agree with the places of the threads. -/
structure Consistent (m : M) (b : Books T M) : Prop where
  fits : ∀ t, (b.place t).Fits m b.waitingMtx (b.mutex m) t
  count : ∃ n : ℕ, b.waitersCnt = n ∧ HasCount (fun t => (b.place t).IsCounted) n
  only : ∀ m' ∈ b.waitingMtx, m' = m
  hold_le : (b.mutex m).hold ≤ rtMutexHoldMax

variable {m : M} {b b' : Books T M}

/-- Nothing is counted at first. -/
theorem consistent_init : Consistent m (State.rtCondvarInit : State T M).books where
  fits t := trivial
  count := ⟨0, rfl, HasCount.of_forall_not fun t h => h⟩
  only m' h := by cases h
  hold_le := Nat.zero_le _

section Fits

variable {t : T} {p : Place M} {waitingMtx : Option M} {mutex mutex' : Mutex T}

/-- Another thread's change of the mutex. -/
theorem fits_of_sameFor (h : p.Fits m waitingMtx mutex t) (hsame : Mutex.SameFor t mutex mutex') :
    p.Fits m waitingMtx mutex' t := by
  obtain ⟨howner, hhold⟩ := hsame
  have hroom : (mutex.owner = some t → mutex.hold < rtMutexHoldMax) →
      mutex'.owner = some t → mutex'.hold < rtMutexHoldMax := fun h h' => by
    rw [hhold h']
    exact h (howner.mp h')
  cases p with
  | out => trivial
  | entering => exact ⟨h.1, howner.mpr h.2⟩
  | joined | counted => exact ⟨h.1, howner.mpr h.2.1, h.2.2⟩
  | leaving => exact ⟨h.1, h.2.1, hroom h.2.2⟩
  | left => exact ⟨h.1, hroom h.2⟩

/-- A change of `waiting_mtx` to the mutex. -/
theorem fits_waiting (h : p.Fits m waitingMtx mutex t) : p.Fits m (some m) mutex t := by
  cases p with
  | out => trivial
  | entering => exact h
  | joined | counted => exact ⟨h.1, h.2.1, rfl⟩
  | leaving => exact ⟨h.1, rfl, h.2.2⟩
  | left => exact h

/-- A thread that is not counted and not about to be counted does not need `waiting_mtx`. -/
theorem fits_none (h : p.Fits m waitingMtx mutex t) (hcounted : ¬ p.IsCounted)
    (hjoined : ∀ m', p ≠ .joined m') : p.Fits m none mutex t := by
  cases p with
  | out => trivial
  | entering => exact h
  | joined m' => exact absurd rfl (hjoined m')
  | counted | leaving => exact absurd trivial hcounted
  | left => exact h

end Fits

variable [DecidableEq T] [DecidableEq M]

/-- What a step does to the bookkeeping, if every thread waits with the mutex `m` and the last counted
thread does not leave while another one is about to be counted. -/
inductive Step (m : M) (b : Books T M) : Books T M → Prop where
  | stay : Step m b b
  | take {t : T} {m' : M} {r : Mutex T × Err} (ht : b.place t = .out)
      (hr : (b.mutex m').rtMutexTake t = some r) :
      Step m b { b with mutex := update b.mutex m' r.1 }
  | release {t : T} {m' : M} (ht : b.place t = .out) :
      Step m b { b with mutex := update b.mutex m' ((b.mutex m').rtMutexRelease t).1 }
  | enter {t : T} (ht : b.place t = .out) (howner : (b.mutex m).owner = some t) :
      Step m b { b with place := update b.place t (.entering m) }
  | join {t : T} {m' : M} (ht : b.place t = .entering m') :
      Step m b { b with waitingMtx := some m', place := update b.place t (.joined m') }
  | refuse {t : T} {m' : M} (ht : b.place t = .entering m') :
      Step m b { b with place := update b.place t .out }
  | count {t : T} {m' : M} (ht : b.place t = .joined m') :
      Step m b
        { b with
          waitersCnt := b.waitersCnt + 1
          place := update b.place t (.counted m') }
  | sleep {t : T} {m' : M} (ht : b.place t = .counted m') :
      Step m b
        { b with
          mutex := update b.mutex m' ((b.mutex m').rtMutexRelease t).1
          place := update b.place t (.leaving m') }
  | leave {t : T} {m' : M} (ht : b.place t = .leaving m')
      (hnone : b.waitersCnt = 1 → ∀ u m'', b.place u ≠ .joined m'') :
      Step m b
        { b with
          waitersCnt := b.waitersCnt - 1
          waitingMtx := if b.waitersCnt = 1 then none else b.waitingMtx
          place := update b.place t (.left m') }
  | back {t : T} {m' : M} {r : Mutex T × Err} (ht : b.place t = .left m')
      (hr : (b.mutex m').rtMutexTake t = some r) :
      Step m b
        { b with
          mutex := update b.mutex m' r.1
          place := update b.place t .out }

namespace Consistent

variable {t : T} {p : Place M} {m' : M} {mutex : Mutex T}

omit [DecidableEq M] in
/-- A thread moves to a place that is counted as its place before. -/
theorem move (h : Consistent m b) (hp : p.Fits m b.waitingMtx (b.mutex m) t)
    (hcounted : p.IsCounted ↔ (b.place t).IsCounted) :
    Consistent m { b with place := update b.place t p } := by
  obtain ⟨n, hcnt, hn⟩ := h.count
  refine ⟨?_, ⟨n, hcnt, hn.congr ?_⟩, h.only, h.hold_le⟩
  · exact (forall_update_iff b.place _).mpr ⟨hp, fun u _ => h.fits u⟩
  · exact (forall_update_iff b.place fun u q => q.IsCounted ↔ (b.place u).IsCounted).mpr
      ⟨hcounted, fun u _ => Iff.rfl⟩

/-- A thread takes or releases a mutex and moves to a place that is counted as its place before. -/
theorem lock (h : Consistent m b) (hsame : ∀ u, u ≠ t → Mutex.SameFor u (b.mutex m') mutex)
    (hhold : (b.mutex m').hold ≤ rtMutexHoldMax → mutex.hold ≤ rtMutexHoldMax)
    (hp : p.Fits m b.waitingMtx (update b.mutex m' mutex m) t)
    (hcounted : p.IsCounted ↔ (b.place t).IsCounted) : Consistent m { b with
        mutex := update b.mutex m' mutex
        place := update b.place t p } := by
  have hothers : ∀ u, u ≠ t → Mutex.SameFor u (b.mutex m) (update b.mutex m' mutex m) := by
    intro u hu
    by_cases hm : m = m'
    · subst hm
      simpa using hsame u hu
    · rw [update_of_ne hm]
      exact ⟨Iff.rfl, fun _ => rfl⟩
  have hle : (update b.mutex m' mutex m).hold ≤ rtMutexHoldMax := by
    by_cases hm : m = m'
    · subst hm
      simpa using hhold h.hold_le
    · rw [update_of_ne hm]
      exact h.hold_le
  obtain ⟨n, hcnt, hn⟩ := h.count
  refine ⟨?_, ⟨n, hcnt, hn.congr ?_⟩, h.only, hle⟩
  · exact (forall_update_iff b.place _).mpr
      ⟨hp, fun u hu => fits_of_sameFor (h.fits u) (hothers u hu)⟩
  · exact (forall_update_iff b.place fun u q => q.IsCounted ↔ (b.place u).IsCounted).mpr
      ⟨hcounted, fun u _ => Iff.rfl⟩

/-- A thread outside a wait takes or releases a mutex. -/
theorem lock_out (h : Consistent m b) (ht : b.place t = .out)
    (hsame : ∀ u, u ≠ t → Mutex.SameFor u (b.mutex m') mutex)
    (hhold : (b.mutex m').hold ≤ rtMutexHoldMax → mutex.hold ≤ rtMutexHoldMax) :
    Consistent m { b with mutex := update b.mutex m' mutex } := by
  have hlock := h.lock hsame hhold (by rw [ht]; trivial) Iff.rfl
  rwa [update_eq_self] at hlock

omit [DecidableEq T] [DecidableEq M] in
/-- `waiting_mtx` is set to the mutex. -/
theorem setWaiting (h : Consistent m b) : Consistent m { b with waitingMtx := some m } :=
  { h with fits := fun u => fits_waiting (h.fits u), only := fun _ hm' => (some.inj hm').symm }

omit [DecidableEq M] in
/-- A thread that has joined is counted. -/
theorem counts (h : Consistent m b) (ht : b.place t = .joined m') : Consistent m
      { b with waitersCnt := b.waitersCnt + 1, place := update b.place t (.counted m') } := by
  obtain ⟨n, hcnt, hn⟩ := h.count
  have hfits := h.fits t
  rw [ht] at hfits
  refine ⟨?_, ⟨n + 1, by simp [hcnt], hn.gain (a := t) ?_ ?_ fun u hu => ?_⟩, h.only, h.hold_le⟩
  · exact (forall_update_iff b.place _).mpr ⟨hfits, fun u _ => h.fits u⟩
  · simp [ht, Place.IsCounted]
  · simp [Place.IsCounted]
  · simp [hu]

omit [DecidableEq M] in
/-- A thread leaves; if it was the only one that was counted, no thread is about to be counted. -/
theorem leaves (h : Consistent m b) (ht : b.place t = .leaving m')
    (hnone : b.waitersCnt = 1 → ∀ u m'', b.place u ≠ .joined m'') : Consistent m { b with
        waitersCnt := b.waitersCnt - 1
        waitingMtx := if b.waitersCnt = 1 then none else b.waitingMtx
        place := update b.place t (.left m') } := by
  obtain ⟨n, hcnt, hn⟩ := h.count
  have hfits := h.fits t
  rw [ht] at hfits
  obtain ⟨k, rfl, hk⟩ := hn.lose (a := t) (q := fun u => (update b.place t (.left m') u).IsCounted)
    (by simp [ht, Place.IsCounted]) (by simp [Place.IsCounted]) fun u hu => by simp [hu]
  refine ⟨?_, ⟨k, by simp [hcnt], hk⟩, fun m'' hm'' => ?_, h.hold_le⟩
  · refine (forall_update_iff b.place _).mpr ⟨⟨hfits.1, hfits.2.2⟩, fun u hu => ?_⟩
    split_ifs with hone
    · obtain rfl : k = 0 := by omega
      have hcounted := hk.forall_not u
      rw [update_of_ne hu] at hcounted
      exact fits_none (h.fits u) hcounted (hnone hone u)
    · exact h.fits u
  · split_ifs at hm''
    · cases hm''
    · exact h.only m'' hm''

/-- One step keeps the bookkeeping consistent. -/
theorem step (h : Consistent m b) (hstep : Step m b b') : Consistent m b' := by
  cases hstep with
  | stay => exact h
  | take ht hr =>
    exact h.lock_out ht (fun u => Mutex.sameFor_rtMutexTake hr) (Mutex.hold_rtMutexTake hr)
  | release ht => exact h.lock_out ht (fun u => Mutex.sameFor_rtMutexRelease) Mutex.hold_rtMutexRelease
  | enter ht howner => exact h.move ⟨rfl, howner⟩ (by rw [ht]; rfl)
  | @join t _ ht =>
    have hfits := h.fits t
    rw [ht] at hfits
    obtain ⟨rfl, howner⟩ := hfits
    exact h.setWaiting.move ⟨rfl, howner, rfl⟩ (by rw [ht]; rfl)
  | refuse ht => exact h.move trivial (by rw [ht]; rfl)
  | count ht => exact h.counts ht
  | @sleep t _ ht =>
    have hfits := h.fits t
    rw [ht] at hfits
    obtain ⟨rfl, howner, hwaiting⟩ := hfits
    have hroom := (Mutex.rtMutexRelease_owner howner h.hold_le).2
    exact h.lock (fun u => Mutex.sameFor_rtMutexRelease) Mutex.hold_rtMutexRelease
      ⟨rfl, hwaiting, fun _ => by simpa using hroom⟩ (by rw [ht]; rfl)
  | leave ht hnone => exact h.leaves ht hnone
  | back ht hr =>
    exact h.lock (fun u => Mutex.sameFor_rtMutexTake hr) (Mutex.hold_rtMutexTake hr) trivial
      (by rw [ht]; rfl)

end Consistent

end Books

section Runs

variable [DecidableEq T] [DecidableEq M] {m : M} {s s' : State T M} {e : Event T M} {t : T}

omit [DecidableEq M] in
/-- A thread goes on at another place. -/
theorem State.books_goto (s : State T M) (t : T) (pc : Pc M) :
    (s.goto t pc).books = { s.books with place := update s.books.place t pc.place } := by
  have hplace := comp_update Pc.place s.pc t pc
  simp only [State.books, goto, Books.mk.injEq, and_true]
  exact hplace

omit [DecidableEq M] in
/-- A thread goes on at a place that the bookkeeping does not tell apart. -/
theorem State.books_goto_same {pc : Pc M} (h : pc.place = (s.pc t).place) :
    (s.goto t pc).books = s.books := by
  rw [State.books_goto, h]
  exact congrArg (fun place => { s.books with place }) (update_eq_self t s.books.place)

/-- The callers use the mutex `m` and hold it. -/
def UsesMutex (m : M) (s : State T M) : Event T M → Prop
  | .timedwait t m' _ => m' = m ∧ (s.mutex m).owner = some t
  | .signal t | .broadcast t => (s.mutex m).owner = some t
  | _ => True

/-- The last thread that is counted does not enter its second section under the spinlock while another
thread is between its first one and the increment of `waiters_cnt`. -/
def LastLeavesAlone (s : State T M) : Event T M → Prop
  | .proceed t => (s.pc t).isRemoved → s.waitersCnt = 1 → ∀ u, ¬ (s.pc u).isJoined
  | _ => True

instance (m : M) (s : State T M) (e : Event T M) : Decidable (UsesMutex m s e) := by
  cases e <;> unfold UsesMutex <;> infer_instance

instance [Fintype T] (s : State T M) (e : Event T M) : Decidable (LastLeavesAlone s e) := by
  cases e <;> unfold LastLeavesAlone <;> infer_instance

omit [DecidableEq T] [DecidableEq M] in
/-- The place of a thread in the bookkeeping. -/
theorem State.books_place {pc : Pc M} (hpc : s.pc t = pc) : s.books.place t = pc.place :=
  congrArg Pc.place hpc

/-- The first section under the spinlock. -/
theorem books_acquireWaitingMtx {m' : M} {timed : Bool} (hpc : s.pc t = .called m' timed) :
    s.books.Step m (s.acquireWaitingMtx t m' timed).books := by
  have hplace : s.books.place t = .entering m' := State.books_place hpc
  unfold acquireWaitingMtx
  split
  next hfree =>
    rw [State.books_goto]
    exact .join hplace
  next m'' hwaiting =>
    split_ifs with hsame
    · have hset : s.books.waitingMtx = some m' := hwaiting.trans (congrArg some hsame)
      have hjoin := Books.Step.join (m := m) hplace
      rw [← hset] at hjoin
      rw [State.books_goto]
      exact hjoin
    · have hout := Books.Step.refuse (m := m) hplace
      exact State.books_goto s t .idle ▸ hout

/-- A step of a thread in one of the functions. -/
theorem books_threadNext (halone : LastLeavesAlone s (.proceed t)) (h : s.threadNext t = some s') :
    s.books.Step m s'.books := by
  unfold threadNext at h
  split at h
  next => cases h
  next m' timed hpc =>
    cases h
    exact books_acquireWaitingMtx hpc
  next m' timed hpc =>
    cases h
    rw [State.books_goto]
    exact .count (State.books_place hpc)
  next m' timed hpc =>
    cases h
    have hsleep := Books.Step.sleep (m := m) (State.books_place hpc)
    rw [State.books_goto]
    unfold waitqInqueue
    split_ifs <;> exact hsleep
  next m' timed hpc =>
    split_ifs at h
    cases h
    rw [State.books_goto_same (by rw [hpc]; rfl)]
    exact .stay
  next m' rc hpc =>
    cases h
    rw [State.books_goto_same (by rw [show pc _ t = _ from hpc]; rfl)]
    exact .stay
  next m' rc hpc =>
    cases h
    rw [State.books_goto]
    refine .leave (State.books_place hpc) fun hone u m'' hu => ?_
    exact halone (by rw [hpc]; rfl) hone u (Pc.isJoined_of_place hu)
  next m' rc hpc =>
    obtain ⟨r, hr, rfl⟩ := map_eq_some_iff.mp h
    have hback := Books.Step.back (m := m) (State.books_place hpc) hr
    exact State.books_goto (s.setMutex m' r.1) t .idle ▸ hback
  next all hpc =>
    cases h
    rw [State.books_goto_same (by rw [show pc _ t = _ from hpc]; rfl)]
    exact .stay
  next hpc =>
    cases h
    rw [State.books_goto_same (by rw [show pc _ t = _ from hpc]; rfl)]
    exact .stay

/-- A signal or a broadcast up to its wake-up. -/
theorem books_signalOrBroadcast {all : Bool} (h : s.signalOrBroadcast t all = some s') :
    s'.books = s.books := by
  unfold signalOrBroadcast at h
  split_ifs at h with hidle
  all_goals
    cases h
    exact State.books_goto_same (by rw [hidle.1]; rfl)

/-- Every step of the model is a step of the bookkeeping. -/
theorem books_next (huses : UsesMutex m s e) (halone : LastLeavesAlone s e) (h : next s e = some s') :
    s.books.Step m s'.books := by
  cases e with
  | take t m' =>
    simp only [next] at h
    split_ifs at h with hidle
    obtain ⟨r, hr, rfl⟩ := map_eq_some_iff.mp h
    exact .take (State.books_place hidle) hr
  | release t m' =>
    simp only [next] at h
    split_ifs at h with hidle
    cases h
    exact .release (State.books_place hidle)
  | timedwait t m' timed =>
    simp only [next] at h
    split_ifs at h with hidle
    cases h
    obtain ⟨rfl, howner⟩ := huses
    rw [State.books_goto]
    exact .enter (State.books_place hidle.1) howner
  | signal | broadcast =>
    rw [books_signalOrBroadcast h]
    exact .stay
  | proceed t =>
    simp only [next] at h
    split_ifs at h
    exact books_threadNext halone h
  | timeout t =>
    simp only [next] at h
    split at h
    · split_ifs at h
      cases h
      exact .stay
    · cases h
  | interrupt t =>
    simp only [next] at h
    split_ifs at h
    cases h
    exact .stay

/-- The assertions of a thread's next step hold if the bookkeeping is consistent. -/
theorem stepAsserts_of_consistent (h : s.books.Consistent m) (t : T) : s.stepAsserts t := by
  have hfits := h.fits t
  unfold stepAsserts
  split
  next m' timed hpc =>
    rw [State.books_place hpc] at hfits
    obtain ⟨rfl, howner, -⟩ := hfits
    exact decide_eq_true (Mutex.rtMutexRelease_owner howner h.hold_le).1
  next m' rc hpc =>
    rw [State.books_place hpc] at hfits
    obtain ⟨rfl, hwaiting, -⟩ := hfits
    exact decide_eq_true fun _ => hwaiting
  next m' rc hpc =>
    rw [State.books_place hpc] at hfits
    obtain ⟨rfl, hroom⟩ := hfits
    cases htake : (s.mutex m').rtMutexTake t with
    | none => rfl
    | some r => exact decide_eq_true (Mutex.eok_rtMutexTake htake hroom)
  next => rfl

omit [DecidableEq M] in
/-- A thread that holds the mutex passes `CV_ASSERT_LOCKED`. -/
theorem cvAssertLocked_of_consistent (h : s.books.Consistent m) (ht : (s.mutex m).owner = some t) :
    s.cvAssertLocked t := by
  unfold cvAssertLocked
  cases hwaiting : s.waitingMtx with
  | none => rfl
  | some m' =>
    obtain rfl := h.only m' hwaiting
    exact decide_eq_true ht

omit [DecidableEq T] [DecidableEq M] in
/-- A positive count says that some thread relies on `waiting_mtx`. -/
theorem waitingMtx_of_consistent (h : s.books.Consistent m) (hpos : 0 < s.waitersCnt) :
    s.waitingMtx = some m := by
  obtain ⟨n, hcnt, hn⟩ := h.count
  have hcnt' : s.waitersCnt = n := hcnt
  obtain ⟨t, ht⟩ := hn.exists_of_pos (by omega)
  have hfits := h.fits t
  -- only the places that are counted are left
  cases hplace : s.books.place t <;> rw [hplace] at ht hfits <;> try exact ht.elim
  · exact hfits.2.2
  · exact hfits.2.1

end Runs

end RtThread.Condvar
