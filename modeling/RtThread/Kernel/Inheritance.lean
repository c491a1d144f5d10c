import RtThread.Kernel.LockSteps

/-!
# The priority inheritance protocol

The steps of the mutex functions as a relation on `Locks`. `Spread` is the loop of
`_thread_update_priority`: a priority that changed is passed on along the chain of owners. Every
step keeps inheritance exact. For a thread that gives up after a timeout this needs that a change of
the owner's priority is not left out.
-/

namespace RtThread.Kernel.Locks

open Lib Function

variable {T : Type*} [DecidableEq T] {v v' : Locks T} {t : T} {id : ℕ}

/-- The new priority of a thread is passed on. -/
inductive Spread : Locks T → T → Locks T → Prop where
  /-- The thread does not wait for a mutex. -/
  | stop {v : Locks T} {t : T} : v.suspended t = false ∨ v.pending t = none → Spread v t v
  /-- The owner of the mutex it waits for inherits nothing new. -/
  | settled {v : Locks T} {t o : T} {id : ℕ} : v.suspended t = true → v.pending t = some id →
      (v.mutex id).owner = some o → v.current o = ((v.requeue t id).refresh id).inherited o →
      Spread v t ((v.requeue t id).refresh id)
  /-- The owner inherits a new priority. -/
  | next {v v' : Locks T} {t o : T} {id : ℕ} : v.suspended t = true → v.pending t = some id →
      (v.mutex id).owner = some o →
      Spread (((v.requeue t id).refresh id).setPriority o
        (((v.requeue t id).refresh id).inherited o)) o v' →
      Spread v t v'

/-- Passing on a priority makes inheritance exact. -/
theorem Spread.exact (hspread : Spread v t v') (h : v.Exact (some t) none) : v'.Exact none none := by
  induction hspread with
  | stop hnot => exact h.settle (h.owned.not_waiting hnot)
  | settled hsusp hpending howner hsame =>
    have hmid := h.requeue_refresh ((h.owned.waiting _ _).mpr ⟨hsusp, hpending⟩)
    rw [howner] at hmid
    exact hmid.inherit hsame
  | next hsusp hpending howner _ ih =>
    have hmid := h.requeue_refresh ((h.owned.waiting _ _).mpr ⟨hsusp, hpending⟩)
    rw [howner] at hmid
    exact ih hmid.setPriority

/-- Passing on a priority changes only priorities and the order of the lists. -/
theorem Spread.frame (hspread : Spread v t v') :
    v'.suspended = v.suspended ∧ v'.pending = v.pending ∧ v'.firing = v.firing := by
  induction hspread with
  | stop | settled => exact ⟨rfl, rfl, rfl⟩
  | next _ _ _ _ ih => exact ih

/-- A running thread's pending mutex does not matter. -/
theorem Spread.forget {u : T} (hspread : Spread v t v') (hu : v.suspended u = false) :
    Spread (v.forget u) t (v'.forget u) := by
  have hpending : ∀ {w : Locks T} {t : T} {id : ℕ}, w.suspended u = false →
      w.suspended t = true → w.pending t = some id → (w.forget u).pending t = some id := by
    intro w t id hu hsusp hid
    refine (update_of_ne ?_ ..).trans hid
    rintro rfl
    rw [hu] at hsusp
    cases hsusp
  induction hspread with
  | stop hnot =>
    refine Spread.stop (hnot.imp_right fun hnone => ?_)
    simp [Locks.forget, update_apply, hnone]
  | settled hsusp hid howner hsame => exact Spread.settled hsusp (hpending hu hsusp hid) howner hsame
  | next hsusp hid howner _ ih => exact Spread.next hsusp (hpending hu hsusp hid) howner (ih hu)

/-- A mutex notes the priority of a thread that waits for it. -/
def note (v : Locks T) (t : T) (id : ℕ) : Locks T :=
  v.setMutex id ((v.mutex id).withPriority (v.current t))

/-- The steps of takes and releases, with no timeout. -/
inductive Step : Locks T → Locks T → Prop where
  /-- Nothing that matters to inheritance. -/
  | refl {v : Locks T} : Step v v
  /-- A thread that waits for no mutex is suspended or resumed. -/
  | suspend {v : Locks T} {t : T} (b : Bool) : v.pending t = none →
      Step v { v with suspended := update v.suspended t b }
  /-- A recursive take or release. -/
  | count {v : Locks T} {id n : ℕ} : (v.mutex id).owner ≠ none → 0 < n →
      Step v (v.setMutex id { v.mutex id with hold := n })
  /-- A free mutex is taken. -/
  | acquire {v : Locks T} {t : T} {id : ℕ} : (v.mutex id).owner = none → Step v (v.own t id 0xff)
  /-- A thread waits for a mutex that has no lower priority. -/
  | wait {v : Locks T} {t : T} {id : ℕ} : v.suspended t = false → v.pending t = none →
      (v.mutex id).owner ≠ none → (v.mutex id).priority ≤ v.current t → Step v (v.enter t id)
  /-- A thread waits for a mutex whose owner needs no higher priority. -/
  | waitNote {v : Locks T} {t o : T} {id : ℕ} : v.suspended t = false → v.pending t = none →
      (v.mutex id).owner = some o → v.current t < (v.mutex id).priority →
      v.current o ≤ v.current t → Step v ((v.enter t id).note t id)
  /-- A thread waits and its priority is inherited. -/
  | waitSpread {v v' : Locks T} {t o : T} {id : ℕ} : v.suspended t = false → v.pending t = none →
      (v.mutex id).owner = some o → v.current t < (v.mutex id).priority →
      v.current t < v.current o →
      Spread (((v.enter t id).note t id).setPriority o (v.current t)) o v' → Step v v'
  /-- The last release of a mutex that nobody waits for. -/
  | free {v : Locks T} {t : T} {id : ℕ} : v.suspended t = false → (v.mutex id).owner = some t →
      v.waiting id = [] →
      Step v ((v.letGo t id).setMutex id (((v.letGo t id).mutex id).withPriority 0xff))
  /-- The last release of a mutex hands it to the first thread that waits. -/
  | handOver {v : Locks T} {t next : T} {rest : List T} {id : ℕ} : v.suspended t = false →
      (v.mutex id).owner = some t → v.waiting id = next :: rest →
      Step v ((v.letGo t id).give next id)

/-- Suspending a thread that waits for no mutex keeps inheritance exact. -/
theorem Exact.suspend (h : v.Exact none none) (b : Bool) (ht : v.pending t = none) :
    Exact { v with suspended := update v.suspended t b } none none := by
  have hsame : ∀ u id, v.pending u = some id → update v.suspended t b u = v.suspended u := by
    intro u id hu
    apply update_of_ne
    rintro rfl
    rw [ht] at hu
    cases hu
  refine { h with owned := { h.owned with waiting := fun u id => ?_ }, first := ?_ }
  · refine (h.owned.waiting u id).trans (and_congr_left fun hu => ?_)
    exact (congrArg (· = true) (hsame u id hu)).symm ▸ Iff.rfl
  · intro id hmoved hghost
    refine h.first id hmoved ?_
    intro u hu
    rw [← hsame u id hu]
    exact hghost u hu

/-- Noting the smaller priority. -/
theorem note_enter (v : Locks T) (t : T) {id : ℕ} (h : v.current t ≤ (v.mutex id).priority) :
    (v.enter t id).note t id = (v.enter t id).setMutex id
      ((v.mutex id).withPriority (min (v.current t) (v.mutex id).priority)) := by
  rw [min_eq_left h]
  rfl

/-- Every step keeps inheritance exact. -/
theorem Step.exact (hstep : Step v v') (h : v.Exact none none) : v'.Exact none none := by
  cases hstep with
  | refl => exact h
  | suspend b ht => exact h.suspend b ht
  | count howner hn => exact h.setHold howner hn
  | acquire hfree => exact h.acquire hfree
  | @wait t id ht hpending howner hle =>
    obtain ⟨o, howner⟩ := Option.ne_none_iff_exists'.mp howner
    have henter := h.enter ht hpending howner
    have hinherited := h.inherited_enter ht howner
    rw [min_eq_right hle] at henter hinherited
    have hsame : (v.enter t id).setMutex id ((v.mutex id).withPriority (v.mutex id).priority) =
        v.enter t id := by
      unfold setMutex
      rw [show (v.mutex id).withPriority (v.mutex id).priority = (v.enter t id).mutex id from rfl,
        update_eq_self]
    rw [hsame] at henter hinherited
    refine henter.inherit ?_
    rw [hinherited]
    symm
    apply min_eq_left
    refine le_trans ?_ hle
    rw [h.inherits o (by simp)]
    exact leastKey_le ((h.owned.taken o id).mpr howner)
  | waitNote ht hpending howner hlt hle =>
    have henter := h.enter ht hpending howner
    have hinherited := h.inherited_enter ht howner
    rw [note_enter v _ hlt.le]
    refine henter.inherit ?_
    rw [hinherited]
    exact (min_eq_left hle).symm
  | waitSpread ht hpending howner hlt hlow hspread =>
    have henter := h.enter ht hpending howner
    have hinherited := h.inherited_enter ht howner
    rw [min_eq_right hlow.le] at hinherited
    have hset := henter.setPriority
    rw [hinherited, ← note_enter v _ hlt.le] at hset
    exact hspread.exact hset
  | free ht howner hempty => exact h.free ht howner hempty
  | @handOver t next rest id ht howner hwait =>
    obtain ⟨howned, hserved, hsorted, hfirst, hinherits⟩ := h.letGo ht howner
    exact Exact.give howned hserved hsorted hfirst hinherits (letGo_owner v t id)
      ((congrFun (letGo_waiting v t id) id).trans hwait)

/-- No thread has timed out: whoever has a pending mutex waits for it. -/
def Patient (v : Locks T) : Prop := ∀ t id, v.pending t = some id → v.suspended t = true

/-- A thread that starts to wait is suspended. -/
theorem Patient.enter (h : v.Patient) (t : T) (id : ℕ) : (v.enter t id).Patient := by
  intro u id' hu
  by_cases hut : u = t
  · rw [hut]
    exact update_self ..
  · have hpending : v.pending u = some id' := (update_of_ne hut ..).symm.trans hu
    exact (update_of_ne hut ..).trans (h u id' hpending)

/-- No step without a timeout lets a thread time out. -/
theorem Step.patient (hstep : Step v v') (h : v.Patient) : v'.Patient := by
  cases hstep with
  | refl => exact h
  | @suspend t b ht =>
    intro u id hu
    refine (update_of_ne ?_ ..).trans (h u id hu)
    rintro rfl
    rw [ht] at hu
    cases hu
  | count | acquire => exact h
  | wait | waitNote => exact h.enter _ _
  | @waitSpread _ t _ id _ _ _ _ _ hspread =>
    obtain ⟨hsusp, hpending, -⟩ := hspread.frame
    intro u id' hu
    rw [hpending] at hu
    rw [hsusp]
    exact h.enter t id u id' hu
  | @free t id =>
    obtain ⟨hpending, hsusp, -⟩ := letGo_frame v t id
    exact fun u id' hu => hsusp ▸ h u id' (hpending ▸ hu)
  | @handOver t next _ id _ _ _ =>
    obtain ⟨hpending, hsusp, -⟩ := letGo_frame v t id
    intro u id' hu
    change update (v.letGo t id).pending next none u = some id' at hu
    by_cases hut : u = next
    · simp [hut] at hu
    · rw [update_of_ne hut, hpending] at hu
      exact (update_of_ne hut ..).trans (hsusp ▸ h u id' hu)

/-- No step without a timeout lets a timer expire. -/
theorem Step.firing (hstep : Step v v') : v'.firing = v.firing := by
  cases hstep with
  | waitSpread _ _ _ _ _ hspread => exact hspread.frame.2.2
  | free | handOver => exact (letGo_frame ..).2.2
  | _ => rfl

/-- The timer of a thread starts or ends to expire. -/
def setFiring (v : Locks T) (t : T) (value : Bool) : Locks T :=
  { v with firing := update v.firing t value }

/-- Timers do not matter to inheritance. -/
theorem Exact.setFiring (h : v.Exact none none) (t : T) (value : Bool) :
    (v.setFiring t value).Exact none none :=
  { h with owned := { h.owned with } }

/-- The steps of takes and releases with timeouts. A thread that gives up either changes the
priority of the owner or has no reason to. -/
inductive TimedStep : Locks T → Locks T → Prop where
  | untimed {v v' : Locks T} : Step v v' → TimedStep v v'
  /-- The timer of a thread is due. -/
  | due {v : Locks T} (t : T) : TimedStep v (v.setFiring t true)
  /-- A thread times out. -/
  | expire {v : Locks T} (t : T) : TimedStep v ((v.leave t).setFiring t false)
  /-- A thread gives up, and the owner has the priority it inherits. -/
  | giveUp {v : Locks T} {t : T} {id : ℕ} : v.suspended t = false → v.pending t = some id →
      (∀ o, (v.mutex id).owner = some o → v.current o = (v.refresh id).inherited o) →
      TimedStep v ((v.refresh id).forget t)
  /-- A thread gives up, and the owner gets the priority it inherits. -/
  | giveUpSpread {v v' : Locks T} {t o : T} {id : ℕ} : v.suspended t = false →
      v.pending t = some id → (v.mutex id).owner = some o →
      Spread (((v.refresh id).forget t).setPriority o ((v.refresh id).inherited o)) o v' →
      TimedStep v v'

/-- After a thread gives up, the owner of its mutex is still to be changed. -/
theorem Exact.refresh_forget (h : v.Exact none none) (ht : v.suspended t = false)
    (hpending : v.pending t = some id) : ((v.refresh id).forget t).Exact none (v.mutex id).owner := by
  have hmid := h.refresh id
  refine { hmid with owned := hmid.owned.forget ht, first := ?_ }
  apply hmid.first.forget
  intro id' hid'
  obtain rfl : id = id' := Option.mem_unique hpending hid'
  rw [Locks.refresh, setMutex_self]
  rfl

/-- Every step with timeouts keeps inheritance exact. -/
theorem TimedStep.exact (hstep : TimedStep v v') (h : v.Exact none none) : v'.Exact none none := by
  cases hstep with
  | untimed hstep => exact hstep.exact h
  | due t => exact h.setFiring t true
  | expire t => exact (h.leave t).setFiring t false
  | @giveUp t id ht hpending hsame =>
    have hmid := h.refresh_forget ht hpending
    cases howner : (v.mutex id).owner with
    | none =>
      rw [howner] at hmid
      exact hmid
    | some o =>
      rw [howner] at hmid
      exact hmid.inherit (hsame o howner)
  | giveUpSpread ht hpending howner hspread =>
    have hmid := h.refresh_forget ht hpending
    rw [howner] at hmid
    exact hspread.exact hmid.setPriority

end RtThread.Kernel.Locks
