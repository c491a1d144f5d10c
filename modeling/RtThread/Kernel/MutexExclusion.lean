import Mathlib.Data.Fin.VecNotation
import Mathlib.Data.Fintype.Basic
import RtThread.Kernel.Holds

/-!
# Mutual exclusion

A thread holds a mutex from the return of its first `rt_mutex_take` to its last `rt_mutex_release`. The
owner of the mutex is that thread, or a thread that has been handed the mutex and has not returned from
its call yet. Such a thread is told from one that has timed out by its error code alone; the invariant
says why this is enough.
-/

namespace RtThread.Kernel

open Lib Function Option Waits State

/-- One more take of the mutex when the thread is inside one: it counts from the moment at which the
thread becomes the owner. -/
def Pc.entering (pc : Pc) (id : ℕ) : ℕ := if pc = .mutexResched id ∨ pc = .mutexWoken id then 1 else 0

namespace State

variable {T : Type*}
variable {fuel : ℕ} {ret : Option ℤ}

/-- The thread is inside `rt_mutex_take`, after its suspension. -/
def AtTake (id : ℕ) (seat : Seat) : Prop :=
  seat.fresh = false ∧ (seat.pc = .mutexResched id ∨ seat.pc = .mutexWoken id)

/-- The conditions of a thread in a run of the mutex functions. -/
inductive SeatOk (owner : ℕ → Option T) (t : T) (seat : Seat) : Prop where
  /-- The thread waits for no mutex. -/
  | calm : seat.pc = .idle ∨ (∃ ret, seat.pc = .resched ret) → seat.pending = none →
      SeatOk owner t seat
  /-- The thread is suspended. -/
  | waiting (id : ℕ) : AtTake id seat → seat.suspended = true → seat.error = rtEok →
      seat.pending = some id → owner id ≠ some t → SeatOk owner t seat
  /-- The thread has been made the owner. -/
  | granted (id : ℕ) : AtTake id seat → seat.suspended = false → seat.error = rtEok →
      seat.pending = none → owner id = some t → SeatOk owner t seat
  /-- The thread has timed out. -/
  | failed (id : ℕ) : AtTake id seat → seat.suspended = false → seat.error ≠ rtEok →
      seat.pending = some id → owner id ≠ some t → SeatOk owner t seat
  /-- The thread is about to return an error. -/
  | leaving (ret : ℤ) : seat.pc = .mutexClear ret → ret ≠ rtEok → seat.suspended = false →
      seat.fresh = false → SeatOk owner t seat

namespace SeatOk

variable {owner owner' : ℕ → Option T} {t : T} {seat : Seat} {id : ℕ}

section

variable (h : SeatOk owner t seat)
include h

/-- Only the mutexes that the thread owns matter. -/
theorem congr_owner (howner : ∀ id, owner' id = some t ↔ owner id = some t) : SeatOk owner' t seat := by
  cases h with
  | calm hpc hpending => exact .calm hpc hpending
  | waiting id hat hsusp herror hpending hmine =>
    exact .waiting id hat hsusp herror hpending fun hid => hmine ((howner id).mp hid)
  | granted id hat hsusp herror hpending hmine =>
    exact .granted id hat hsusp herror hpending ((howner id).mpr hmine)
  | failed id hat hsusp herror hpending hmine =>
    exact .failed id hat hsusp herror hpending fun hid => hmine ((howner id).mp hid)
  | leaving ret hpc hret hsusp hfresh => exact .leaving ret hpc hret hsusp hfresh

/-- A thread at thread level has no pending object. -/
theorem of_idle (hpc : seat.pc = .idle) : seat.pending = none := by
  cases h with
  | calm _ hpending => exact hpending
  | _ => simp_all [AtTake]

/-- A suspended thread with a pending object waits for it. -/
theorem of_pending (hsusp : seat.suspended = true)
    (hpending : seat.pending = some id) : AtTake id seat ∧ seat.error = rtEok := by
  cases h with
  | waiting id' hat _ herror hsome =>
    obtain rfl := mem_unique hpending hsome
    exact ⟨hat, herror⟩
  | _ => simp_all

/-- A thread that goes on after its suspension is the owner, or has an error code. -/
theorem of_woken (hsusp : seat.suspended = false) (hpc : seat.pc = .mutexWoken id) : seat.fresh = false ∧
    (seat.error = rtEok ∧ owner id = some t ∧ seat.pending = none ∨
      seat.error ≠ rtEok ∧ owner id ≠ some t) := by
  have hsame : ∀ id', AtTake id' seat → id' = id := by
    simp +contextual [AtTake, hpc]
  cases h with
  | granted id' hat _ herror hpending hmine =>
    obtain rfl := hsame id' hat
    exact ⟨hat.1, .inl ⟨herror, hmine, hpending⟩⟩
  | failed id' hat _ herror _ hmine =>
    obtain rfl := hsame id' hat
    exact ⟨hat.1, .inr ⟨herror, hmine⟩⟩
  | _ => simp_all

/-- A thread that gives up does not return `RT_EOK`. -/
theorem of_leaving {ret : ℤ} (hpc : seat.pc = .mutexClear ret) : ret ≠ rtEok := by
  cases h with
  | leaving ret' hat hret =>
    obtain rfl := Pc.mutexClear.inj (hpc.symm.trans hat)
    exact hret
  | _ => simp_all [AtTake]

/-- A thread that is not started is in no call. -/
theorem of_fresh (hfresh : seat.fresh = true) :
    (seat.pc = .idle ∨ ∃ ret, seat.pc = .resched ret) ∧ seat.pending = none := by
  cases h with
  | calm hpc hpending => exact ⟨hpc, hpending⟩
  | _ => simp_all [AtTake]

/-- A thread goes on from the `rt_schedule` after its suspension. -/
theorem advance (hpc : seat.pc = .mutexResched id) :
    SeatOk owner t { seat with pc := .mutexWoken id } := by
  have hsame : ∀ id', AtTake id' seat → AtTake id' { seat with pc := .mutexWoken id } := by
    simp [AtTake, hpc]
  cases h with
  | waiting id' hat hsusp herror hpending hmine =>
    exact .waiting id' (hsame id' hat) hsusp herror hpending hmine
  | granted id' hat hsusp herror hpending hmine =>
    exact .granted id' (hsame id' hat) hsusp herror hpending hmine
  | failed id' hat hsusp herror hpending hmine =>
    exact .failed id' (hsame id' hat) hsusp herror hpending hmine
  | _ => simp_all

/-- A suspended thread times out. -/
theorem timeout (hsusp : seat.suspended = true) :
    SeatOk owner t ⟨false, false, seat.pc, -rtEtimeout, seat.pending⟩ := by
  cases h with
  | calm hpc hpending => exact .calm hpc hpending
  | waiting id hat _ _ hpending hmine =>
    exact .failed id ⟨rfl, hat.2⟩ rfl (show -rtEtimeout ≠ rtEok by decide) hpending hmine
  | _ => simp_all

end

end SeatOk

/-- The counts of the mutexes: the owner's takes that are not released yet, with the one that it has
been handed and has not returned from. -/
structure Counted (owners : Holds T) (seats : T → Seat) (tally : T → ℕ → ℕ) : Prop where
  owned : ∀ id t, owners.owner id = some t →
    owners.hold id = tally t id + (seats t).pc.entering id ∧ 0 < owners.hold id
  other : ∀ id t, owners.owner id ≠ some t → tally t id = 0

/-- The invariant of the mutex functions. -/
structure Excluded (k : State T) (tally : T → ℕ → ℕ) : Prop where
  queue : k.ReadyQueue
  place : ∀ t, SeatOk k.holds.owner t (k.seat t)
  waiting : ∀ id u, u ∈ k.waits.waiting (.mutex id) → (k.seat u).pending = some id
  counted : Counted k.holds k.seat tally

variable {k k' : State T} {t : T} {id : ℕ} {tally tally' : T → ℕ → ℕ} {seats : T → Seat}
  {owners : Holds T}

/-- A step of the mutex functions keeps the invariant when it does so for every thread and every count. -/
theorem Excluded.move (h : Excluded k tally) (hmove : MutexMove k k' seats owners)
    (hplace : ∀ u, SeatOk owners.owner u (seats u))
    (hkeep : ∀ u id, (seats u).suspended = true → (k.seat u).pending = some id →
      (seats u).pending = some id) (hcounted : Counted owners seats tally') : Excluded k' tally' where
  queue := hmove.queue
  place u := by
    rw [hmove.seat, hmove.holds]
    exact hplace u
  waiting id u hu := by
    rcases hmove.waiting id u hu with hold | hnew
    · have hsusp : (k'.seat u).suspended = true := by
        exact (hmove.queue.queue.wait u _ rfl hu).2
      rw [hmove.seat] at hsusp ⊢
      exact hkeep u id hsusp (h.waiting id u hold)
    · exact hnew
  counted := by
    rw [hmove.seat, hmove.holds]
    exact hcounted

variable [DecidableEq T]

/-- The number of takes of a thread is written. -/
def setTally (tally : T → ℕ → ℕ) (t : T) (id n : ℕ) : T → ℕ → ℕ :=
  update tally t (update (tally t) id n)

theorem setTally_self (tally : T → ℕ → ℕ) (t : T) (id n : ℕ) : setTally tally t id n t id = n := by
  simp [setTally]

theorem setTally_of_ne (tally : T → ℕ → ℕ) {t u : T} {id id' : ℕ} (n : ℕ)
    (h : u ≠ t ∨ id' ≠ id) : setTally tally t id n u id' = tally u id' := by
  unfold setTally
  by_cases hu : u = t
  · subst hu
    rw [update_self, update_of_ne (h.resolve_left fun hne => hne rfl)]
  · rw [update_of_ne hu]

theorem setTally_eq_self (tally : T → ℕ → ℕ) (t : T) (id : ℕ) :
    setTally tally t id (tally t id) = tally := by
  simp [setTally]

namespace Counted

section

variable (h : Counted owners seats tally)
include h

/-- The place of a thread changes where it does not matter. -/
theorem reseat {seat : Seat}
    (hpc : ∀ id, owners.owner id = some t → seat.pc.entering id = (seats t).pc.entering id) :
    Counted owners (update seats t seat) tally where
  owned id u hu := by
    by_cases hut : u = t
    · subst hut
      rw [update_self, hpc id hu]
      exact h.owned id u hu
    · rw [update_of_ne hut]
      exact h.owned id u hu
  other := h.other

/-- One mutex and the takes of one thread change together. -/
theorem change {owners' : Holds T} {seats' : T → Seat} {n : ℕ}
    (hrest : ∀ id', id' ≠ id → owners'.owner id' = owners.owner id' ∧ owners'.hold id' = owners.hold id' ∧
      ∀ u, (seats' u).pc.entering id' = (seats u).pc.entering id')
    (hothers : ∀ u, owners.owner id = some u → u = t) (howned : ∀ u, owners'.owner id = some u → u = t ∧
      owners'.hold id = n + (seats' t).pc.entering id ∧ 0 < owners'.hold id)
    (hfree : owners'.owner id ≠ some t → n = 0) : Counted owners' seats' (setTally tally t id n) where
  owned id' u hu := by
    by_cases hid : id' = id
    · subst hid
      obtain ⟨rfl, hhold⟩ := howned u hu
      rwa [setTally_self]
    · obtain ⟨howner, hhold, hpc⟩ := hrest id' hid
      rw [setTally_of_ne tally n (.inr hid), hhold, hpc]
      exact h.owned id' u (howner ▸ hu)
  other id' u hu := by
    by_cases hid : id' = id
    · subst hid
      by_cases hut : u = t
      · subst hut
        rw [setTally_self, hfree hu]
      · rw [setTally_of_ne tally n (.inl hut)]
        exact h.other id' u (mt (hothers u) hut)
    · rw [setTally_of_ne tally n (.inr hid)]
      exact h.other id' u ((hrest id' hid).1 ▸ hu)

/-- The owner takes the mutex once more, or releases it and still holds it. -/
theorem setHold {hold n : ℕ} (howner : owners.owner id = some t)
    (hhold : 0 < hold) (hn : hold = n + (seats t).pc.entering id) :
    Counted (owners.setHold id hold) seats (setTally tally t id n) := by
  have hothers : ∀ u, owners.owner id = some u → u = t := fun u hu => mem_unique hu howner
  refine h.change (fun id' hid => ⟨rfl, update_of_ne hid .., fun _ => rfl⟩) hothers
    (fun u hu => ⟨hothers u hu, ?_⟩) fun hne => absurd howner hne
  simp only [Holds.setHold, update_self]
  exact ⟨hn, hhold⟩

/-- A free mutex gets an owner. -/
theorem own {n : ℕ} (hfree : owners.owner id = none) (hn : 1 = n + (seats t).pc.entering id) :
    Counted (owners.own id t) seats (setTally tally t id n) := by
  refine h.change (fun id' hid => ⟨update_of_ne hid .., update_of_ne hid .., fun _ => rfl⟩)
    (by simp [hfree]) (fun u hu => ⟨by simpa [Holds.own, eq_comm] using hu, ?_⟩)
    fun hne => absurd (update_self ..) hne
  simp only [Holds.own, update_self]
  exact ⟨hn, Nat.one_pos⟩

/-- The last release. -/
theorem free (howner : owners.owner id = some t) :
    Counted (owners.free id) seats (setTally tally t id 0) :=
  h.change (fun id' hid => ⟨update_of_ne hid .., update_of_ne hid .., fun _ => rfl⟩)
    (fun u hu => mem_unique hu howner) (by simp [Holds.free]) fun _ => rfl

/-- A thread returns from the take after which it owns the mutex. -/
theorem returned {seat : Seat} (howner : owners.owner id = some t)
    (hpc : (seats t).pc = .mutexWoken id) (hidle : seat.pc = .idle) :
    Counted owners (update seats t seat) (setTally tally t id (tally t id + 1)) := by
  have hothers : ∀ u, owners.owner id = some u → u = t := fun u hu => mem_unique hu howner
  refine h.change (fun id' hid => ⟨rfl, rfl, fun u => ?_⟩) hothers (fun u hu => ⟨hothers u hu, ?_⟩)
    fun hne => absurd howner hne
  · by_cases hut : u = t
    · subst hut
      simp [hidle, hpc, Pc.entering, Ne.symm hid]
    · rw [update_of_ne hut]
  · simpa [hidle, hpc, Pc.entering] using h.owned id t howner

end

end Counted

/-! ## The steps -/

/-- A step that changes one thread. -/
theorem Excluded.moveOne {seat : Seat} (h : Excluded k tally)
    (hmove : MutexMove k k' (update k.seat t seat) owners) (hseat : SeatOk owners.owner t seat)
    (hothers : ∀ u, u ≠ t → ∀ id, owners.owner id = some u ↔ k.holds.owner id = some u)
    (hkeep : seat.suspended = true → (k.seat t).pending = none ∨ seat.pending = (k.seat t).pending)
    (hcounted : Counted owners (update k.seat t seat) tally') : Excluded k' tally' := by
  refine h.move hmove ?_ ?_ hcounted
  · exact (forall_update_iff k.seat (SeatOk owners.owner)).mpr
      ⟨hseat, fun u hut => (h.place u).congr_owner (hothers u hut)⟩
  · refine (forall_update_iff k.seat fun u x => ∀ id, x.suspended = true →
      (k.seat u).pending = some id → x.pending = some id).mpr ⟨fun id hsusp hpending => ?_, by simp⟩
    rcases hkeep hsusp with hnone | hsame
    · simp [hpending] at hnone
    · exact hsame.trans hpending

/-- `rt_mutex_take`, up to its return or its suspension. -/
theorem Excluded.take (h : Excluded k tally) (hidle : k.pc t = .idle) (hstep : TakeStep k t id k' ret) :
    Excluded k' (if ret = some rtEok then setTally tally t id (tally t id + 1) else tally) := by
  have hpending := (h.place t).of_idle hidle
  have hcalm : ∀ error (owner : ℕ → Option T), SeatOk owner t { k.seat t with error := error } :=
    fun error owner => .calm (.inl hidle) hpending
  have hcounted : ∀ error, Counted k.holds (update k.seat t { k.seat t with error := error })
      tally := fun error => h.counted.reseat fun _ _ => rfl
  have hzero : (k.seat t).pc.entering id = 0 := by simp [seat, hidle, Pc.entering]
  cases hstep with
  | again howner hmove =>
    obtain ⟨hhold, -⟩ := h.counted.owned id t howner
    refine h.moveOne hmove (hcalm _ _) (fun _ _ _ => Iff.rfl) (fun _ => .inl hpending) ?_
    refine (hcounted _).setHold howner (Nat.succ_pos _) ?_
    rw [update_self]
    change k.holds.hold id + 1 = tally t id + 1 + (k.seat t).pc.entering id
    omega
  | own hfree hmove =>
    have hnone : tally t id = 0 := h.counted.other id t (by simp [hfree])
    refine h.moveOne hmove (hcalm _ _) ?_ (fun _ => .inl hpending) ?_
    · intro u hut id'
      by_cases hid : id' = id
      · subst hid
        simp [Holds.own, hfree, Ne.symm hut]
      · simp [Holds.own, hid]
    · refine (hcounted _).own hfree ?_
      rw [update_self, hnone]
      change 1 = 0 + 1 + (k.seat t).pc.entering id
      omega
  | refused hret hmove =>
    rw [if_neg fun hok => hret (some.inj hok)]
    exact h.moveOne hmove (hcalm _ _) (fun _ _ _ => Iff.rfl) (fun _ => .inl hpending) (hcounted _)
  | wait hmine hmove =>
    refine h.moveOne hmove ?_ (fun _ _ _ => Iff.rfl) (fun _ => .inl hpending) ?_
    · exact .waiting id ⟨rfl, .inl rfl⟩ rfl rfl rfl hmine
    · refine h.counted.reseat fun id' howner => ?_
      have hne : id ≠ id' := by
        rintro rfl
        exact hmine howner
      simp [seat, hidle, Pc.entering, hne]

/-- `rt_mutex_release`. -/
theorem Excluded.release (h : Excluded k tally) (hidle : k.pc t = .idle)
    (hstep : ReleaseStep k t id k' ret) :
    Excluded k' (if ret = some (-rtError) then tally else setTally tally t id (tally t id - 1)) := by
  have hpending := (h.place t).of_idle hidle
  have hzero : (k.seat t).pc.entering id = 0 := by simp [seat, hidle, Pc.entering]
  cases hstep with
  | refused hmine hwaits hmutex hmove =>
    refine h.moveOne hmove (.calm (.inl hidle) hpending) (fun _ _ _ => Iff.rfl)
      (fun _ => .inl hpending) ?_
    exact h.counted.reseat fun _ _ => rfl
  | drop howner hmore hmove =>
    obtain ⟨hhold, hpos⟩ := h.counted.owned id t howner
    refine h.move hmove h.place (fun _ _ _ hsome => hsome) ?_
    exact h.counted.setHold howner (by omega) (by omega)
  | free howner hlast hret hmove =>
    rename_i pc
    obtain ⟨hhold, hpos⟩ := h.counted.owned id t howner
    have hcalm : (pc = .idle ∨ pc = .resched rtEok) ∧ ret ≠ some (-rtError) := by
      rcases hret with ⟨rfl, rfl⟩ | ⟨rfl, rfl⟩
      · exact ⟨.inl hidle, by decide⟩
      · exact ⟨.inr rfl, by decide⟩
    have hnone : tally t id - 1 = 0 := by omega
    rw [if_neg hcalm.2, hnone]
    refine h.moveOne hmove (.calm (hcalm.1.imp_right fun hpc => ⟨_, hpc⟩) hpending) ?_
      (fun _ => .inl hpending) ?_
    · intro u hut id'
      by_cases hid : id' = id
      · subst hid
        simp [Holds.free, howner, Ne.symm hut]
      · simp [Holds.free, hid]
    · refine (h.counted.reseat fun id' _ => ?_).free howner
      rcases hcalm.1 with hpc | hpc <;> simp [seat, hidle, hpc, Pc.entering]
  | hand howner hlast hfrom hsusp hne hmove =>
    rename_i next
    obtain ⟨hhold, hpos⟩ := h.counted.owned id t howner
    have hnone : tally t id - 1 = 0 := by omega
    rw [hnone]
    have hnext : (k.seat next).pending = some id := by
      rcases hfrom with hmem | hsome
      · exact h.waiting id next hmem
      · exact hsome
    obtain ⟨hat, herror⟩ := (h.place next).of_pending hsusp hnext
    refine h.move hmove (fun u => ?_) (fun u id' hsuspended hsome => ?_) ?_
    · by_cases hut : u = t
      · subst hut
        rw [update_self]
        exact .calm (.inr ⟨_, rfl⟩) hpending
      · rw [update_of_ne hut]
        by_cases hun : u = next
        · subst hun
          rw [update_self]
          exact .granted id hat rfl herror rfl (by simp [Holds.own])
        · rw [update_of_ne hun]
          refine (h.place u).congr_owner fun id' => ?_
          by_cases hid : id' = id
          · subst hid
            simp [Holds.own, howner, Ne.symm hut, Ne.symm hun]
          · simp [Holds.own, Holds.free, hid]
    · by_cases hut : u = t
      · rw [hut, hpending] at hsome
        cases hsome
      · rw [update_of_ne hut] at hsuspended ⊢
        by_cases hun : u = next
        · rw [hun, update_self] at hsuspended
          cases hsuspended
        · rwa [update_of_ne hun]
    · -- The mutex is freed and then owned by the thread that is still inside its take.
      have hpc : (k.seat next).pc.entering id = 1 := by
        rcases hat.2 with hpc | hpc <;> simp [hpc, Pc.entering]
      have hseats : Counted k.holds (update (update k.seat next
          { k.seat next with suspended := false, pending := none }) t
          { k.seat t with pc := .resched rtEok }) tally := by
        refine Counted.reseat (Counted.reseat h.counted fun _ _ => ?_) fun id' _ => ?_
        · rfl
        · rw [update_of_ne (Ne.symm hne)]
          simp [seat, hidle, Pc.entering]
      have hother : setTally tally t id 0 next id = 0 := by
        rw [setTally_of_ne tally 0 (.inl hne)]
        refine h.counted.other id next ?_
        rw [howner]
        exact fun hsame => hne (some.inj hsame).symm
      have hfreed : (k.holds.free id).owner id = none := by simp [Holds.free]
      have hown := (hseats.free howner).own (n := setTally tally t id 0 next id) hfreed (by
        rw [hother, update_of_ne hne, update_self, hpc])
      rwa [setTally_eq_self] at hown

/-- The end of `rt_mutex_take` for a thread that was suspended. -/
theorem Excluded.woken (h : Excluded k tally) (hsusp : (k.seat t).suspended = false)
    (hpc : k.pc t = .mutexWoken id) (hstep : WokenStep k t id k' ret) :
    Excluded k' (if ret = some rtEok then setTally tally t id (tally t id + 1) else tally) := by
  obtain ⟨hfresh, hplace⟩ := (h.place t).of_woken hsusp hpc
  cases hstep with
  | granted hok howner hmove =>
    have hpending : (k.seat t).pending = none := by
      rcases hplace with ⟨-, -, hpending⟩ | ⟨hfail, -⟩
      · exact hpending
      · exact absurd hok hfail
    refine h.moveOne hmove (.calm (.inl rfl) hpending) (fun _ _ _ => Iff.rfl) (fun _ => .inl hpending) ?_
    exact h.counted.returned howner hpc rfl
  | failed hfail hmine hret hmove =>
    refine h.moveOne hmove (.leaving _ rfl hret hsusp hfresh) (fun _ _ _ => Iff.rfl)
      (fun _ => .inr rfl) ?_
    refine h.counted.reseat fun id' howner => ?_
    have hne : id ≠ id' := by
      rintro rfl
      exact hmine howner
    simp [seat, hpc, Pc.entering, hne]

/-- The events that concern no mutex: threads are started, and time goes on. -/
theorem Excluded.background (h : Excluded k tally) (hstep : Background k k') : Excluded k' tally := by
  cases hstep with
  | unseen tick hqueue hwaits =>
    refine h.move ⟨hqueue, ?_, seat_congr hwaits rfl rfl rfl, rfl⟩ h.place (fun _ _ _ hsome => hsome)
      h.counted
    intro id u hu
    exact .inl (hwaits ▸ hu)
  | start hqueue hfresh hwaits =>
    rename_i s t
    have hmove : MutexMove k { k with toSched := s } (update k.seat t
        { k.seat t with fresh := false, suspended := !k.waits.canStop t }) k.holds := by
      refine ⟨hqueue, fun id u hu => .inl ?_, ?_, rfl⟩
      · rwa [hwaits] at hu
      · exact eq_update_iff.mpr ⟨by simp [seat, hwaits, start],
          fun u hut => by simp [seat, hwaits, start, hut]⟩
    refine h.moveOne hmove ?_ (fun _ _ _ => Iff.rfl) (fun _ => .inr rfl) (h.counted.reseat fun _ _ => rfl)
    obtain ⟨hpc, hpending⟩ := (h.place t).of_fresh hfresh
    exact .calm hpc hpending
  | due hqueue hactive hfiring hwaits =>
    rename_i s t
    have hmove : MutexMove k { k with toSched := s } k.seat k.holds := by
      refine ⟨hqueue, fun id u hu => .inl ?_, ?_, rfl⟩
      · rwa [hwaits] at hu
      · funext u
        simp [seat, hwaits, timerDue]
    exact h.move hmove h.place (fun _ _ _ hsome => hsome) h.counted
  | expire hqueue hfiring hsusp hwaits =>
    rename_i s t
    have hmove : MutexMove k { k with toSched := s, error := update k.error t (-rtEtimeout) }
        (update k.seat t ⟨false, false, k.pc t, -rtEtimeout, k.pendingObject t⟩) k.holds := by
      refine ⟨hqueue, fun id u hu => .inl ?_, ?_, rfl⟩
      · rw [hwaits] at hu
        exact (List.mem_filter.mp hu).1
      · refine eq_update_iff.mpr ⟨?_, fun u hut => ?_⟩
        · simp [seat, hwaits, wake, setSuspended]
        · simp [seat, hwaits, wake, setSuspended, unlink, timerFired, hut]
    refine h.moveOne hmove ((h.place t).timeout hsusp) (fun _ _ _ => Iff.rfl) (fun _ => .inr rfl)
      (h.counted.reseat fun _ _ => rfl)

/-! ## Runs -/

/-- The take that an event can complete, at once or after the suspension of the thread. -/
def takeOf (k : State T) : KernelEvent T → Option (T × ℕ)
  | .call (.mutexTake id _) => k.caller.map fun t => (t, id)
  | .proceed => k.runner.bind fun t =>
    match k.pc t with
    | .mutexWoken id => some (t, id)
    | .mutexClear _ => (k.pendingObject t).map fun id => (t, id)
    | _ => none
  | _ => none

/-- The release that an event makes. -/
def releaseOf (k : State T) : KernelEvent T → Option (T × ℕ)
  | .call (.mutexRelease id) => k.caller.map fun t => (t, id)
  | _ => none

/-- The takes of each thread that have returned `RT_EOK`, less its releases that have not failed. -/
def countTakes (k : State T) (e : KernelEvent T) (ret : Option ℤ) (tally : T → ℕ → ℕ) : T → ℕ → ℕ :=
  match k.takeOf e, k.releaseOf e with
  | some (t, id), _ => if ret = some rtEok then setTally tally t id (tally t id + 1) else tally
  | none, some (t, id) =>
    if ret = some (-rtError) then tally else setTally tally t id (tally t id - 1)
  | none, none => tally

/-- The runs of the mutex functions, with the number of takes of each thread that are not released. -/
def takeSystem (T : Type*) [DecidableEq T] :
    TransitionSystem (State T × (T → ℕ → ℕ)) (KernelEvent T) where
  init s := s.1.Booted ∧ s.2 = fun _ _ => 0
  step s e s' := (mutexEvent e || backgroundEvent e) = true ∧
    ∃ fuel ret, exec fuel s.1 e = some (s'.1, ret) ∧ s'.2 = s.1.countTakes e ret s.2

omit [DecidableEq T] in
/-- The invariant at start-up. -/
theorem Booted.excluded (h : k.Booted) : Excluded k fun _ _ => 0 := by
  obtain ⟨priorityMax, priority, tick, -, -, hsched⟩ := h.sched
  refine ⟨h.placed.queue, fun t => .calm (.inl (h.pc t)) (h.pendingObject t), ?_, ?_, fun _ _ _ => rfl⟩
  · intro id u hu
    rw [hsched] at hu
    cases hu
  · intro id t howner
    change (k.mutex id).owner = some t at howner
    rw [h.mutex] at howner
    cases howner

/-- The running thread goes on inside `rt_mutex_take`, after its suspension. -/
theorem Excluded.proceed_atTake (h : Excluded k tally)
    (hrunner : k.runner = some t) (hat : AtTake id (k.seat t)) (hnot : (k.seat t).suspended = false)
    (heq : State.proceed fuel k t = some (k', ret)) : Excluded k' (k.countTakes .proceed ret tally) := by
  unfold State.proceed at heq
  rcases hat.2 with hpc | hpc
  · have hthread : k.pc t = .mutexResched id := hpc
    rw [hthread] at heq
    cases heq
    have hmove := ((MutexMove.refl h.queue).setPc t (.mutexWoken id)).unseen h.queue.rtSchedule
      h.queue.waits_rtSchedule
    have htally : k.countTakes .proceed none tally = tally := by
      simp [countTakes, takeOf, releaseOf, hrunner, hthread]
    rw [htally]
    refine h.moveOne hmove ((h.place t).advance hpc) (fun _ _ _ => Iff.rfl) (fun _ => .inr rfl) ?_
    exact h.counted.reseat fun _ _ => by simp [hpc, Pc.entering]
  · have hthread : k.pc t = .mutexWoken id := hpc
    rw [hthread] at heq
    have htally : k.countTakes .proceed ret tally =
        if ret = some rtEok then setTally tally t id (tally t id + 1) else tally := by
      simp [countTakes, takeOf, hrunner, hthread]
    rw [htally]
    exact h.woken hnot hthread (mutexTakeWoken_wokenStep h.queue heq)

/-- The running thread goes on inside a mutex function. -/
theorem Excluded.proceed (h : Excluded k tally)
    (hrunner : k.runner = some t) (heq : State.proceed fuel k t = some (k', ret)) :
    Excluded k' (k.countTakes .proceed ret tally) := by
  have hnot : (k.seat t).suspended = false := (view_of_running (runner_eq hrunner).2).1
  cases h.place t with
  | calm hpc hpending =>
    unfold State.proceed at heq
    obtain hpc | ⟨r, hpc⟩ := hpc
    · change k.pc t = _ at hpc
      rw [hpc] at heq
      cases heq
    · change k.pc t = _ at hpc
      rw [hpc] at heq
      cases heq
      have hmove := ((MutexMove.refl h.queue).setPc t .idle).unseen h.queue.rtSchedule
        h.queue.waits_rtSchedule
      have htally : k.countTakes .proceed (some r) tally = tally := by
        simp [countTakes, takeOf, releaseOf, hrunner, hpc]
      rw [htally]
      exact h.moveOne hmove (.calm (.inl rfl) hpending) (fun _ _ _ => Iff.rfl)
        (fun _ => .inl hpending) (h.counted.reseat fun _ _ => by simp [seat, hpc, Pc.entering])
  | waiting id hat hsusp =>
    rw [hnot] at hsusp
    cases hsusp
  | granted id hat | failed id hat => exact h.proceed_atTake hrunner hat hnot heq
  | leaving r hpc hr =>
    unfold State.proceed at heq
    change k.pc t = _ at hpc
    rw [hpc] at heq
    cases heq
    have hmove := ((MutexMove.refl h.queue).clearPending hnot).setPc t .idle
    rw [update_self, update_idem] at hmove
    have htally : k.countTakes .proceed (some r) tally = tally := by
      cases hpending : k.pendingObject t <;>
        simp [countTakes, takeOf, releaseOf, hrunner, hpc, hpending, hr]
    rw [htally]
    refine h.moveOne hmove (.calm (.inl rfl) rfl) (fun _ _ _ => Iff.rfl) ?_
      (h.counted.reseat fun _ _ => by simp [seat, hpc, Pc.entering])
    intro hsusp
    rw [hnot] at hsusp
    cases hsusp

/-- One event of a run of the mutex functions. -/
theorem Excluded.exec {e : KernelEvent T} (h : Excluded k tally)
    (hevent : (mutexEvent e || backgroundEvent e) = true) (heq : exec fuel k e = some (k', ret)) :
    Excluded k' (k.countTakes e ret tally) := by
  by_cases hback : backgroundEvent e = true
  · have htally : k.countTakes e ret tally = tally := by
      cases e with
      | call c => cases c <;> first | rfl | cases hback
      | proceed => cases hback
      | _ => rfl
    rw [htally]
    exact h.background (exec_background h.queue hback heq)
  cases e with
  | call c =>
    obtain ⟨t, hcaller, hcall⟩ := exec_call heq
    have hrunner := runner_of_caller hcaller
    obtain ⟨hcur, hrunning, hidle⟩ := caller_eq hcaller
    cases c with
    | mutexTake id timeout =>
      have hstep := h.take hidle (rtMutexTake_takeStep h.queue hrunner hcall)
      simpa [countTakes, takeOf, hcaller] using hstep
    | mutexRelease id =>
      have hnot := (view_of_running hrunning).1
      have hstep := h.release hidle (rtMutexRelease_releaseStep h.queue hcur hnot hcall)
      simpa [countTakes, takeOf, releaseOf, hcaller] using hstep
    | mutexSetprioceiling id priority =>
      have hmove := rtMutexSetprioceiling_mutexMove h.queue hcall
      exact h.move hmove h.place (fun _ _ _ hsome => hsome) h.counted
    | _ => simp [mutexEvent, hback] at hevent
  | proceed =>
    obtain ⟨t, hrunner, hgo⟩ := exec_proceed heq
    exact h.proceed hrunner hgo
  | _ => simp [mutexEvent, hback] at hevent

/-- What mutual exclusion means in a state: for the counts in it, and for the calls made from it. -/
structure MutualExclusion (k : State T) (tally : T → ℕ → ℕ) : Prop where
  /-- At most one thread is between a take that returned `RT_EOK` and its last release. -/
  single : ∀ id t u, 0 < tally t id → 0 < tally u id → t = u
  /-- That thread is the owner. -/
  owned : ∀ id t, 0 < tally t id → (k.mutex id).owner = some t
  /-- `hold` counts the takes of the owner that are not released; a thread that has become the owner
  while it was suspended has one more, from which it has not returned yet. -/
  hold : ∀ id t, (k.mutex id).owner = some t →
    (k.mutex id).hold = tally t id + (k.pc t).entering id
  /-- A take returns `RT_EOK` only when the caller is the owner. -/
  take : ∀ fuel e k' t id, k.takeOf e = some (t, id) → exec fuel k e = some (k', some rtEok) →
    (k'.mutex id).owner = some t
  /-- A release by another thread fails, and changes nothing but the error code of the caller. -/
  release : ∀ fuel id t k' ret, k.caller = some t → (k.mutex id).owner ≠ some t →
    exec fuel k (.call (.mutexRelease id)) = some (k', ret) → ret = some (-rtError) ∧
    k'.mutex = k.mutex ∧ k'.takenObjectList = k.takenObjectList ∧
    k'.pendingObject = k.pendingObject ∧ k'.waits = k.waits ∧ k'.pc = k.pc ∧
    k'.error = update k.error t (-rtError)
  /-- The assertions of `_rt_mutex_take` hold when a thread goes on after its suspension. -/
  assertions : ∀ t id, k.runner = some t → k.pc t = .mutexWoken id →
    (k.error t = rtEok ↔ (k.mutex id).owner = some t)

/-- A take that returns `RT_EOK` has made the caller the owner. -/
theorem Excluded.take_owner {e : KernelEvent T} (h : Excluded k tally)
    (htake : k.takeOf e = some (t, id)) (heq : State.exec fuel k e = some (k', some rtEok)) :
    (k'.mutex id).owner = some t := by
  change k'.holds.owner id = some t
  cases e with
  | call c =>
    obtain ⟨u, hcaller, hcall⟩ := exec_call heq
    cases c with
    | mutexTake id' timeout =>
      obtain ⟨rfl, rfl⟩ : u = t ∧ id' = id := by simpa [takeOf, hcaller] using htake
      cases rtMutexTake_takeStep h.queue (runner_of_caller hcaller) hcall with
      | again howner hmove =>
        rw [hmove.holds]
        exact howner
      | own _ hmove =>
        rw [hmove.holds]
        exact update_self ..
      | refused hret _ => exact absurd rfl hret
    | _ => cases htake
  | proceed =>
    obtain ⟨u, hrunner, hgo⟩ := exec_proceed heq
    have hplace := h.place u
    simp only [takeOf, hrunner, bind_some] at htake
    unfold State.proceed at hgo
    split at htake
    next id' hpc =>
      cases htake
      rw [hpc] at hgo
      cases mutexTakeWoken_wokenStep h.queue hgo with
      | granted _ howner hmove =>
        rw [hmove.holds]
        exact howner
    next r hpc =>
      rw [hpc] at hgo
      obtain rfl : r = rtEok := some.inj (Prod.mk.inj (some.inj hgo)).2
      exact absurd rfl (hplace.of_leaving hpc)
    · cases htake
  | _ => cases htake

/-- A release by a thread that is not the owner. -/
theorem Excluded.release_other (h : Excluded k tally)
    (hcaller : k.caller = some t) (hother : (k.mutex id).owner ≠ some t)
    (heq : State.exec fuel k (.call (.mutexRelease id)) = some (k', ret)) :
    ret = some (-rtError) ∧ k'.mutex = k.mutex ∧ k'.takenObjectList = k.takenObjectList ∧
    k'.pendingObject = k.pendingObject ∧ k'.waits = k.waits ∧ k'.pc = k.pc ∧
    k'.error = update k.error t (-rtError) := by
  obtain ⟨u, hcaller', hcall⟩ := exec_call heq
  obtain ⟨hcur, hrunning, -⟩ := caller_eq hcaller
  have hnot := (view_of_running hrunning).1
  cases rtMutexRelease_releaseStep h.queue hcur hnot hcall with
  | refused _ hwaits hmutex hmove =>
    have hfields : ∀ u, k'.pendingObject u = k.pendingObject u ∧ k'.pc u = k.pc u ∧
        k'.error u = update k.error t (-rtError) u := by
      intro u
      have hu := congrFun hmove.seat u
      by_cases hut : u = t <;> simp_all [seat]
    exact ⟨rfl, hmutex, congrArg Holds.taken hmove.holds, funext fun u => (hfields u).1, hwaits,
      funext fun u => (hfields u).2.1, funext fun u => (hfields u).2.2⟩
  | drop howner | free howner | hand howner => exact absurd howner hother

/-- Mutual exclusion, in every state of a run with any takes, releases and timeouts. -/
theorem mutual_exclusion (h : (takeSystem T).Reachable (k, tally)) : MutualExclusion k tally := by
  have hinv : Excluded k tally := by
    refine h.invariant (I := fun s => Excluded s.1 s.2) ?_ ?_
    · rintro ⟨k, tally⟩ ⟨hboot, rfl⟩
      exact hboot.excluded
    · rintro ⟨k, tally⟩ e ⟨k', tally'⟩ hk ⟨hevent, fuel, ret, heq, htally⟩
      obtain rfl : tally' = k.countTakes e ret tally := htally
      exact hk.exec hevent heq
  have howned : ∀ id t, 0 < tally t id → (k.mutex id).owner = some t := by
    intro id t hpos
    by_contra hother
    exact absurd (hinv.counted.other id t hother) (Nat.pos_iff_ne_zero.mp hpos)
  refine ⟨?_, howned, fun id t howner => (hinv.counted.owned id t howner).1,
    fun fuel e k' t id htake heq => hinv.take_owner htake heq,
    fun fuel id t k' ret hcaller hother heq => hinv.release_other hcaller hother heq, ?_⟩
  · intro id t u ht hu
    exact some.inj ((howned id t ht).symm.trans (howned id u hu))
  · intro t id hrunner hpc
    have hnot := (view_of_running (runner_eq hrunner).2).1
    obtain ⟨-, ⟨hok, howner, -⟩ | ⟨hfail, hother⟩⟩ := (hinv.place t).of_woken hnot hpc
    · exact ⟨fun _ => howner, fun _ => hok⟩
    · exact ⟨fun hok => absurd hok hfail, fun howner => absurd howner hother⟩

/-- An event with the number of takes, as a function to the next state. -/
def takeNext (s : State T × (T → ℕ → ℕ)) (e : KernelEvent T) : Option (State T × (T → ℕ → ℕ)) :=
  if (mutexEvent e || backgroundEvent e) = true then
    (exec 5 s.1 e).map fun r => (r.1, s.1.countTakes e r.2 s.2)
  else none

/-- Thread 0 has taken a mutex twice, and threads 1 and 2 wait for it. The timer of thread 2 is due when
the mutex is released, so the mutex goes to thread 1. -/
theorem mutual_exclusion_skip : ∃ s : State (Fin 3) × (Fin 3 → ℕ → ℕ),
    (takeSystem (Fin 3)).Reachable s ∧ (s.1.mutex 0).owner = some 1 ∧ (s.1.mutex 0).hold = 1 ∧
    s.1.pc 1 = .mutexResched 0 ∧ s.1.isSuspended 2 = true ∧ MutualExclusion s.1 s.2 := by
  obtain ⟨s, hreach, howner, hhold, hpc, hsusp⟩ := TransitionSystem.Reachable.exists_run
    (M := takeSystem (Fin 3)) (P := fun s => (s.1.mutex 0).owner = some 1 ∧ (s.1.mutex 0).hold = 1 ∧
      s.1.pc 1 = .mutexResched 0 ∧ s.1.isSuspended 2 = true) takeNext
    [.isr (.startup 0), .schedulerStart, .call (.mutexTake 0 0), .call (.mutexTake 0 0),
      .call (.startup 1), .call (.mutexTake 0 (-1)), .call (.startup 2), .call (.mutexTake 0 7),
      .timerDue 2, .call (.mutexRelease 0), .call (.mutexRelease 0)]
    (.init (s := (boot 32 ![20, 10, 5] fun _ => 10, fun _ _ => 0))
      ⟨booted_boot, rfl⟩) (fun s s' _ e _ hstep => by
        obtain ⟨hevent, hstep⟩ := ite_none_right_eq_some.mp hstep
        obtain ⟨⟨k', ret⟩, heq, rfl⟩ := map_eq_some_iff.mp hstep
        exact ⟨hevent, 5, ret, heq, rfl⟩)
  exact ⟨s, hreach, howner, hhold, hpc, hsusp, mutual_exclusion hreach⟩

end State

end RtThread.Kernel
