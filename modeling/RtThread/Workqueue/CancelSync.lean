import RtThread.Workqueue.Progress

/-!
# Synchronous cancel

`rt_workqueue_cancel_work_sync` reads `work_current` and, when it is the item, waits for the
completion semaphore. After a work function the worker releases the semaphore until nobody waits, and
takes back the last release. A thread that waits while the worker executes or completes is woken by
that loop; one that comes after it, with an old read, waits for the completion of some later work.
-/

namespace RtThread.Workqueue

open Lib TransitionSystem Function List
open State (created)

variable {W T : Type*} [DecidableEq W]

/-- The worker executes an item, or is in the completion loop after it. -/
def Busy (s : State W T) : Prop :=
  s.worker = .running ∨ s.worker = .completing ∨ s.worker = .releasing

/-- A synchronous cancel that saw its item executing takes the semaphore while the worker is busy;
one that did not cancels the item while it is not executing. -/
def ActsInTime (s : State W T) (e : Event W T) : Prop :=
  ∀ t w, e = .proceed t → (s.caller t = .checked w true → Busy s) ∧
    (s.caller t = .checked w false → s.workCurrent ≠ some w)

/-- A thread in a synchronous cancel is scheduled unless it waits. -/
def CallersFair [DecidableEq T] (r : (system W T).Run) : Prop :=
  ∀ n t w current, (r.state n).caller t = .checked w current → ∃ m, n ≤ m ∧ r.event m = .proceed t

/-- What holds of the completion semaphore: it has a value only in the completion loop and only while
nobody waits, and those in its list are the threads that wait. -/
structure Signals (s : State W T) : Prop where
  small : s.sem ≤ 1
  completing : s.sem ≠ 0 → s.worker = .completing
  unawaited : s.sem ≠ 0 → s.waiters = []
  waiting : ∀ t ∈ s.waiters, s.caller t = .waiting
  nodup : s.waiters.Nodup

/-- The steps of the worker until it wakes a thread that waits. -/
def wakeRank [DecidableEq T] (s : State W T) (t : T) : ℕ :=
  2 * s.waiters.idxOf t +
    match s.worker with
    | .running => 2
    | .completing => 1
    | _ => 0

section Steps

variable [DecidableEq T] {s s' : State W T} {e : Event W T}
variable {t : T} {w : W}

omit [DecidableEq W] [DecidableEq T] in
/-- A busy worker is not suspended. -/
theorem Busy.awake (h : Busy s) : s.worker ≠ .suspended := by
  obtain h | h | h := h <;> simp [h]

/-- Every step keeps the conditions on the semaphore. -/
theorem Signals.step (h : Signals s) (hstep : Step s e s') : Signals s' := by
  have hmove : ∀ v x p, Signals (s.relink v x p) := by
    intro v x p
    refine ⟨by simpa using h.small, fun hsem => ?_, by simpa using h.unawaited,
      by simpa using h.waiting, by simpa using h.nodup⟩
    have hcompleting := h.completing (by simpa using hsem)
    rw [worker_relink (by simp [hcompleting]), hcompleting]
  -- outside the completion loop the value is zero
  have hzero : s.worker ≠ .completing → s.sem = 0 := fun hne => by
    by_contra hsem
    exact hne (h.completing hsem)
  cases hstep with
  | submitNow | submitDelayed | urgent | cancel | handle | drop => exact hmove _ _ _
  | cancelled t w hcaller =>
    have hmoved := hmove w (s.cancelledItem w) .unlinked
    refine { hmoved with waiting := fun u hu => ?_ }
    have hwaiting := h.waiting u hu
    have hne : u ≠ t := fun hut => by simp [hut, hcaller] at hwaiting
    simpa [hne] using hwaiting
  | sleep hworker | take _ _ hworker | finish hworker =>
    have hsem := hzero (by simp [hworker])
    exact { h with completing := fun hne => absurd hsem hne }
  | trytakeFailed _ hsem => exact { h with completing := fun hne => absurd hsem hne }
  | trytaken =>
    have hsem : s.sem - 1 = 0 := Nat.sub_eq_zero_of_le h.small
    exact ⟨by simp [hsem], fun hne => absurd hsem hne, fun hne => absurd hsem hne, h.waiting, h.nodup⟩
  | release hworker hwaiters =>
    have hsem := hzero (by simp [hworker])
    exact ⟨by simp [hsem], fun _ => rfl, fun _ => hwaiters, h.waiting, h.nodup⟩
  | wake t rest hworker hwaiters =>
    have hsem := hzero (by simp [hworker])
    have hnodup := h.nodup
    rw [hwaiters, nodup_cons] at hnodup
    refine ⟨h.small, fun hne => absurd hsem hne, fun hne => absurd hsem hne, fun u hu => ?_, hnodup.2⟩
    have hne : u ≠ t := fun hut => hnodup.1 (hut ▸ hu)
    simpa [hne] using h.waiting u (by simp [hwaiters, hu])
  | look t w hcaller =>
    refine { h with waiting := fun u hu => ?_ }
    have hwaiting := h.waiting u hu
    have hne : u ≠ t := fun hut => by simp [hut, hcaller] at hwaiting
    simpa [hne] using hwaiting
  | taken t w hcaller hsem =>
    refine ⟨Nat.le_trans (Nat.sub_le _ _) h.small, fun _ => h.completing (by omega),
      fun _ => h.unawaited (by omega), fun u hu => ?_, h.nodup⟩
    simp [h.unawaited (by omega)] at hu
  | wait t w hcaller hsem =>
    have hnew : t ∉ s.waiters := fun ht => by simp [h.waiting t ht] at hcaller
    refine ⟨h.small, fun hne => absurd hsem hne, fun hne => absurd hsem hne, fun u hu => ?_, ?_⟩
    · by_cases hut : u = t
      · simp [hut]
      · simpa [hut] using h.waiting u (by simpa [hut] using hu)
    · exact nodup_append.mpr ⟨h.nodup, by simp, fun u hu v hv huv => hnew (by
        rwa [← mem_singleton.mp hv, ← huv])⟩
  | _ => exact { h with }

/-- A thread that has read `work_current` keeps what it saw until it goes on. -/
theorem checked_step (h : Signals s) {current : Bool}
    (hcaller : s.caller t = .checked w current) (hne : e ≠ .proceed t) (hstep : Step s e s') :
    s'.caller t = .checked w current := by
  have hothers : ∀ u x, u ≠ t → Function.update s.caller u x t = .checked w current := by
    intro u x hut
    rw [update_of_ne hut.symm, hcaller]
  cases hstep with
  | submitNow | submitDelayed | urgent | cancel | handle | drop => exact hcaller
  | wake u rest _ hwaiters =>
    refine hothers u _ fun hut => ?_
    have hwaiting := h.waiting u (by simp [hwaiters])
    simp [hut, hcaller] at hwaiting
  | look u v hidle =>
    refine hothers u _ fun hut => ?_
    simp [hut, hcaller] at hidle
  | taken u | wait u | cancelled u => exact hothers u _ fun hut => hne (by rw [hut])
  | _ => exact hcaller

/-- A thread that waits for a busy worker comes closer to its wake-up by every step of the worker, and
no other step delays it. -/
theorem wakeRank_step (h : Signals s) (ht : t ∈ s.waiters) (hbusy : Busy s)
    (hstep : Step s e s') : s.worker = .releasing ∧ s'.caller t = .idle ∨
      t ∈ s'.waiters ∧ Busy s' ∧ wakeRank s' t ≤ wakeRank s t ∧
        (e = .worker → wakeRank s' t < wakeRank s t) := by
  have hzero : s.sem = 0 := by
    by_contra hsem
    simp [h.unawaited hsem] at ht
  have hmove : ∀ v x p, t ∈ (s.relink v x p).waiters ∧ Busy (s.relink v x p) ∧
      wakeRank (s.relink v x p) t ≤ wakeRank s t := by
    intro v x p
    exact ⟨by simpa using ht, by simpa [Busy, worker_relink hbusy.awake] using hbusy,
      by simp [wakeRank, worker_relink hbusy.awake]⟩
  cases hstep with
  | submitNow | submitDelayed | urgent | cancel | handle | drop =>
    obtain ⟨hmem, hbusy, hle⟩ := hmove _ _ _
    exact .inr ⟨hmem, hbusy, hle, by simp⟩
  | cancelled u v =>
    obtain ⟨hmem, hbusy, hle⟩ := hmove v (s.cancelledItem v) .unlinked
    exact .inr ⟨hmem, hbusy, hle, by simp⟩
  | sleep hworker | take _ _ hworker => simp [Busy, hworker] at hbusy
  | finish hworker =>
    exact .inr ⟨ht, .inr (.inl rfl), by simp [wakeRank, hworker], by simp [wakeRank, hworker]⟩
  | trytakeFailed hworker =>
    exact .inr ⟨ht, .inr (.inr rfl), by simp [wakeRank], by simp [wakeRank, hworker]⟩
  | trytaken _ hsem => exact absurd hzero hsem
  | release _ hwaiters => simp [hwaiters] at ht
  | wake u rest hworker hwaiters =>
    by_cases hut : u = t
    · exact .inl ⟨hworker, by simp [hut]⟩
    · have hrest : t ∈ rest := by simpa [hwaiters, Ne.symm hut] using ht
      have hidx : s.waiters.idxOf t = rest.idxOf t + 1 := by rw [hwaiters, idxOf_cons_ne _ hut]
      refine .inr ⟨hrest, .inr (.inl rfl), ?_, fun _ => ?_⟩ <;>
        simp only [wakeRank, hidx] <;> omega
  | taken u v _ hsem => omega
  | wait u =>
    refine .inr ⟨by simp [ht], hbusy, ?_, by simp⟩
    simp [wakeRank, idxOf_append_of_mem ht]
  | _ => exact .inr ⟨ht, hbusy, le_refl _, by simp⟩

/-- A synchronous cancel starts with the read of `work_current`. -/
theorem cancelSync_step (hstep : Step s (.cancelSync t w) s') :
    ∃ current, s'.caller t = .checked w current := by
  cases hstep
  exact ⟨_, update_self _ _ _⟩

/-- After the read a synchronous cancel returns, or waits for the semaphore. -/
theorem proceed_step {current : Bool} (hcaller : s.caller t = .checked w current)
    (hstep : Step s (.proceed t) s') : s'.caller t = .idle ∧ (s.sem ≠ 0 ∨ current = false) ∨
      current = true ∧ t ∈ s'.waiters ∧ s'.worker = s.worker := by
  cases hstep with
  | taken _ v _ hsem => exact .inl ⟨update_self _ _ _, .inl (by omega)⟩
  | wait _ v hsaw =>
    obtain ⟨-, rfl⟩ : w = v ∧ current = true := by simpa [hcaller] using hsaw
    exact .inr ⟨rfl, by simp, rfl⟩
  | cancelled _ v hsaw =>
    obtain ⟨-, rfl⟩ : w = v ∧ current = false := by simpa [hcaller] using hsaw
    exact .inl ⟨update_self _ _ _, .inr rfl⟩

end Steps

section Runs

variable [DecidableEq T]

/-- The conditions on the semaphore hold in every reachable state. -/
theorem signals_of_reachable {s : State W T} (h : (system W T).Reachable s) : Signals s := by
  refine h.invariant ?_ fun s e s' hs hstep => hs.step (Step.of_next hstep)
  rintro _ rfl
  exact ⟨by simp [created], by simp [created], by simp [created], by simp [created], by simp [created]⟩

variable {r : (system W T).Run} {t : T} {w : W} {n : ℕ}

/-- A thread that has read `work_current` goes on, with what it saw. -/
theorem checked_proceeds (hcallers : CallersFair r) {current : Bool}
    (hcaller : (r.state n).caller t = .checked w current) : ∃ m, n ≤ m ∧ r.event m = .proceed t ∧
      ∀ k, n ≤ k → k ≤ m → (r.state k).caller t = .checked w current := by
  obtain ⟨m, hm, hevent⟩ := hcallers n t w current hcaller
  have hkeep : ∀ k, (∀ j, n ≤ j → j ≤ k → (r.state j).caller t = .checked w current) →
      (n ≤ k → r.event k = .proceed t ∧ ∀ j, n ≤ j → j ≤ k → (r.state j).caller t = .checked w current) ∨
        ∀ j, n ≤ j → j ≤ k + 1 → (r.state j).caller t = .checked w current := by
    intro k hsame
    by_cases hproceed : r.event k = .proceed t
    · exact .inl fun _ => ⟨hproceed, hsame⟩
    · refine .inr fun j hnj hj => ?_
      obtain hj | rfl := Nat.le_or_eq_of_le_succ hj
      · exact hsame j hnj hj
      · by_cases hnk : n ≤ k
        · exact checked_step (signals_of_reachable (r.reachable k)) (hsame k hnk (le_refl k)) hproceed
            (Step.of_next (r.step k))
        · obtain rfl : n = k + 1 := by omega
          exact hcaller
  obtain ⟨k, hk, hlt, hgoal⟩ | hlate := eventually_or_keeps hkeep
    (fun j hnj hj => by rwa [Nat.le_antisymm hj hnj]) hm
  · exact ⟨k, hk, (hgoal hk).1, (hgoal hk).2⟩
  · exact ⟨m, hm, hevent, hlate⟩

/-- A thread that waits for a busy worker is woken by its completion loop. -/
theorem waiter_wakes (hfair : Fair r) (ht : t ∈ (r.state n).waiters) (hbusy : Busy (r.state n)) :
    ∃ m, n ≤ m ∧ (r.state m).worker = .releasing ∧ (r.state (m + 1)).caller t = .idle ∧
      ∀ k, n ≤ k → k ≤ m → (r.state k).caller t = .waiting := by
  have hsignals : ∀ k, Signals (r.state k) := fun k => signals_of_reachable (r.reachable k)
  have hcloser : ∀ k, t ∈ (r.state k).waiters → Busy (r.state k) → _ := fun k ht hbusy =>
    wakeRank_step (hsignals k) ht hbusy (Step.of_next (r.step k))
  refine eventually_of_rank (P := fun k => t ∈ (r.state k).waiters ∧ Busy (r.state k) ∧
      ∀ j, n ≤ j → j ≤ k → (r.state j).caller t = .waiting)
    (fun k => wakeRank (r.state k) t) ?_ ?_ ⟨ht, hbusy, fun j hnj hj => ?_⟩
  · rintro k ⟨ht, hbusy, hsame⟩
    obtain ⟨hreleasing, hidle⟩ | ⟨hmem, hbusy', hle, -⟩ := hcloser k ht hbusy
    · exact .inl ⟨hreleasing, hidle, hsame⟩
    · refine .inr ⟨⟨hmem, hbusy', fun j hnj hj => ?_⟩, hle⟩
      obtain hj | rfl := Nat.le_or_eq_of_le_succ hj
      · exact hsame j hnj hj
      · exact (hsignals (k + 1)).waiting t hmem
  · rintro k ⟨-, hbusy, -⟩
    obtain ⟨m, hm, hevent⟩ := hfair.worker k hbusy.awake
    refine ⟨m, hm, fun ⟨ht, hbusy, hsame⟩ => ?_⟩
    obtain ⟨hreleasing, hidle⟩ | ⟨-, -, -, hlt⟩ := hcloser m ht hbusy
    · exact .inl ⟨hreleasing, hidle, hsame⟩
    · exact .inr (hlt hevent)
  · obtain rfl := Nat.le_antisymm hj hnj
    exact (hsignals j).waiting t ht

/-- Every synchronous cancel returns. On a fair run on which each of them acts in time, a call is
followed by its return, and when it returns its item is not executing. -/
theorem cancelSync_returns (hfair : Fair r) (hcallers : CallersFair r)
    (hintime : ∀ n, ActsInTime (r.state n) (r.event n)) (hcall : r.event n = .cancelSync t w) :
    ∃ m, n < m ∧ (∀ k, n < k → k ≤ m → (r.state k).caller t ≠ .idle) ∧
      (r.state (m + 1)).caller t = .idle ∧ (r.state m).workCurrent ≠ some w := by
  have hattended : ∀ k, Attended (r.state k) := fun k => attended_of_reachable (r.reachable k)
  have hstep : ∀ k, Step (r.state k) (r.event k) (r.state (k + 1)) := fun k => Step.of_next (r.step k)
  obtain ⟨current, hchecked⟩ := cancelSync_step (hcall ▸ hstep n)
  obtain ⟨m, hm, hevent, hsame⟩ := checked_proceeds hcallers hchecked
  have hcaller := hsame m hm (le_refl m)
  have hintime := hintime m t w hevent
  have hinside : ∀ k, n < k → k ≤ m → (r.state k).caller t ≠ .idle := fun k hk hkm => by
    simp [hsame k hk hkm]
  obtain ⟨hidle, hsem | rfl⟩ | ⟨rfl, hmem, hworker⟩ := proceed_step hcaller (hevent ▸ hstep m)
  · -- the semaphore has a value in the completion loop only
    have hcompleting := (signals_of_reachable (r.reachable m)).completing hsem
    exact ⟨m, hm, hinside, hidle, by simp [(hattended m).current (by simp [hcompleting])]⟩
  · exact ⟨m, hm, hinside, hidle, hintime.2 hcaller⟩
  · have hbusy : Busy (r.state (m + 1)) := by
      simpa [Busy, hworker] using hintime.1 hcaller
    obtain ⟨k, hk, hreleasing, hidle, hwaiting⟩ := waiter_wakes hfair hmem hbusy
    refine ⟨k, by omega, fun j hj hjk => ?_, hidle, ?_⟩
    · by_cases hjm : j ≤ m
      · exact hinside j hj hjm
      · simp [hwaiting j (by omega) hjk]
    · simp [(hattended k).current (by simp [hreleasing])]

/-- Callers go on when each that has read `work_current` has its next event. -/
theorem callersFair_runThrough {events : List (Event Unit Unit)} {s' : State Unit Unit}
    (hrun : runEvents next created events = some s')
    (hend : s'.caller () = .idle ∨ s'.caller () = .waiting)
    (hcalls : ∀ n < events.length, (stateAt events n).caller () ≠ .idle →
      (stateAt events n).caller () ≠ .waiting →
        ∃ m < events.length, n ≤ m ∧ events.getD m .other = .proceed ()) :
    CallersFair (runThrough hrun) := by
  intro n t w current hcaller
  by_cases hn : n < events.length
  · have hpath : (stateAt events n).caller () = .checked w current := hcaller
    obtain ⟨m, -, hnm, hevent⟩ := hcalls n hn (by simp [hpath]) (by simp [hpath])
    exact ⟨m, hnm, hevent⟩
  · rw [(runThrough_of_le hrun (by omega)).1] at hcaller
    obtain hend | hend := hend <;> simp [hend] at hcaller

/-- The events of a synchronous cancel that waits for the item that is executing. -/
def waitsInTime : List (Event Unit Unit) :=
  [.submit () 0, .worker, .cancelSync () (), .proceed (), .worker, .worker, .worker, .worker, .worker,
    .worker, .worker]

/-- A call that waits for an executing item, and returns. -/
theorem cancelSync_returns_waited : ∃ r : (system Unit Unit).Run, Fair r ∧ CallersFair r ∧
    r.event 2 = .cancelSync () () ∧ (r.state 2).workCurrent = some () ∧
      ∃ m, 2 < m ∧ (∀ k, 2 < k → k ≤ m → (r.state k).caller () ≠ .idle) ∧
        (r.state (m + 1)).caller () = .idle ∧ (r.state m).workCurrent ≠ some () := by
  obtain ⟨s', hidle, hs', hfair⟩ :=
    fair_runThrough waitsInTime .idle (by decide +kernel) rfl (by decide +kernel)
  have hcallers := callersFair_runThrough hs' (.inl hidle) (by decide +kernel)
  have hexecuting : (stateAt waitsInTime 2).workCurrent = some () := by decide +kernel
  refine ⟨runThrough hs', hfair, hcallers, rfl, hexecuting,
    cancelSync_returns hfair hcallers (fun n t w he => ?_) rfl⟩
  by_cases hn : n < 11
  · have hbusy : ∀ n < 11, waitsInTime.getD n .other = .proceed () →
        (stateAt waitsInTime n).worker = .running ∧
          (stateAt waitsInTime n).caller () = .checked () true := by decide +kernel
    obtain ⟨hworker, hcaller⟩ := hbusy n hn he
    exact ⟨fun _ => .inl hworker, fun hfalse => absurd (hcaller.symm.trans hfalse) (by simp)⟩
  · simp [(runThrough_of_le hs' (Nat.le_of_not_lt hn)).2] at he

/-- The events of a synchronous cancel that is preempted between its read and its wait: the item
completes before it waits. -/
def waitsTooLate : List (Event Unit Unit) :=
  [.submit () 0, .worker, .cancelSync () (), .worker, .worker, .worker, .worker, .proceed (), .worker]

/-- The wake-up is lost: the work function returns, and the call never does. -/
theorem cancelSync_never_returns : ∃ r : (system Unit Unit).Run, Fair r ∧ CallersFair r ∧
    r.event 2 = .cancelSync () () ∧ (r.state 2).workCurrent = some () ∧ (r.state 4).workCurrent = none ∧
        ∀ m, 2 < m → (r.state m).caller () ≠ .idle ∧
          (r.event m = .worker ∨ r.event m = .proceed () ∨ r.event m = .other) := by
  obtain ⟨s', hwaiting, hs', hfair⟩ :=
    fair_runThrough waitsTooLate .waiting (by decide +kernel) rfl (by decide +kernel)
  have hcallers := callersFair_runThrough hs' (.inr hwaiting) (by decide +kernel)
  have hstates : (stateAt waitsTooLate 2).workCurrent = some () ∧
      (stateAt waitsTooLate 4).workCurrent = none := by decide +kernel
  refine ⟨runThrough hs', hfair, hcallers, rfl, hstates.1, hstates.2, fun m hm => ?_⟩
  by_cases hn : m < 9
  · have hfirst : ∀ m < 9, 2 < m → (stateAt waitsTooLate m).caller () ≠ .idle ∧
          (waitsTooLate.getD m .other = .worker ∨ waitsTooLate.getD m .other = .proceed ()) := by
      decide +kernel
    exact ⟨(hfirst m hn hm).1, (hfirst m hn hm).2.imp_right .inl⟩
  · have hlate := runThrough_of_le hs' (Nat.le_of_not_lt hn)
    exact ⟨by simp [hlate.1, hwaiting], .inr (.inr hlate.2)⟩

end Runs

end RtThread.Workqueue
