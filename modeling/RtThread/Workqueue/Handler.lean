import RtThread.Workqueue.Steps

/-!
# The delayed work handler

The timer handler asserts that its item is being submitted to a queue. Of all that clears
`workqueue`, only the worker leaves the timer running, so the assertions hold as long as the worker
takes no item that still has its timer. A delayed item that is also submitted without delay, and
then taken, fails them.
-/

namespace RtThread.Workqueue

open Lib TransitionSystem List State Reachable

variable {W T : Type*} [DecidableEq W]
variable {s : State W T} {x : Work}

/-- The number of times that an item's node is linked in the lists of the queue. -/
def State.links (s : State W T) (w : W) : ℕ := s.workList.count w + s.delayedList.count w

/-- A moved item is linked once at most, and no other is touched. -/
theorem State.links_relink (h : ∀ v, s.links v ≤ 1) (w : W) (x : Work) (p : Place)
    (v : W) : (s.relink w x p).links v ≤ 1 := by
  have hv := h v
  simp only [links] at hv
  by_cases hvw : v = w
  · subst hvw
    cases p <;>
      simp only [links, relink, setWork, rtListRemove, resumeWorker, count_erase_self,
        count_append, count_cons_self, count_nil] <;> omega
  · cases p <;>
      simp [links, relink, setWork, rtListRemove, resumeWorker,
        count_erase_of_ne hvw, Ne.symm hvw] <;> omega

/-- What holds of the items of every queue: one link at most, and `RT_WORK_STATE_SUBMITTING` says
that the timer has been started and its handler has not been through. -/
structure Linked (s : State W T) : Prop where
  links : ∀ w, s.links w ≤ 1
  submitting : ∀ w, (s.work w).submitting = true ↔ (s.work w).timer ≠ .idle

/-- A started timer has its queue. -/
def Submitted (s : State W T) : Prop := ∀ w, (s.work w).timer ≠ .idle → (s.work w).workqueue = true

omit [DecidableEq W] in
/-- The item of a delayed submission is being submitted, to a queue. -/
theorem State.delayedItem_flags (s : State W T) (w : W) :
    (s.delayedItem w).submitting = true ∧ (s.delayedItem w).workqueue = true := by
  cases hflag : (s.work w).submitting <;> simp [delayedItem, hflag]

/-- A cancel that leaves the timer leaves the item. -/
theorem Linked.cancelledItem (h : Linked s) (w : W) :
    (s.cancelledItem w).submitting = false ∧ (s.cancelledItem w).timer = .idle ∨
      s.cancelledItem w = { s.work w with pending := false } := by
  have hsub := h.submitting w
  cases hflag : (s.work w).submitting <;> cases hphase : (s.work w).timer <;>
    simp_all [State.cancelledItem]

/-- A move keeps the links when the written item does. -/
theorem Linked.relink (h : Linked s) (w : W) (p : Place)
    (hx : x.submitting = true ↔ x.timer ≠ .idle) : Linked (s.relink w x p) where
  links := State.links_relink h.links w x p
  submitting v := by
    by_cases hvw : v = w
    · subst hvw
      simpa using hx
    · simpa [hvw] using h.submitting v

/-- A move keeps the queues of the timers when the written item does. -/
theorem Submitted.relink (h : Submitted s) (w : W) (p : Place)
    (hx : x.timer ≠ .idle → x.workqueue = true) : Submitted (s.relink w x p) := by
  intro v
  by_cases hvw : v = w
  · subst hvw
    simpa using hx
  · simpa [hvw] using h v

/-- A write to an item outside the lists. -/
theorem Linked.setWork (h : Linked s) (w : W)
    (hx : x.submitting = true ↔ x.timer ≠ .idle) : Linked (s.setWork w x) where
  links := h.links
  submitting v := by
    by_cases hvw : v = w
    · subst hvw
      simpa [State.setWork] using hx
    · simpa [State.setWork, hvw] using h.submitting v

/-- A write to an item that keeps the queue of its timer. -/
theorem Submitted.setWork (h : Submitted s) (w : W)
    (hx : x.timer ≠ .idle → x.workqueue = true) : Submitted (s.setWork w x) := by
  intro v
  by_cases hvw : v = w
  · subst hvw
    simpa [State.setWork] using hx
  · simpa [State.setWork, hvw] using h v

/-- The cancelled item keeps the flag of its timer. -/
theorem Linked.cancelledItem_submitting (h : Linked s) (w : W) :
    (s.cancelledItem w).submitting = true ↔ (s.cancelledItem w).timer ≠ .idle := by
  obtain ⟨hflag, htimer⟩ | hsame := h.cancelledItem w
  · simp [hflag, htimer]
  · simpa [hsame] using h.submitting w

/-- The cancelled item keeps the queue of its timer. -/
theorem Submitted.cancelledItem (h : Submitted s) (hlinked : Linked s) (w : W) :
    (s.cancelledItem w).timer ≠ .idle → (s.cancelledItem w).workqueue = true := by
  obtain ⟨-, htimer⟩ | hsame := hlinked.cancelledItem w
  · simp [htimer]
  · simpa [hsame] using h w

section Runs

variable [DecidableEq T] {s s' : State W T} {e : Event W T}

/-- The worker takes no item whose `RT_WORK_STATE_SUBMITTING` is set. -/
def TakesFree (s : State W T) (e : Event W T) : Prop :=
  e = .worker → s.worker = .check → ∀ w ∈ s.workList.head?, (s.work w).submitting = false

/-- Every step keeps the links. -/
theorem Linked.step (h : Linked s) (hstep : Step s e s') : Linked s' := by
  cases hstep with
  | submitNow w | urgent w => exact h.relink w _ (h.submitting w)
  | submitDelayed w =>
    exact h.relink w _ (by simp [(s.delayedItem_flags w).1, s.timer_delayedItem w])
  | cancel w => exact h.relink w _ (h.cancelledItem_submitting w)
  | expire w htimer | enter w htimer => exact h.setWork w (by simpa [htimer] using h.submitting w)
  | handle w | drop w => exact h.relink w _ (by simp)
  | take w rest _ hlist =>
    have htaken : Linked { s with workList := rest, workCurrent := some w, worker := .running } :=
      { links := fun v => by
          have hv := h.links v
          simp only [State.links, hlist, count_cons] at hv ⊢
          omega
        submitting := h.submitting }
    exact htaken.setWork w (h.submitting w)
  | cancelled t w =>
    have hmoved := h.relink w .unlinked (h.cancelledItem_submitting w)
    exact ⟨hmoved.links, hmoved.submitting⟩
  | _ => exact ⟨h.links, h.submitting⟩

/-- Every step keeps the queues of the timers, when the worker takes no item with a timer. -/
theorem Submitted.step (h : Submitted s) (hlinked : Linked s) (hok : TakesFree s e)
    (hstep : Step s e s') : Submitted s' := by
  cases hstep with
  | submitNow w => exact h.relink w _ fun _ => rfl
  | submitDelayed w => exact h.relink w _ fun _ => (s.delayedItem_flags w).2
  | urgent w => exact h.relink w _ (h w)
  | cancel w => exact h.relink w _ (h.cancelledItem hlinked w)
  | expire w htimer | enter w htimer => exact h.setWork w fun _ => h w (by simp [htimer])
  | handle w | drop w => exact h.relink w _ (by simp)
  | take w rest hworker hlist =>
    have hfree : (s.work w).submitting = false := hok rfl hworker w (by simp [hlist])
    have hidle : (s.work w).timer = .idle := by
      by_contra hne
      simp [(hlinked.submitting w).mpr hne] at hfree
    refine Submitted.setWork
      h w fun hne => absurd hidle hne
  | cancelled t w => exact h.relink w .unlinked (h.cancelledItem hlinked w)
  | _ => exact h

/-- The links hold in every reachable state. -/
theorem linked_of_reachable (h : (system W T).Reachable s) : Linked s := by
  refine h.invariant ?_ fun s e s' hs hstep => hs.step (Step.of_next hstep)
  rintro _ rfl
  exact ⟨fun w => by simp [State.links, created], fun w => by simp [created, rtWorkInit]⟩

/-- On every run on which the worker takes no item that is still being submitted, the assertions of a
handler hold when it is called, and it leaves its item in one list at most. -/
theorem timeoutHandler_asserts (h : ((system W T).guarded TakesFree).Reachable s) (w : W) :
    ((s.work w).timer = .expired → s.handlerAsserts w = true) ∧
      ((s.work w).timer = .entered → (s.delayedWorkTimeoutHandler w).links w ≤ 1) := by
  have hlinked := linked_of_reachable h.of_guarded
  have hsubmitted : Submitted s := by
    refine (h.invariant (I := fun s => Linked s ∧ Submitted s) ?_ ?_).2
    · rintro _ rfl
      exact ⟨linked_of_reachable (init rfl), fun w => by simp [created, rtWorkInit]⟩
    · rintro s e s' ⟨hlinked, hs⟩ ⟨hok, hstep⟩
      exact ⟨hlinked.step (Step.of_next hstep), hs.step hlinked hok (Step.of_next hstep)⟩
  refine ⟨fun htimer => ?_, fun htimer => ?_⟩
  · have hstarted : (s.work w).timer ≠ .idle := by simp [htimer]
    simp [handlerAsserts, (hlinked.submitting w).mpr hstarted, hsubmitted w hstarted]
  · have hnext : next s (.timer w) = some (s.delayedWorkTimeoutHandler w) := by
      simp [next, timerNext, htimer]
    exact (hlinked.step (Step.of_next hnext)).links w

/-- A handler that is called after its delay, with its assertions and its lists. -/
theorem timeoutHandler_asserts_after_delay : ∃ s : State Unit Unit,
    ((system Unit Unit).guarded TakesFree).Reachable s ∧ (s.work ()).timer = .expired ∧
      s.handlerAsserts () = true :=
  exists_and (exists_run next [.submit () 5, .timer ()] (.init rfl)
    (fun _ _ _ e he h => ⟨fun hworker => by simp [hworker] at he, h⟩)) fun _ hreach htimer =>
    (timeoutHandler_asserts hreach ()).1 htimer

/-- An item that is submitted with a delay and again without one is taken by the worker, which clears
`workqueue`; the timer expires and the handler's assertion fails. -/
theorem timeoutHandler_without_queue : ∃ s : State Unit Unit,
    (system Unit Unit).Reachable s ∧ (s.work ()).timer = .expired ∧ s.handlerAsserts () = false :=
  exists_run next [.submit () 5, .submit () 0, .worker, .timer ()] (.init rfl) (fun _ _ _ _ _ h => h)

end Runs

end RtThread.Workqueue
