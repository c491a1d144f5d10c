import RtThread.Workqueue.Basic

/-!
# The steps of a work queue

Every call on a work item takes its node out of the lists and puts it back in at most one place;
`relink` says so once for all of them. `Step` lists what each event does.
-/

namespace RtThread.Workqueue

open Lib TransitionSystem Option State

variable {W T : Type*} [DecidableEq W]

/-- Where a call puts the node of an item. -/
inductive Place where
  | unlinked
  | delayed
  | back
  | front

namespace State

/-- An item moved to a place and written; the worker is resumed when the item is queued. -/
def relink (s : State W T) (w : W) (x : Work) : Place → State W T
  | .unlinked => (s.rtListRemove w).setWork w x
  | .delayed => { s.rtListRemove w with delayedList := s.delayedList.erase w ++ [w] }.setWork w x
  | .back => ({ s.rtListRemove w with workList := s.workList.erase w ++ [w] }.setWork w x).resumeWorker
  | .front => ({ s.rtListRemove w with workList := w :: s.workList.erase w }.setWork w x).resumeWorker

section Fields

variable (s : State W T) (w : W) (x : Work) (p : Place)

@[simp] theorem work_relink : (s.relink w x p).work = Function.update s.work w x := by
  cases p <;> rfl

@[simp] theorem workCurrent_relink : (s.relink w x p).workCurrent = s.workCurrent := by
  cases p <;> rfl

@[simp] theorem sem_relink : (s.relink w x p).sem = s.sem := by
  cases p <;> rfl

@[simp] theorem waiters_relink : (s.relink w x p).waiters = s.waiters := by
  cases p <;> rfl

@[simp] theorem caller_relink : (s.relink w x p).caller = s.caller := by
  cases p <;> rfl

end Fields

/-- The item that a delayed submission leaves. -/
def delayedItem (s : State W T) (w : W) : Work :=
  let x := { s.work w with pending := false }
  let x := if x.submitting then { x with timer := x.timer.rtTimerControl }
    else { x with timer := .idle, submitting := true }
  { x with workqueue := true, timer := x.timer.rtTimerStart.1 }

omit [DecidableEq W] in
/-- The timer of a delayed submission has been started. -/
theorem timer_delayedItem (s : State W T) (w : W) : (s.delayedItem w).timer ≠ .idle := by
  have hstart : ∀ phase : TimerPhase, phase.rtTimerStart.1 ≠ .idle := by
    intro phase
    cases phase <;> simp [TimerPhase.rtTimerStart]
  exact hstart _

/-- The item that a cancel leaves: when the timer has expired only `pending` is cleared. -/
def cancelledItem (s : State W T) (w : W) : Work :=
  if (s.work w).submitting then
    if (s.work w).timer = .active then ⟨false, false, false, .idle⟩ else { s.work w with pending := false }
  else { s.work w with pending := false, workqueue := false }

/-- A submission with a delay starts the timer. -/
theorem submitWork_delayed (s : State W T) (w : W) {ticks : ℕ} (hpos : ticks ≠ 0)
    (hlt : ticks < rtTickMax / 2) :
    (s.workqueueSubmitWork w ticks).1 = s.relink w (s.delayedItem w) .delayed := by
  rw [workqueueSubmitWork, if_neg hpos, if_pos hlt]
  rfl

/-- An urgent submission writes nothing to the item. -/
theorem urgentWork_eq (s : State W T) (w : W) :
    (s.rtWorkqueueUrgentWork w).1 = s.relink w (s.work w) .front := by
  simp only [rtWorkqueueUrgentWork, relink, setWork, rtListRemove, Function.update_eq_self]

/-- A cancel takes the item out of the lists. -/
theorem cancelWork_eq (s : State W T) (w : W) :
    (s.workqueueCancelWork w).1 = s.relink w (s.cancelledItem w) .unlinked := by
  by_cases hsub : (s.work w).submitting
  · cases hphase : (s.work w).timer <;>
      simp [workqueueCancelWork, cancelledItem, relink, hsub, hphase, TimerPhase.rtTimerStop]
  · simp [workqueueCancelWork, cancelledItem, relink, hsub]

/-- The handler queues an item that is not executing. -/
theorem timeoutHandler_of_ne {s : State W T} {w : W} (hcur : s.workCurrent ≠ some w) :
    s.delayedWorkTimeoutHandler w =
      s.relink w { s.work w with timer := .idle, submitting := false, pending := true } .back := by
  simp [delayedWorkTimeoutHandler, relink, hcur, rtListRemove]

/-- The handler puts an item that is executing in no list. -/
theorem timeoutHandler_of_eq {s : State W T} {w : W} (hcur : s.workCurrent = some w) :
    s.delayedWorkTimeoutHandler w =
      s.relink w { s.work w with timer := .idle, submitting := false } .unlinked := by
  simp [delayedWorkTimeoutHandler, relink, hcur, rtListRemove, setWork, resumeWorker]

end State

/-- What each event does, with the branch that it takes. -/
inductive Step [DecidableEq T] (s : State W T) : Event W T → State W T → Prop where
  | submitNow (w : W) :
    Step s (.submit w 0) (s.relink w { s.work w with pending := true, workqueue := true } .back)
  | submitDelayed (w : W) (ticks : ℕ) (hpos : ticks ≠ 0) :
    Step s (.submit w ticks) (s.relink w (s.delayedItem w) .delayed)
  | urgent (w : W) : Step s (.urgent w) (s.relink w (s.work w) .front)
  | cancel (w : W) : Step s (.cancel w) (s.relink w (s.cancelledItem w) .unlinked)
  | expire (w : W) (htimer : (s.work w).timer = .active) :
    Step s (.timer w) (s.setWork w { s.work w with timer := .expired })
  | enter (w : W) (htimer : (s.work w).timer = .expired) (hassert : s.handlerAsserts w = true) :
    Step s (.timer w) (s.setWork w { s.work w with timer := .entered })
  | handle (w : W) (htimer : (s.work w).timer = .entered) (hcur : s.workCurrent ≠ some w) :
    Step s (.timer w)
      (s.relink w { s.work w with timer := .idle, submitting := false, pending := true } .back)
  | drop (w : W) (htimer : (s.work w).timer = .entered) (hcur : s.workCurrent = some w) :
    Step s (.timer w) (s.relink w { s.work w with timer := .idle, submitting := false } .unlinked)
  | sleep (hworker : s.worker = .check) (hlist : s.workList = []) :
    Step s .worker { s with worker := .suspended }
  | take (w : W) (rest : List W) (hworker : s.worker = .check) (hlist : s.workList = w :: rest) :
    Step s .worker ({ s with workList := rest, workCurrent := some w, worker := .running }.setWork w
      { s.work w with pending := false, workqueue := false })
  | finish (hworker : s.worker = .running) :
    Step s .worker { s with workCurrent := none, worker := .completing }
  | trytakeFailed (hworker : s.worker = .completing) (hsem : s.sem = 0) :
    Step s .worker { s with worker := .releasing }
  | trytaken (hworker : s.worker = .completing) (hsem : s.sem ≠ 0) :
    Step s .worker { s with sem := s.sem - 1, worker := .check }
  | release (hworker : s.worker = .releasing) (hwaiters : s.waiters = []) :
    Step s .worker { s with sem := s.sem + 1, worker := .completing }
  | wake (t : T) (rest : List T) (hworker : s.worker = .releasing) (hwaiters : s.waiters = t :: rest) :
    Step s .worker
      { s with waiters := rest, caller := Function.update s.caller t .idle, worker := .completing }
  | look (t : T) (w : W) (hcaller : s.caller t = .idle) :
    Step s (.cancelSync t w)
      { s with caller := Function.update s.caller t (.checked w (s.workCurrent = some w)) }
  | taken (t : T) (w : W) (hcaller : s.caller t = .checked w true) (hsem : 0 < s.sem) :
    Step s (.proceed t) { s with sem := s.sem - 1, caller := Function.update s.caller t .idle }
  | wait (t : T) (w : W) (hcaller : s.caller t = .checked w true) (hsem : s.sem = 0) :
    Step s (.proceed t)
      { s with waiters := s.waiters ++ [t], caller := Function.update s.caller t .waiting }
  | cancelled (t : T) (w : W) (hcaller : s.caller t = .checked w false) :
    Step s (.proceed t)
      { s.relink w (s.cancelledItem w) .unlinked with caller := Function.update s.caller t .idle }
  | other : Step s .other s

section Inversion

variable [DecidableEq T] {s s' : State W T}

/-- A timer step goes through the phases of the timer. -/
theorem Step.of_timerNext {w : W} (h : s.timerNext w = some s') : Step s (.timer w) s' := by
  cases htimer : (s.work w).timer with
  | idle => simp [timerNext, htimer] at h
  | active =>
    simp only [timerNext, htimer, some.injEq] at h
    exact h ▸ Step.expire w htimer
  | expired =>
    simp only [timerNext, htimer, ite_none_right_eq_some, some.injEq] at h
    exact h.2 ▸ Step.enter w htimer h.1
  | entered =>
    simp only [timerNext, htimer, some.injEq] at h
    subst h
    by_cases hcur : s.workCurrent = some w
    · rw [State.timeoutHandler_of_eq hcur]
      exact Step.drop w htimer hcur
    · rw [State.timeoutHandler_of_ne hcur]
      exact Step.handle w htimer hcur

/-- A worker step goes through the loop of the worker. -/
theorem Step.of_workerNext (h : s.workerNext = some s') : Step s .worker s' := by
  cases hworker : s.worker with
  | check =>
    simp only [workerNext, hworker] at h
    split at h
    next hlist => exact some.inj h ▸ Step.sleep hworker hlist
    next w rest hlist => exact some.inj h ▸ Step.take w rest hworker hlist
  | suspended => simp [workerNext, hworker] at h
  | running =>
    simp only [workerNext, hworker] at h
    exact some.inj h ▸ Step.finish hworker
  | completing =>
    simp only [workerNext, hworker] at h
    split at h
    next hsem => exact some.inj h ▸ Step.trytakeFailed hworker hsem
    next hsem => exact some.inj h ▸ Step.trytaken hworker hsem
  | releasing =>
    simp only [workerNext, hworker, rtSemRelease] at h
    split at h
    next hwaiters => exact some.inj h ▸ Step.release hworker hwaiters
    next t rest hwaiters => exact some.inj h ▸ Step.wake t rest hworker hwaiters

/-- After its read a synchronous cancel waits for the semaphore or cancels. -/
theorem Step.of_callerNext {t : T} (h : s.callerNext t = some s') : Step s (.proceed t) s' := by
  cases hcaller : s.caller t with
  | idle | waiting => simp [callerNext, hcaller] at h
  | checked w current =>
    cases current with
    | true =>
      simp only [callerNext, hcaller, if_true, some.injEq] at h
      subst h
      by_cases hsem : 0 < s.sem
      · simp only [rtSemTake, if_pos hsem]
        exact Step.taken t w hcaller hsem
      · simp only [rtSemTake, if_neg hsem]
        exact Step.wait t w hcaller (by omega)
    | false =>
      simp only [callerNext, hcaller, Bool.false_eq_true, if_false, some.injEq,
        State.cancelWork_eq] at h
      exact h ▸ Step.cancelled t w hcaller

/-- Every event is one of the steps. -/
theorem Step.of_next {e : Event W T} (h : next s e = some s') : Step s e s' := by
  cases e with
  | submit w ticks =>
    simp only [next, ite_none_right_eq_some, some.injEq] at h
    obtain ⟨hlt, rfl⟩ := h
    by_cases hpos : ticks = 0
    · subst hpos
      exact Step.submitNow w
    · rw [State.submitWork_delayed s w hpos hlt]
      exact Step.submitDelayed w ticks hpos
  | urgent w =>
    cases h
    rw [State.urgentWork_eq]
    exact Step.urgent w
  | cancel w =>
    cases h
    rw [State.cancelWork_eq]
    exact Step.cancel w
  | timer w => exact Step.of_timerNext h
  | worker => exact Step.of_workerNext h
  | cancelSync t w =>
    simp only [next, ite_none_right_eq_some, some.injEq] at h
    exact h.2 ▸ Step.look t w h.1
  | proceed t => exact Step.of_callerNext h
  | other => exact some.inj h ▸ Step.other

end Inversion

end RtThread.Workqueue
