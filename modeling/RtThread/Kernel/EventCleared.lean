import RtThread.Kernel.EventWaiters

/-!
# The events that a send clears

A thread that waits with `RT_EVENT_FLAG_CLEAR` has its events cleared by the send that satisfies its
condition, before the thread has gone on. The events are gone from the set, so the thread has to report
them.

`rt_event_send` does not look at the result of `rt_sched_thread_ready`. A thread that is just timing out
stays suspended, `_thread_timeout` overwrites its error code, and nobody reports the events.
-/

namespace RtThread.Kernel.State

open Lib List Option TransitionSystem

variable {T : Type*} [DecidableEq T] {k k' : State T} {t : T} {id : ℕ} {set : BitVec 32}
variable {given : T → Option Grant} {owed : T → Option (BitVec 32)}

/-- The events that a send clears for a thread: what the thread receives, when it waits with
`RT_EVENT_FLAG_CLEAR` for events that are now set. -/
def clearedFor (k : State T) (id : ℕ) (set : BitVec 32) (t : T) : Option (BitVec 32) :=
  if set ≠ 0 ∧ (k.eventInfo t).clear = true ∧ t ∈ k.lists (.event id) ∧
      (k.eventInfo t).satisfiedBy (k.eventSet t) ((k.event id).set ||| set) = true then
    some ((k.eventInfo t).received (k.eventSet t) ((k.event id).set ||| set))
  else none

/-- A thread that events are cleared for is one that the send serves. -/
theorem isServed_of_clearedFor {bits : BitVec 32} (h : k.clearedFor id set t = some bits) :
    k.IsServed ((k.event id).set ||| set) (k.lists (.event id)) t ∧
      bits = k.eventSet t &&& ((k.event id).set ||| set) := by
  unfold clearedFor at h
  split_ifs at h with hserved
  obtain ⟨-, -, hmem, hsat⟩ := hserved
  refine ⟨⟨hmem, hsat⟩, ?_⟩
  rw [← some.inj h, EventFlags.received_eq hsat]

/-- The set `need_clear_set` of a send collects what the threads of the list receive. -/
theorem eventSendLoop_needClear {needClear : BitVec 32} {needSchedule : Bool} {list : List T} {i : ℕ}
    (hnodup : list.Nodup) (h : (eventSendLoop set list k needClear needSchedule).2.1.getLsbD i = true) :
    needClear.getLsbD i = true ∨ ∃ t ∈ list, (k.eventInfo t).clear = true ∧
      (k.eventInfo t).satisfiedBy (k.eventSet t) set = true ∧
      ((k.eventInfo t).received (k.eventSet t) set).getLsbD i = true := by
  induction list generalizing k needClear needSchedule with
  | nil => exact .inl h
  | cons t rest ih =>
    obtain ⟨hnot, hnodup⟩ := nodup_cons.mp hnodup
    rw [eventSendLoop_cons] at h
    dsimp only at h
    split at h
    · split at h
      next hsat =>
        rcases ih hnodup h with hclear | ⟨u, hu, hflag, hother, hbit⟩
        · split at hclear
          next hflag =>
            rw [BitVec.getLsbD_or, Bool.or_eq_true] at hclear
            refine hclear.imp_right fun hbit => ?_
            exact ⟨t, mem_cons_self, hflag, hsat, hbit⟩
          · exact .inl hclear
        · -- a thread behind the first still waits for the same events
          have hne : u ≠ t := fun heq => hnot (heq ▸ hu)
          have hset : (k.eventGive t ((k.eventInfo t).received (k.eventSet t) set)).eventSet u =
              k.eventSet u := Function.update_of_ne hne ..
          rw [hset] at hother hbit
          exact .inr ⟨u, mem_cons_of_mem t hu, hflag, hother, hbit⟩
      · rcases ih hnodup h with hclear | ⟨u, hu, hrest⟩
        · exact .inl hclear
        · exact .inr ⟨u, mem_cons_of_mem t hu, hrest⟩
    · exact .inl h

/-- Every event that a send takes out of the set is cleared for a thread. -/
theorem EventOk.cleared_for {i : ℕ} (h : EventOk k given)
    (hstop : ∀ t, k.IsServed ((k.event id).set ||| set) (k.lists (.event id)) t →
      k.waits.canStop t = true) (hbefore : ((k.event id).set ||| set).getLsbD i = true)
    (hafter : ((k.rtEventSend id set).1.event id).set.getLsbD i = false) :
    ∃ t bits, k.clearedFor id set t = some bits ∧ bits.getLsbD i = true := by
  unfold State.rtEventSend at hafter
  split at hafter
  next hzero =>
    have hsame : (k.event id).set ||| (0 : BitVec 32) = (k.event id).set := BitVec.or_zero
    rw [hzero, hsame] at hbefore
    exact absurd (hbefore.symm.trans hafter) (by decide)
  rename_i hset
  obtain ⟨hgives, hok⟩ := h.eventSendLoop { k.event id with set := (k.event id).set ||| set } hstop
  dsimp only at hgives hok hafter
  rcases hloop : State.eventSendLoop ((k.event id).set ||| set) (T := T) _ _ 0 false with
    ⟨k2, clear, needSchedule, ok⟩
  rw [hloop] at hgives hok hafter
  obtain rfl : ok = true := hok
  have hk2 : (k2.event id).set = (k.event id).set ||| set := by
    rw [hgives.event, setEvent_self]
  have hcleared : ((k2.event id).set &&& ~~~clear).getLsbD i = false := by
    rw [if_pos rfl] at hafter
    split at hafter
    · rwa [onSched, setEvent_self] at hafter
    · rwa [setEvent_self] at hafter
  have hclear : clear.getLsbD i = true := by
    have hlt : i < 32 := BitVec.lt_of_getLsbD hbefore
    rw [hk2, BitVec.getLsbD_and, hbefore, Bool.true_and] at hcleared
    simpa [hlt] using hcleared
  have hneed := congrArg (fun r => r.2.1.getLsbD i) hloop
  obtain hzero | ⟨t, hmem, hflag, hsat, hbit⟩ :=
    eventSendLoop_needClear (h.queue.queue.nodup _) (hneed.trans hclear)
  · simp at hzero
  · exact ⟨t, _, if_pos ⟨hset, hflag, hmem, hsat⟩, hbit⟩

/-! ## Runs -/

/-- What the threads have to report: a send adds the events that it clears for a thread, and a thread
that goes on has reported them. -/
def recordCleared (k : State T) (e : KernelEvent T) (_ : State T) (owed : T → Option (BitVec 32)) :
    T → Option (BitVec 32) :=
  match e with
  | .call (.eventSend id set) => fun t => (k.clearedFor id set t).or (owed t)
  | .isr (.eventSend id set) => fun t => (k.clearedFor id set t).or (owed t)
  | .proceed => fun t => if k.runner = some t then none else owed t
  | _ => owed

/-- The runs of sends, receives and resets, with the cleared events that are still to be reported. -/
def clearSystem (T : Type*) [DecidableEq T] :
    TransitionSystem (State T × (T → Option (BitVec 32))) (KernelEvent T) :=
  ((system T).guarded fun _ e => eventEvent e = true).withHistory (fun _ => none) recordCleared

/-- The thread has been resumed with the events that it has to report. -/
def Reports (given : Option Grant) (bits : BitVec 32) : Prop :=
  ∃ g, given = some g ∧ bits = g.wanted &&& g.set

/-- A send keeps what the threads have to report. -/
theorem EventOk.reports_send {bits : BitVec 32} (h : EventOk k given)
    (howed : ∀ t bits, owed t = some bits → Reports (given t) bits)
    (hstop : ∀ t, k.IsServed ((k.event id).set ||| set) (k.lists (.event id)) t → k.waits.canStop t = true)
    (hbits : (k.clearedFor id set t).or (owed t) = some bits) :
    Reports (grants id set k (k.rtEventSend id set).1 given t) bits := by
  rcases or_eq_some_iff.mp hbits with hcleared | ⟨-, hold⟩
  · obtain ⟨hserved, rfl⟩ := isServed_of_clearedFor hcleared
    rw [grants, if_pos ⟨hserved.1, (h.rtEventSend hstop).2 t hserved⟩]
    exact ⟨_, rfl, rfl⟩
  · obtain ⟨g, hg, hbits⟩ := howed t bits hold
    have hnot : t ∉ k.lists (.event id) := by
      have hthread := h.thread t
      rw [hg] at hthread
      cases hthread with
      | served _ _ hsusp =>
        rw [← Sched.waits_waiting rfl]
        exact h.toPlaced.not_waiting hsusp _
      | _ _ hnone => cases hnone
    rw [grants, if_neg fun hmem => hnot hmem.1]
    exact ⟨g, hg, hbits⟩

/-- The threads are where their receives have put them, and have the events that they have to report. -/
def ClearOk (p : State T × (T → Option (BitVec 32))) : Prop :=
  ∃ given, EventOk p.1 given ∧ ∀ t bits, p.2 t = some bits → Reports (given t) bits

/-- One event. -/
theorem ClearOk.exec {fuel : ℕ} {e : KernelEvent T} {ret : Option ℤ}
    (h : ClearOk (k, owed)) (hevent : eventEvent e = true) (hok : EventSendOk k e)
    (heq : State.exec fuel k e = some (k', ret)) : ClearOk (k', recordCleared k e k' owed) := by
  obtain ⟨given, hthreads, howed⟩ := h
  refine ⟨recordGrants k e k' given, hthreads.exec hevent hok heq, fun t bits hbits => ?_⟩
  cases e with
  | call c =>
    cases c with
    | eventSend id set =>
      obtain ⟨_, -, ⟨⟩⟩ := exec_call heq
      exact hthreads.reports_send howed (hok.canStop rfl) hbits
    | _ => exact howed t bits hbits
  | isr c =>
    cases c with
    | eventSend id set =>
      obtain rfl : _ = k' := some.inj (exec_isr heq).1
      exact hthreads.reports_send howed (hok.canStop rfl) hbits
    | _ => exact howed t bits hbits
  | proceed =>
    unfold recordCleared at hbits
    dsimp only [recordGrants] at hbits ⊢
    split_ifs at hbits with hne
    rw [if_neg hne]
    exact howed t bits hbits
  | _ => exact howed t bits hbits

/-- In every run in which no send satisfies the condition of a thread that is just timing out, no cleared
event is lost. An event that a send takes out of the set is cleared for a thread; and a thread that
events have been cleared for is not suspended, and its `rt_event_recv` returns `RT_EOK` with those
events. -/
theorem cleared_events_reported {p : State T × (T → Option (BitVec 32))}
    (h : ((clearSystem T).guarded fun p e => EventSendOk p.1 e).Reachable p) :
    (∀ e id set, sentEvent e = some (id, set) → EventSendOk p.1 e →
      ∀ i, ((p.1.event id).set ||| set).getLsbD i = true →
        ((p.1.rtEventSend id set).1.event id).set.getLsbD i = false →
        ∃ t bits, p.1.clearedFor id set t = some bits ∧ bits.getLsbD i = true) ∧
    ∀ t bits, p.2 t = some bits → p.1.isSuspended t = false ∧
      ∀ fuel, ∃ k', proceed fuel p.1 t = some (k', some rtEok) ∧ k'.recved t = bits := by
  have hinv : ClearOk p := by
    apply h.invariant
    · rintro ⟨k, owed⟩ ⟨hboot, howed⟩
      obtain rfl : owed = fun _ => none := howed
      refine ⟨fun _ => none, ⟨hboot.placed, fun t => .idle (hboot.pc t) rfl⟩, ?_⟩
      rintro t bits ⟨⟩
    · rintro ⟨k, owed⟩ e ⟨k', owed'⟩ hk ⟨hok, ⟨hevent, fuel, ret, heq⟩, howed⟩
      obtain rfl : owed' = recordCleared k e k' owed := howed
      exact hk.exec hevent hok heq
  obtain ⟨given, hthreads, howed⟩ := hinv
  refine ⟨fun e id set hsent hok i => hthreads.cleared_for (hok.canStop hsent), fun t bits hbits => ?_⟩
  obtain ⟨g, hg, rfl⟩ := howed t bits hbits
  have hthread := hthreads.thread t
  rw [hg] at hthread
  refine ⟨?_, hthread.proceed⟩
  cases hthread with
  | served _ _ hsusp => exact hsusp
  | _ _ hnone => cases hnone

/-- An event with the cleared events, as a function to the next state, when it meets a condition. -/
def clearNextWhen (ok : State T → KernelEvent T → Prop) [∀ k e, Decidable (ok k e)]
    (p : State T × (T → Option (BitVec 32))) (e : KernelEvent T) :
    Option (State T × (T → Option (BitVec 32))) :=
  (nextWhen (fun k e => ok k e ∧ eventEvent e = true) 0 p.1 e).map fun k' =>
    (k', recordCleared p.1 e k' p.2)

/-- A computed step is a step of the guarded system. -/
theorem guarded_step_of_clearNextWhen {ok : State T → KernelEvent T → Prop}
    [∀ k e, Decidable (ok k e)] {p p' : State T × (T → Option (BitVec 32))} {e : KernelEvent T}
    (h : clearNextWhen ok p e = some p') : ((clearSystem T).guarded fun p e => ok p.1 e).step p e p' := by
  obtain ⟨k', hk', rfl⟩ := map_eq_some_iff.mp h
  obtain ⟨⟨hok, hevent⟩, hexec⟩ := guarded_step_of_nextWhen hk'
  exact ⟨hok, ⟨hevent, hexec⟩, rfl⟩

/-- Thread 1 waits for one of two events and clears what it receives; a send of one of them takes it out
of the set, and the thread reports it. -/
theorem cleared_events_reported_send : ∃ p : State (Fin 2) × (Fin 2 → Option (BitVec 32)),
    ((clearSystem (Fin 2)).guarded fun p e => EventSendOk p.1 e).Reachable p ∧
    p.2 1 = some 1 ∧ (p.1.event 0).set = 4 ∧ p.1.isSuspended 1 = false ∧
    ∃ k', proceed 0 p.1 1 = some (k', some rtEok) ∧ k'.recved 1 = 1 :=
  Reachable.exists_and₂ (Reachable.exists_run (clearNextWhen EventSendOk)
    [.isr (.startup 0), .schedulerStart, .call (.startup 1),
      .call (.eventRecv 0 3 ⟨false, true, true⟩ 7), .call (.eventSend 0 5)]
    (.init (s := (boot 32 ![20, 10] fun _ => 10, fun _ => none))
      ⟨booted_boot, rfl⟩) (fun _ _ _ _ _ => guarded_step_of_clearNextWhen)) fun _ hreach howed _ =>
      ((cleared_events_reported hreach).2 1 1 howed).imp_right fun hreport => hreport 0

/-- Events that are lost. Thread 1 waits for an event that it clears, and its timer is due; an interrupt
sends the event, which is cleared for the thread, and then the thread times out. Its `rt_event_recv`
returns `-RT_ETIMEOUT`, and the event is gone. -/
theorem cleared_event_lost : ∃ (p : State (Fin 2) × (Fin 2 → Option (BitVec 32))) (k' : State (Fin 2)),
    (clearSystem (Fin 2)).Reachable p ∧ p.2 1 = some 1 ∧ (p.1.event 0).set = 0 ∧
    p.1.runner = some 1 ∧ proceed 0 p.1 1 = some (k', some (-rtEtimeout)) ∧ k'.recved 1 = 0 :=
  Reachable.exists₂ (Reachable.exists_run
    (clearNextWhen fun _ _ => True) [.isr (.startup 0), .schedulerStart, .call (.startup 1),
      .call (.eventRecv 0 1 ⟨true, false, true⟩ 7), .timerDue 1, .isr (.eventSend 0 1), .timeout 1]
    (.init (s := (boot 32 ![20, 10] fun _ => 10, fun _ => none))
      ⟨booted_boot, rfl⟩)
    (fun _ _ _ _ _ h => (guarded_step_of_clearNextWhen h).2))

end RtThread.Kernel.State
