import RtThread.Kernel.Wakeups

/-!
# Steps that only wake threads

`rt_sched_thread_ready` and the loops around it: the threads that they wake were suspended, and all
other threads keep their status. No thread is switched and no priority changes.
-/

namespace RtThread.Kernel

open Function List

namespace Sched

variable {T : Type*} {s s' : Sched T} {p : T → Prop}

/-- Only suspended threads in `p` are woken. -/
structure Wakes (p : T → Prop) (s s' : Sched T) : Prop where
  queue : s'.ReadyQueue
  lockNest : s'.lockNest = s.lockNest
  current : s'.current = s.current
  priority : s'.currentPriority = s.currentPriority
  code : ∀ t, (s'.stat t).code = (s.stat t).code ∨
    (p t ∧ s.isSuspended t = true ∧ ((s'.stat t).code = .ready ∨ (s'.stat t).code = .running))
  waiting : ∀ head t, t ∈ s'.waits.waiting head → t ∈ s.waits.waiting head
  defunct : ∀ t, t ∈ s'.lists .defunct → t ∈ s.lists .defunct

namespace Wakes

theorem refl (h : s.ReadyQueue) : Wakes p s s :=
  ⟨h, rfl, rfl, rfl, fun _ => .inl rfl, fun _ _ ht => ht, fun _ ht => ht⟩

/-- A thread that is woken was suspended at the beginning. -/
theorem trans {s'' : Sched T} (h : Wakes p s s') (h' : Wakes p s' s'') : Wakes p s s'' where
  queue := h'.queue
  lockNest := h'.lockNest.trans h.lockNest
  current := h'.current.trans h.current
  priority := h'.priority.trans h.priority
  code := by
    intro t
    rcases h.code t with hsame | ⟨hp, hsusp, hcode⟩
    · rcases h'.code t with hsame' | ⟨hp, hsusp, hcode⟩
      · exact .inl (hsame'.trans hsame)
      · have hbefore : s.isSuspended t = true := by
          unfold isSuspended at hsusp ⊢
          rwa [hsame] at hsusp
        exact .inr ⟨hp, hbefore, hcode⟩
    · rcases h'.code t with hsame' | ⟨-, hsusp', -⟩
      · exact .inr ⟨hp, hsusp, by rw [hsame']; exact hcode⟩
      · rcases hcode with hcode | hcode <;> simp [isSuspended, hcode] at hsusp'
  waiting head t ht := h.waiting head t (h'.waiting head t ht)
  defunct t ht := h.defunct t (h'.defunct t ht)

end Wakes

variable [DecidableEq T]

theorem ReadyQueue.wakes_rtSchedThreadTimerStop (h : s.ReadyQueue) (t : T) :
    Wakes p s (s.rtSchedThreadTimerStop t).1 := by
  have hwaits := waits_rtSchedThreadTimerStop s t
  have hframe : (s.rtSchedThreadTimerStop t).1 = { s with
      ttmrSet := (s.rtSchedThreadTimerStop t).1.ttmrSet
      timerActive := (s.rtSchedThreadTimerStop t).1.timerActive } := by
    unfold Sched.rtSchedThreadTimerStop
    split <;> rfl
  refine ⟨h.rtSchedThreadTimerStop t, ?_, ?_, ?_, fun u => .inl ?_, ?_, ?_⟩
  · rw [hframe]
  · rw [hframe]
  · rw [hframe]
  · rw [rtSchedThreadTimerStop_stat]
  · intro head u hu
    rw [hwaits, Waits.timerStop_waiting] at hu
    exact hu
  · intro u hu
    rw [hframe] at hu
    exact hu

theorem ReadyQueue.wakes_listRemove {t : T} (h : s.ReadyQueue) (hsusp : s.isSuspended t) :
    Wakes p s (s.listRemove t) := by
  refine ⟨h.listRemove hsusp, rfl, rfl, rfl, fun _ => .inl rfl, ?_, ?_⟩
  · intro head u hu
    rw [waits_listRemove] at hu
    exact (mem_filter.mp hu).1
  · intro u hu
    exact (mem_filter.mp hu).1

/-- Inserting a thread into the ready queue leaves the closed threads. -/
theorem rtSchedInsertThread_defunct (s : Sched T) (t : T) :
    (s.rtSchedInsertThread t).lists .defunct = s.lists .defunct := by
  by_cases hcur : s.current = some t
  · rw [rtSchedInsertThread, if_pos hcur]
    rfl
  · obtain ⟨list, -, heq⟩ := rtSchedInsertThread_of_ne hcur
    have hne : ListHead.defunct ≠ .ready (s.currentPriority t) := by simp
    rw [heq, setReadyBits_eq]
    exact update_of_ne hne list s.lists

/-- A suspended thread is unlinked and inserted. -/
theorem ReadyQueue.wakes_wake {t : T} (h : s.ReadyQueue) (hsusp : s.isSuspended t) (hp : p t) :
    Wakes p s ((s.listRemove t).rtSchedInsertThread t) := by
  refine ⟨h.wake hsusp, ?_, ?_, ?_, ?_, ?_, ?_⟩
  iterate 3
    · rw [rtSchedInsertThread_eq]
      rfl
  · intro u
    rw [rtSchedInsertThread_stat]
    by_cases hu : u = t
    · subst hu
      rw [update_self]
      refine .inr ⟨hp, hsusp, ?_⟩
      split
      · exact .inr rfl
      · exact .inl rfl
    · rw [update_of_ne hu]
      exact .inl rfl
  · intro head u hu
    rw [waits_rtSchedInsertThread, waits_listRemove] at hu
    exact (mem_filter.mp hu).1
  · intro u hu
    rw [rtSchedInsertThread_defunct] at hu
    exact (mem_filter.mp hu).1

theorem ReadyQueue.wakes_rtSchedThreadReady {t : T} (h : s.ReadyQueue)
    (hp : (s.rtSchedThreadReady t).2 = true → p t) : Wakes p s (s.rtSchedThreadReady t).1 := by
  unfold Sched.rtSchedThreadReady at hp ⊢
  by_cases hsusp : s.isSuspended t = true
  · have hstop : Wakes p s (s.rtSchedThreadTimerStop t).1 := h.wakes_rtSchedThreadTimerStop t
    rw [if_pos hsusp] at hp ⊢
    dsimp only at hp ⊢
    by_cases hok : (s.rtSchedThreadTimerStop t).2 = true
    · rw [if_pos hok] at hp ⊢
      refine hstop.trans (hstop.queue.wakes_wake ?_ (hp rfl))
      rwa [isSuspended_iff, rtSchedThreadTimerStop_stat, ← isSuspended_iff]
    · rw [if_neg hok]
      exact hstop
  · rw [if_neg hsusp]
    exact .refl h

/-- The wake-up loop of `rt_mutex_release`: at most one of the waiting threads is woken. -/
theorem ReadyQueue.wakes_releaseWake {id rounds : ℕ} {next : Option T} (h : s.ReadyQueue)
    (heq : State.releaseWake id rounds s = some (s', next)) :
    Wakes (next = some ·) s s' ∧ ∀ t, next = some t → t ∈ s.lists (.mutex id) ∧
      s.isSuspended t = true := by
  refine State.releaseWake_induct (C := fun s s' next => s.ReadyQueue → Wakes (next = some ·) s s' ∧
    ∀ t, next = some t → t ∈ s.lists (.mutex id) ∧ s.isSuspended t = true) ?_ ?_ ?_ heq h
  · intro s h
    exact ⟨.refl h, by simp⟩
  · intro s n hmem hsusp _ h
    refine ⟨(h.wakes_listRemove hsusp).trans
      ((h.listRemove hsusp).wakes_rtSchedThreadReady fun _ => rfl), ?_⟩
    rintro t ⟨⟩
    exact ⟨hmem, hsusp⟩
  · intro s s' n next _ hsusp hfail ih h
    have hskip : ∀ q, Wakes q s ((s.listRemove n).rtSchedThreadReady n).1 := fun q =>
      (h.wakes_listRemove hsusp).trans
        ((h.listRemove hsusp).wakes_rtSchedThreadReady fun hok => by simp [hfail] at hok)
    obtain ⟨hrest, hnext⟩ := ih (hskip fun _ => False).queue
    refine ⟨(hskip _).trans hrest, fun t ht => ?_⟩
    obtain ⟨hmem, hsusp'⟩ := hnext t ht
    constructor
    · rw [← waits_waiting rfl] at hmem ⊢
      exact (hskip fun _ => False).waiting _ t hmem
    · rcases (hskip fun _ => False).code t with hsame | ⟨hfalse, -⟩
      · unfold isSuspended at hsusp' ⊢
        rwa [hsame] at hsusp'
      · exact hfalse.elim

end Sched

namespace State

variable {T : Type*} [DecidableEq T] {k k' : State T} {p : T → Prop}
variable {head : ListHead} {threadError : ℤ}

theorem wakes_rtSuspListDequeue (h : k.ReadyQueue) (hp : ∀ t ∈ k.lists head, p t) :
    Sched.Wakes p k.toSched (k.rtSuspListDequeue head threadError).1.toSched := by
  unfold rtSuspListDequeue
  split
  · exact .refl h
  next t rest hlist =>
    have hready : Sched.Wakes p k.toSched (k.rtSchedThreadReady t).1 :=
      h.wakes_rtSchedThreadReady fun _ => hp t (by simp [hlist])
    dsimp only
    split
    · split
      · exact hready
      · exact hready
    · exact hready

/-- A dequeue changes the scheduler and an error code only. -/
theorem rtSuspListDequeue_frame (k : State T) (head : ListHead) (threadError : ℤ) :
    ∃ (s : Sched T) (error : T → ℤ), (k.rtSuspListDequeue head threadError).1 =
      { k with toSched := s, error := error } := by
  unfold rtSuspListDequeue
  split
  · exact ⟨k.toSched, k.error, rfl⟩
  · dsimp only
    split
    · split
      · exact ⟨_, _, rfl⟩
      · exact ⟨_, _, rfl⟩
    · exact ⟨_, _, rfl⟩

/-- `rt_susp_list_resume_all` wakes threads of the list, and changes the scheduler and error codes only. -/
theorem wakes_rtSuspListResumeAll (threadError : ℤ) (hwait : head.isWait) (h : k.ReadyQueue) :
    Sched.Wakes (· ∈ k.lists head) k.toSched (k.rtSuspListResumeAll head threadError).toSched ∧
    ∃ (s : Sched T) (error : T → ℤ),
      k.rtSuspListResumeAll head threadError = { k with toSched := s, error := error } := by
  refine rtSuspListResumeAll_induction (P := fun k' => Sched.Wakes (· ∈ k.lists head) k.toSched k'.toSched ∧
    ∃ s error, k' = { k with toSched := s, error := error }) ⟨.refl h, k.toSched, k.error, rfl⟩ ?_
  rintro _ ⟨hwakes, s, error, rfl⟩
  obtain ⟨s', error', hframe⟩ := rtSuspListDequeue_frame { k with toSched := s, error := error } head
    threadError
  refine ⟨hwakes.trans (wakes_rtSuspListDequeue hwakes.queue fun u hu => ?_), s', error', hframe⟩
  rw [← Sched.waits_waiting hwait] at hu ⊢
  exact hwakes.waiting head u hu

theorem wakes_eventSendLoop {set : BitVec 32} {list : List T} {needClear : BitVec 32}
    {needSchedule : Bool} (h : k.ReadyQueue) (hp : ∀ t ∈ list, p t) :
    Sched.Wakes p k.toSched (eventSendLoop set list k needClear needSchedule).1.toSched ∧
    ∃ (s : Sched T) (error : T → ℤ) (eventSet : T → BitVec 32),
      (eventSendLoop set list k needClear needSchedule).1 =
        { k with toSched := s, error := error, eventSet := eventSet } := by
  induction list generalizing k needClear needSchedule with
  | nil => exact ⟨.refl h, k.toSched, k.error, k.eventSet, rfl⟩
  | cons t rest ih =>
    have hrest : ∀ u ∈ rest, p u := fun u hu => hp u (mem_cons_of_mem t hu)
    rw [eventSendLoop_cons]
    dsimp only
    split
    · split
      · have hready : Sched.Wakes p k.toSched (k.rtSchedThreadReady t).1 :=
          h.wakes_rtSchedThreadReady fun _ => hp t mem_cons_self
        generalize (k.eventInfo t).received (k.eventSet t) set = received
        obtain ⟨hloop, s, error, eventSet, hframe⟩ :=
          ih (k := k.eventGive t received) hready.queue hrest
        exact ⟨hready.trans hloop, s, error, eventSet, hframe⟩
      · exact ih h hrest
    · exact ⟨.refl h, k.toSched, k.error, k.eventSet, rfl⟩

end State

end RtThread.Kernel
