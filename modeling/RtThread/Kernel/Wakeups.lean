import RtThread.Kernel.Calls
import RtThread.Kernel.ThreadView
import RtThread.Lib.Count

/-!
# Suspensions and wake-ups

Every blocking call but `rt_mutex_take` suspends its thread with `blockOn`, and every call that may
wake a thread but `rt_mutex_release` does so with `rt_susp_list_dequeue`. What they do to the threads
is said here once. A wake-up fails when the timer of the thread cannot be stopped any more: its expiry
has begun and `_thread_timeout` is still to come.
-/

namespace RtThread.Kernel

open Function List Option

namespace Waits

variable {T : Type*}
variable {head : ListHead} {thread u : T} {w : Waits T}

/-- Who waits after a thread has entered a list. -/
theorem mem_link_waiting {other : ListHead} {flag : IpcFlag} :
    u ∈ (w.link head thread flag).waiting other ↔ u ∈ w.waiting other ∨ (u = thread ∧ other = head) := by
  by_cases hsame : other = head
  · subst hsame
    cases flag <;> simp [link, Lib.mem_insertBy, or_comm]
  · simp [link, hsame]

variable [DecidableEq T]

/-- A thread is suspended on a list, with a timer if there is a waiting time. -/
def block (w : Waits T) (thread : T) (head : ListHead) (flag : IpcFlag) (timeout : ℤ) : Waits T :=
  let w := ((w.setSuspended thread true).link head thread flag).timerStop thread
  if 0 < timeout then w.timerStart thread else w

/-- A thread on a list is to be woken. -/
def ready (w : Waits T) (thread : T) : Waits T :=
  if w.canStop thread then (w.timerStop thread).wake thread else w.timerStop thread

/-- Stopping a timer leaves the wait lists. -/
@[simp] theorem timerStop_waiting (w : Waits T) (thread : T) :
    (w.timerStop thread).waiting = w.waiting := by
  rw [timerStop_eq]

section

variable (w thread head) (flag : IpcFlag) (timeout : ℤ)

/-- The wait lists after a suspension. -/
theorem block_waiting :
    (w.block thread head flag timeout).waiting = (w.link head thread flag).waiting := by
  simp only [block, timerStop_eq]
  split <;> rfl

/-- After a suspension the thread is not fresh. -/
theorem block_fresh : (w.block thread head flag timeout).fresh = update w.fresh thread false := by
  simp only [block, timerStop_eq]
  split <;> rfl

/-- After a suspension the thread is suspended. -/
theorem block_suspended : (w.block thread head flag timeout).suspended = update w.suspended thread true := by
  simp only [block, timerStop_eq]
  split <;> rfl

end

/-- A thread that is still fresh was fresh before, and is not the one that has been started. -/
theorem of_update_false {f : T → Bool} (h : update f thread false u = true) : u ≠ thread ∧ f u = true := by
  by_cases hu : u = thread
  · rw [hu, update_self] at h
    cases h
  · exact ⟨hu, (update_of_ne hu ..).symm.trans h⟩

/-- Who waits after a suspension. -/
theorem mem_block_waiting {other : ListHead} {flag : IpcFlag}
    {timeout : ℤ} : u ∈ (w.block thread head flag timeout).waiting other ↔
      u ∈ w.waiting other ∨ (u = thread ∧ other = head) := by
  rw [block_waiting]
  exact mem_link_waiting

/-- The wait lists after an attempt to wake a thread. -/
theorem ready_waiting (w : Waits T) (thread : T) : (w.ready thread).waiting =
    if w.canStop thread then fun head => (w.waiting head).filter (· ≠ thread)
    else w.waiting := by
  unfold ready
  split <;> simp [wake, unlink, setSuspended]

/-- The suspended threads after an attempt to wake a thread. -/
theorem ready_suspended (w : Waits T) (thread : T) : (w.ready thread).suspended =
    if w.canStop thread then update w.suspended thread false else w.suspended := by
  unfold ready
  rw [timerStop_eq]
  split <;> rfl

/-- A thread that is fresh after an attempt to wake a thread was fresh before. -/
theorem fresh_of_ready (h : (w.ready thread).fresh u = true) : w.fresh u = true := by
  rw [ready, timerStop_eq] at h
  split at h
  · exact (of_update_false h).2
  · exact h

/-- Who waits after an attempt to wake a thread waited before. -/
theorem mem_of_ready_waiting (h : u ∈ (w.ready thread).waiting head) : u ∈ w.waiting head := by
  rw [ready_waiting] at h
  split at h
  · exact (mem_filter.mp h).1
  · exact h

end Waits

/-- The list on which a thread at this place is or was suspended. -/
def Pc.waitsOn : Pc → Option ListHead
  | .mutexResched id => some (.mutex id)
  | .mutexWoken id => some (.mutex id)
  | .semWoken id => some (.sem id)
  | .eventWoken id => some (.event id)
  | .mbSendWoken id _ _ _ _ => some (.mbSend id)
  | .mbRecvWoken id _ _ _ => some (.mbRecv id)
  | .mqSendWoken id _ _ _ _ _ => some (.mqSend id)
  | .mqRecvWoken id _ _ _ _ => some (.mqRecv id)
  | _ => none

namespace State

variable {T : Type*} [DecidableEq T] {k k' : State T} {t : T} {head : ListHead}
variable {ret : Option ℤ} {flag : IpcFlag} {suspendFlag : SuspendFlag} {timeout : ℤ} {pc : Pc}

/-- What `blockOn` does: the running thread is suspended; a thread that does not run stays. -/
theorem blockOn_cases (h : k.ReadyQueue) (hwait : head.isWait)
    (heq : k.blockOn t head flag suspendFlag timeout pc = some (k', ret)) :
    (k' = k.setPc t .idle ∧ ret = some (-rtError) ∧ (k.stat t).code ≠ .running) ∨
    ∃ s : Sched T, s.ReadyQueue ∧ s.waits = k.waits.block t head flag timeout ∧
      k.waits.suspended t = false ∧ ret = none ∧ k' = { k with toSched := s, pc := update k.pc t pc } := by
  obtain ⟨⟨s, ok⟩, hs, heq⟩ := map_eq_some_iff.mp heq
  have hqueue : s.ReadyQueue := by
    refine h.rtThreadSuspendToList ?_ hs
    intro _ hsome
    exact some.inj hsome ▸ hwait
  cases ok with
  | false =>
    obtain ⟨-, ⟨rfl, -, hcode⟩ | ⟨hfalse, -⟩⟩ := h.rtThreadSuspendToList_eq hs
    · obtain ⟨rfl, rfl⟩ : _ = k' ∧ _ = ret := Prod.mk.inj heq
      exact .inl ⟨rfl, rfl, hcode⟩
    · cases hfalse
  | true =>
    obtain ⟨hsusp, hwaits⟩ := h.waits_rtThreadSuspendToList hwait hs
    obtain ⟨rfl, rfl⟩ : _ = k' ∧ _ = ret := Prod.mk.inj heq
    have htimer := startTimerIf_queue (k := { k with toSched := s }) hqueue t timeout
    refine .inr ⟨_, htimer.rtSchedule, ?_, hsusp, rfl, ?_⟩
    · rw [htimer.waits_rtSchedule]
      unfold startTimerIf Waits.block
      split
      · exact (Sched.waits_rtTimerStart s t).trans (congrArg (Waits.timerStart · t) hwaits)
      · exact hwaits
    · unfold startTimerIf
      split <;> rfl

/-- What `rt_susp_list_dequeue` does to the first thread of a list. -/
theorem rtSuspListDequeue_cons {rest : List T} {threadError : ℤ} (h : k.ReadyQueue)
    (hwait : head.isWait) (hlist : k.lists head = t :: rest) (herror : 0 ≤ threadError) :
    ∃ s : Sched T, s.ReadyQueue ∧ s.waits = k.waits.ready t ∧ k.rtSuspListDequeue head threadError =
        if k.waits.canStop t then ({ k with toSched := s, error := update k.error t threadError }, some t)
        else ({ k with toSched := s }, none) := by
  have hsusp : k.waits.suspended t = true :=
    (h.queue.wait t head hwait (hlist ▸ mem_cons_self)).2
  obtain ⟨hok, hwaits⟩ := Sched.waits_rtSchedThreadReady k.toSched t
  rw [hsusp] at hok
  rw [hsusp] at hwaits
  refine ⟨(k.rtSchedThreadReady t).1, h.rtSchedThreadReady t, hwaits, ?_⟩
  unfold rtSuspListDequeue
  rw [hlist]
  dsimp only
  rw [hok, if_pos herror]
  rfl

/-- What `wakeFirst` does: nothing on an empty list; otherwise the first thread is to be woken. -/
theorem wakeFirst_cases (h : k.ReadyQueue) (hwait : head.isWait) :
    (k.lists head = [] ∧ k.wakeFirst head = k) ∨
    ∃ t rest, k.lists head = t :: rest ∧ k.waits.suspended t = true ∧
      ∃ s : Sched T, s.ReadyQueue ∧ s.waits = k.waits.ready t ∧
        k.wakeFirst head = if k.waits.canStop t then
          { k with toSched := s, error := update k.error t rtEok }
        else { k with toSched := s } := by
  cases hlist : k.lists head with
  | nil => exact .inl ⟨rfl, if_pos hlist⟩
  | cons t rest =>
    obtain ⟨s, hqueue, hwaits, hdequeue⟩ :=
      rtSuspListDequeue_cons h hwait hlist (le_refl rtEok)
    refine .inr ⟨t, rest, rfl, (h.queue.wait t head hwait (hlist ▸ mem_cons_self)).2,
      s.rtSchedule, hqueue.rtSchedule, hqueue.waits_rtSchedule.trans hwaits, ?_⟩
    unfold wakeFirst
    rw [if_neg (by simp [hlist]), hdequeue]
    split <;> rfl

/-- A wake-up changes the scheduler and an error code only. -/
theorem wakeFirst_frame (k : State T) (head : ListHead) : ∃ (s : Sched T) (error : T → ℤ),
    k.wakeFirst head = { k with toSched := s, error := error } := by
  unfold wakeFirst
  split
  · exact ⟨k.toSched, k.error, rfl⟩
  · unfold rtSuspListDequeue
    split
    · exact ⟨_, _, rfl⟩
    · dsimp only
      split <;> exact ⟨_, _, rfl⟩

@[simp] theorem wakeFirst_pc (k : State T) (head : ListHead) : (k.wakeFirst head).pc = k.pc := by
  obtain ⟨s, error, heq⟩ := wakeFirst_frame k head
  rw [heq]

@[simp] theorem wakeFirst_sem (k : State T) (head : ListHead) : (k.wakeFirst head).sem = k.sem := by
  obtain ⟨s, error, heq⟩ := wakeFirst_frame k head
  rw [heq]

/-! ## Threads that are started, and time -/

/-- An event that concerns no IPC object: threads are started and switched, and time goes on. -/
def backgroundEvent : KernelEvent T → Bool
  | .call (.startup _) => true
  | .call .yield => true
  | .isr (.startup _) => true
  | .timerDue _ => true
  | .timeout _ => true
  | .tick => true
  | .schedulerStart => true
  | .dispatch _ => true
  | _ => false

/-- What such an event does to the kernel. -/
inductive Background (k : State T) : State T → Prop where
  /-- Another thread runs. -/
  | unseen {s : Sched T} (tick : ℕ) : s.ReadyQueue → s.waits = k.waits →
      Background k { k with toSched := s, tick := tick }
  /-- A thread is started. -/
  | start {s : Sched T} {t : T} : s.ReadyQueue → k.waits.fresh t = true →
      s.waits = k.waits.start t → Background k { k with toSched := s }
  /-- The timer of a thread is due. -/
  | due {s : Sched T} {t : T} : s.ReadyQueue → k.waits.timerActive t = true →
      k.waits.timerFiring t = false → s.waits = k.waits.timerDue t →
      Background k { k with toSched := s }
  /-- A thread times out. -/
  | expire {s : Sched T} {t : T} : s.ReadyQueue → k.waits.timerFiring t = true →
      k.waits.suspended t = true → s.waits = (k.waits.timerFired t).wake t →
      Background k { k with toSched := s, error := update k.error t (-rtEtimeout) }

/-- Running a function of the scheduler that is not seen. -/
theorem Background.onSched {f : Sched T → Sched T} (tick : ℕ) (hqueue : (f k.toSched).ReadyQueue)
    (hwaits : (f k.toSched).waits = k.waits) : Background k { k.onSched f with tick := tick } :=
  .unseen tick hqueue hwaits

/-- The events that concern neither an IPC object nor a timer. -/
theorem exec_untimed {fuel : ℕ} {e : KernelEvent T} (h : k.ReadyQueue)
    (hevent : backgroundEvent e = true) (hdue : ∀ t, e ≠ .timerDue t) (htimeout : ∀ t, e ≠ .timeout t)
    (heq : exec fuel k e = some (k', ret)) :
    Background k k' ∧ k'.waits.timerFiring = k.waits.timerFiring := by
  have hunseen : ∀ {s : Sched T} tick, s.ReadyQueue → s.waits = k.waits →
      Background k { k with toSched := s, tick := tick } ∧ s.waits.timerFiring = k.waits.timerFiring :=
    fun tick hqueue hwaits => ⟨.unseen tick hqueue hwaits, congrArg Waits.timerFiring hwaits⟩
  have hstart : ∀ {t : T} {s : Sched T}, k.rtThreadStartup t = some s →
      Background k { k with toSched := s } ∧ s.waits.timerFiring = k.waits.timerFiring := by
    intro t s hs
    obtain ⟨hfresh, hwaits⟩ := h.waits_rtThreadStartup hs
    exact ⟨.start (h.rtThreadStartup hs) hfresh hwaits, by rw [hwaits, Waits.start]⟩
  cases e with
  | call c =>
    obtain ⟨_, -, heq⟩ := bind_eq_some_iff.mp heq
    cases c with
    | startup thread =>
      obtain ⟨s, hs, ⟨⟩⟩ := map_eq_some_iff.mp heq
      exact hstart hs
    | yield =>
      obtain ⟨cur, -, ⟨⟩⟩ := map_eq_some_iff.mp heq
      exact hunseen k.tick (h.rtThreadYield cur) (h.waits_rtThreadYield cur)
    | _ => cases hevent
  | isr c =>
    cases c with
    | startup thread =>
      obtain ⟨k1, hk1, ⟨⟩⟩ := map_eq_some_iff.mp heq
      obtain ⟨s, hs, rfl⟩ := map_eq_some_iff.mp hk1
      exact hstart hs
    | _ => cases hevent
  | proceed => cases hevent
  | timerDue thread => exact absurd rfl (hdue thread)
  | timeout thread => exact absurd rfl (htimeout thread)
  | tick =>
    obtain ⟨cur, -, heq⟩ := map_eq_some_iff.mp heq
    obtain rfl : _ = k' := (Prod.mk.inj heq).1
    have hwaits := h.waits_rtSchedTickIncrease cur
    exact ⟨.onSched _ (h.rtSchedTickIncrease cur) hwaits, by dsimp only [State.onSched]; rw [hwaits]⟩
  | schedulerStart =>
    simp only [exec] at heq
    split_ifs at heq
    obtain ⟨s, hs, ⟨⟩⟩ := map_eq_some_iff.mp heq
    exact hunseen k.tick (h.rtSystemSchedulerStart hs) (h.waits_rtSystemSchedulerStart hs)
  | dispatch thread =>
    obtain ⟨cur, hcur, heq⟩ := bind_eq_some_iff.mp heq
    split_ifs at heq with hready
    obtain rfl : _ = k' := (Prod.mk.inj (some.inj heq)).1
    exact hunseen k.tick (h.switchTo hcur (by simp) hready.1) (h.waits_switchTo (by simp) hready.1)

/-- The events that concern no IPC object. -/
theorem exec_background {fuel : ℕ} {e : KernelEvent T} (h : k.ReadyQueue)
    (hevent : backgroundEvent e = true) (heq : exec fuel k e = some (k', ret)) : Background k k' := by
  cases e with
  | timerDue thread =>
    obtain ⟨s, hs, ⟨⟩⟩ := map_eq_some_iff.mp heq
    obtain ⟨hactive, hfiring, hwaits⟩ := Sched.waits_timerDue hs
    exact .due (h.timerDue hs) hactive hfiring hwaits
  | timeout thread =>
    obtain ⟨k1, hk1, ⟨⟩⟩ := map_eq_some_iff.mp heq
    obtain ⟨s, hs, rfl⟩ := map_eq_some_iff.mp hk1
    obtain ⟨hfiring, hsusp, hwaits⟩ := h.waits_threadTimeout hs
    exact .expire (h.threadTimeout hs) hfiring hsusp hwaits
  | _ => exact (exec_untimed h hevent (by simp) (by simp) heq).1

/-! ## Where the threads are -/

/-- A thread that is not started is in no call, and a thread on a list is in the call that has put it
there. -/
structure Placed (k : State T) : Prop where
  queue : k.ReadyQueue
  fresh : ∀ t, k.waits.fresh t = true → k.pc t = .idle
  waiting : ∀ head t, t ∈ k.waits.waiting head → (k.pc t).waitsOn = some head

/-- Only the scheduler, the time and error codes change. -/
theorem Background.frame (h : Background k k') : ∃ (s : Sched T) (tick : ℕ) (error : T → ℤ),
    k' = { k with toSched := s, tick := tick, error := error } := by
  cases h <;> exact ⟨_, _, _, rfl⟩

/-- No thread becomes fresh, and none enters a list. -/
theorem Background.mono (h : Background k k') : k'.ReadyQueue ∧ k'.pc = k.pc ∧
    (∀ u, k'.waits.fresh u = true → k.waits.fresh u = true) ∧
    ∀ head u, u ∈ k'.waits.waiting head → u ∈ k.waits.waiting head := by
  cases h with
  | unseen _ hqueue hwaits | start hqueue _ hwaits | due hqueue _ _ hwaits | expire hqueue _ _ hwaits =>
    refine ⟨hqueue, rfl, fun u hu => ?_, fun head u hu => ?_⟩
    all_goals dsimp only at hu; rw [hwaits] at hu
    all_goals first
      | exact hu
      | exact (Waits.of_update_false hu).2
      | exact (mem_filter.mp hu).1

/-- The wait of a thread goes on as before. -/
structure Unmoved (k k' : State T) (t : T) : Prop where
  suspended : k'.waits.suspended t = k.waits.suspended t
  error : k'.error t = k.error t
  waiting : ∀ head, t ∈ k.waits.waiting head → t ∈ k'.waits.waiting head

/-- A suspended thread is resumed with an error code. -/
structure Resumed (error : ℤ) (k k' : State T) (t : T) : Prop where
  before : k.waits.suspended t = true
  suspended : k'.waits.suspended t = false
  error : k'.error t = error

omit [DecidableEq T] in
/-- The wait of a thread depends on the view of the scheduler and its error code. -/
theorem Unmoved.of_waits (hwaits : k'.waits = k.waits) (herror : k'.error t = k.error t) :
    Unmoved k k' t := by
  refine ⟨by rw [hwaits], herror, fun head hmem => ?_⟩
  rw [hwaits]
  exact hmem

/-- A thread is started, waits on or times out. -/
theorem Background.thread (h : Background k k') (u : T) :
    k.waits.fresh u = true ∨ Unmoved k k' u ∨ Resumed (-rtEtimeout) k k' u := by
  cases h with
  | unseen tick _ hwaits => exact .inr (.inl (.of_waits hwaits rfl))
  | @start s t _ hfresh hwaits =>
    by_cases hu : u = t
    · exact .inl (hu ▸ hfresh)
    · exact .inr (.inl ⟨by simp [hwaits, Waits.start, hu], rfl, fun head hmem => by rwa [hwaits]⟩)
  | due _ _ _ hwaits =>
    exact .inr (.inl ⟨by simp [hwaits, Waits.timerDue], rfl, fun head hmem => by rwa [hwaits]⟩)
  | @expire s t _ _ hsusp hwaits =>
    by_cases hu : u = t
    · subst hu
      exact .inr (.inr ⟨hsusp, by simp [hwaits, Waits.wake, Waits.setSuspended], update_self ..⟩)
    · refine .inr (.inl ⟨?_, update_of_ne hu .., fun head hmem => ?_⟩)
      · exact (congrArg (Waits.suspended · u) hwaits).trans (update_of_ne hu ..)
      · rw [hwaits]
        exact mem_filter.mpr ⟨hmem, by simpa using hu⟩

namespace Placed

omit [DecidableEq T] in
/-- No thread enters a list and no thread becomes fresh. -/
theorem mono (h : k.Placed) (hqueue : k'.ReadyQueue)
    (hfresh : ∀ u, k'.waits.fresh u = true → k.waits.fresh u = true)
    (hwaiting : ∀ head u, u ∈ k'.waits.waiting head → u ∈ k.waits.waiting head)
    (hpc : k'.pc = k.pc) : k'.Placed where
  queue := hqueue
  fresh u hu := hpc ▸ h.fresh u (hfresh u hu)
  waiting head u hu := hpc ▸ h.waiting head u (hwaiting head u hu)

omit [DecidableEq T] in
/-- Only the scheduler and the places matter. -/
theorem congr (h : k.Placed) (hsched : k'.toSched = k.toSched) (hpc : k'.pc = k.pc) : k'.Placed := by
  refine h.mono ?_ ?_ ?_ hpc
  · rw [hsched]
    exact h.queue
  · rw [hsched]
    exact fun _ hu => hu
  · rw [hsched]
    exact fun _ _ hu => hu

omit [DecidableEq T] in
/-- A thread that is not suspended is on no list. -/
theorem not_waiting (h : k.Placed) (hsusp : k.waits.suspended t = false) (head : ListHead) :
    t ∉ k.waits.waiting head := by
  intro hmem
  change t ∈ (if head.isWait then k.lists head else []) at hmem
  split at hmem
  next hwait =>
    exact h.queue.queue.not_waiting hsusp head hwait hmem
  · cases hmem

omit [DecidableEq T] in
/-- The first thread of a list is in the call that has put it there. -/
theorem waitsOn_of_head? (h : k.Placed) (hwait : head.isWait) (ht : (k.lists head).head? = some t) :
    (k.pc t).waitsOn = some head := by
  refine h.waiting head t ?_
  rw [Sched.waits_waiting hwait]
  exact List.mem_of_mem_head? ht

/-- A running thread goes to another place of its call. -/
theorem setPc (h : k.Placed) (hsusp : k.waits.suspended t = false)
    (hfresh : k.waits.fresh t = false) (pc : Pc) : (k.setPc t pc).Placed where
  queue := h.queue
  fresh := by
    intro u hu
    have hne : u ≠ t := by
      rintro rfl
      exact Bool.false_ne_true (hfresh.symm.trans hu)
    exact (update_of_ne hne ..).trans (h.fresh u hu)
  waiting := by
    intro head u hu
    have hne : u ≠ t := by
      rintro rfl
      exact h.not_waiting hsusp head hu
    exact (congrArg Pc.waitsOn (update_of_ne hne ..)).trans (h.waiting head u hu)

/-- Threads that are started, and time. -/
theorem background (h : k.Placed) (hback : Background k k') : k'.Placed := by
  obtain ⟨hqueue, hpc, hfresh, hwaiting⟩ := hback.mono
  exact h.mono hqueue hfresh hwaiting hpc

/-- A suspension, at a place that belongs to the list. -/
theorem blockOn (h : k.Placed) (hwait : head.isWait) (hpc : pc.waitsOn = some head)
    (hrunning : (k.stat t).code = .running)
    (heq : k.blockOn t head flag suspendFlag timeout pc = some (k', ret)) : k'.Placed := by
  obtain ⟨-, -, hcode⟩ | ⟨s, hqueue, hwaits, hsusp, -, rfl⟩ := blockOn_cases h.queue hwait heq
  · exact absurd hrunning hcode
  · refine ⟨hqueue, ?_, ?_⟩
    · intro u hu
      have hupdate : update k.waits.fresh t false u = true := by
        rw [← Waits.block_fresh, ← hwaits]
        exact hu
      obtain ⟨hne, hold⟩ := Waits.of_update_false hupdate
      exact (update_of_ne hne ..).trans (h.fresh u hold)
    · intro other u hu
      have hmem : u ∈ (k.waits.block t head flag timeout).waiting other :=
        (congrFun (congrArg Waits.waiting hwaits) other) ▸ hu
      rw [Waits.mem_block_waiting] at hmem
      dsimp only
      rcases hmem with hold | ⟨rfl, rfl⟩
      · have hne : u ≠ t := by
          rintro rfl
          exact h.not_waiting hsusp other hold
        rw [update_of_ne hne]
        exact h.waiting other u hold
      · rw [update_self]
        exact hpc

/-- A thread is made ready. -/
theorem ready {s : Sched T} (h : k.Placed) (hqueue : s.ReadyQueue) (hwaits : s.waits = k.waits.ready t) :
    ({ k with toSched := s }).Placed := by
  refine h.mono hqueue ?_ ?_ rfl
  · intro u hu
    exact Waits.fresh_of_ready ((congrFun (congrArg Waits.fresh hwaits) u).symm.trans hu)
  · intro other u hu
    exact Waits.mem_of_ready_waiting ((congrFun (congrArg Waits.waiting hwaits) other) ▸ hu)

/-- An attempt to wake the first thread of a list. -/
theorem wakeFirst (h : k.Placed) (hwait : head.isWait) : (k.wakeFirst head).Placed := by
  obtain ⟨-, heq⟩ | ⟨t, rest, -, -, s, hqueue, hwaits, heq⟩ := wakeFirst_cases h.queue hwait
  · rw [heq]
    exact h
  · have hs := h.ready hqueue hwaits
    rw [heq]
    split
    · exact hs.congr rfl rfl
    · exact hs

end Placed

omit [DecidableEq T] in
/-- No thread waits or is in a call at start-up. -/
theorem Booted.placed (h : k.Booted) : k.Placed := by
  obtain ⟨priorityMax, priority, tick, hmax, hprio, hsched⟩ := h.sched
  refine ⟨?_, fun t _ => h.pc t, ?_⟩
  · rw [hsched]
    exact Sched.readyQueue_boot tick hmax hprio
  · intro head t hmem
    rw [hsched] at hmem
    simp [Sched.waits, Sched.boot] at hmem

/-! ## Threads that have been woken -/

/-- A thread at such a place of its call has been woken with `RT_EOK` and has not gone on yet. -/
def Woken (k : State T) (place : Pc → Prop) (t : T) : Prop :=
  place (k.pc t) ∧ k.waits.suspended t = false ∧ k.error t = rtEok

section Woken

variable {place : Pc → Prop} {u : T}

omit [DecidableEq T] in
/-- A thread that has not changed. -/
theorem woken_congr (hpc : k'.pc u = k.pc u) (hsusp : k'.waits.suspended u = k.waits.suspended u)
    (herror : k'.error u = k.error u) : k'.Woken place u ↔ k.Woken place u := by
  unfold Woken
  rw [hpc, hsusp, herror]

/-- No thread is woken by a start or by time. -/
theorem woken_background (h : k.Placed) (hidle : ¬ place .idle) (hback : Background k k') (u : T) :
    k'.Woken place u ↔ k.Woken place u := by
  have hpc := congrFun hback.mono.2.1 u
  rcases hback.thread u with hfresh | hmoved | hres
  · have hnot : ¬ place (k.pc u) := (h.fresh u hfresh).symm ▸ hidle
    exact iff_of_false (fun hwoken => hnot (hpc ▸ hwoken.1)) fun hwoken => hnot hwoken.1
  · exact woken_congr hpc hmoved.suspended hmoved.error
  · refine iff_of_false (fun hwoken => ?_) fun hwoken => ?_
    · exact absurd (hres.error.symm.trans hwoken.2.2) (by decide)
    · exact absurd (hres.before.symm.trans hwoken.2.1) (by decide)

/-- A thread that goes to another place leaves the others. -/
theorem woken_setPc_of_ne (pc : Pc) (hu : u ≠ t) : (k.setPc t pc).Woken place u ↔ k.Woken place u :=
  woken_congr (update_of_ne hu ..) rfl rfl

theorem woken_blockOn_of_ne (h : k.ReadyQueue) (hwait : head.isWait)
    (heq : k.blockOn t head flag suspendFlag timeout pc = some (k', ret)) (hu : u ≠ t) :
    k'.Woken place u ↔ k.Woken place u := by
  obtain ⟨rfl, -⟩ | ⟨s, -, hwaits, -, -, rfl⟩ := blockOn_cases h hwait heq
  · exact woken_setPc_of_ne _ hu
  · refine woken_congr (update_of_ne hu ..) ?_ rfl
    rw [hwaits, Waits.block_suspended, update_of_ne hu]

/-- A suspended thread has not been woken. -/
theorem not_woken_blockOn (h : k.ReadyQueue) (hwait : head.isWait) (hrunning : (k.stat t).code = .running)
    (heq : k.blockOn t head flag suspendFlag timeout pc = some (k', ret)) : ¬ k'.Woken place t := by
  obtain ⟨-, -, hcode⟩ | ⟨s, -, hwaits, -, -, rfl⟩ := blockOn_cases h hwait heq
  · exact absurd hrunning hcode
  · rintro ⟨-, hsusp, -⟩
    rw [hwaits, Waits.block_suspended, update_self] at hsusp
    cases hsusp

/-- An attempt to wake the first thread of a list counts one more thread if it succeeds and the thread
is at such a place. -/
theorem hasCount_wakeFirst {n : ℕ} (h : k.Placed) (hwait : head.isWait)
    (hcount : Lib.HasCount (k.Woken place) n) : (Lib.HasCount ((k.wakeFirst head).Woken place) (n + 1) ∧
      ∃ t, (k.lists head).head? = some t ∧ k.waits.canStop t = true ∧ place (k.pc t)) ∨
    (Lib.HasCount ((k.wakeFirst head).Woken place) n ∧
      ∀ t, (k.lists head).head? = some t → k.waits.canStop t = false ∨ ¬ place (k.pc t)) := by
  obtain ⟨hnil, heq⟩ | ⟨t, rest, hlist, hsusp, s, -, hwaits, heq⟩ := wakeFirst_cases h.queue hwait
  · rw [heq]
    exact .inr ⟨hcount, by simp [hnil]⟩
  · have hbefore : ¬ k.Woken place t := by
      rintro ⟨-, hnot, -⟩
      exact absurd (hsusp.symm.trans hnot) (by decide)
    have hsuspended : s.waits.suspended = if k.waits.canStop t then update k.waits.suspended t false
        else k.waits.suspended := by
      rw [hwaits, Waits.ready_suspended]
    rw [heq]
    cases hstop : k.waits.canStop t with
    | false =>
      rw [hstop] at hsuspended
      refine .inr ⟨hcount.congr fun u => woken_congr rfl (congrFun hsuspended u) rfl, ?_⟩
      intro t' ht'
      rw [hlist] at ht'
      exact .inl (some.inj ht' ▸ hstop)
    | true =>
      rw [hstop] at hsuspended
      have hothers : ∀ u, u ≠ t →
          (({ k with toSched := s, error := update k.error t rtEok }).Woken place u ↔
            k.Woken place u) := by
        intro u hu
        refine woken_congr rfl ?_ (update_of_ne hu ..)
        exact (congrFun hsuspended u).trans (update_of_ne hu ..)
      have hself : ({ k with toSched := s, error := update k.error t rtEok }).Woken place t ↔
          place (k.pc t) := by
        constructor
        · exact fun hwoken => hwoken.1
        · intro hplace
          refine ⟨hplace, ?_, update_self ..⟩
          exact (congrFun hsuspended t).trans (update_self ..)
      by_cases hplace : place (k.pc t)
      · exact .inl ⟨hcount.gain hbefore (hself.mpr hplace) hothers, t, by simp [hlist], hstop, hplace⟩
      · refine .inr ⟨hcount.congr ?_, ?_⟩
        · intro u
          by_cases hu : u = t
          · rw [hu]
            exact iff_of_false (fun hwoken => hplace (hself.mp hwoken)) hbefore
          · exact hothers u hu
        · intro t' ht'
          rw [hlist] at ht'
          exact .inr (some.inj ht' ▸ hplace)

end Woken

end State

end RtThread.Kernel
