import Mathlib.Data.Fin.VecNotation
import RtThread.Kernel.Resumes
import RtThread.Kernel.Wakes

/-!
# The waiting threads of an event set

A thread that waits for events waits for all or for one of the events in `event_set`. A send wakes every
thread whose condition the new event set satisfies, and gives it the events before any of them are
cleared. So no thread stays suspended whose condition is satisfied.

A thread that is just timing out cannot be woken. A send that satisfies its condition in this moment
leaves it suspended, and clears the events that the thread will not receive.
-/

namespace RtThread.Kernel

open Lib Function List Option Sched Waits TransitionSystem

namespace EventFlags

variable {info : EventFlags} {wanted set set' : BitVec 32}

/-- More events satisfy no fewer conditions. -/
theorem satisfiedBy_mono (hsub : set' &&& set = set') (h : info.satisfiedBy wanted set' = true) :
    info.satisfiedBy wanted set = true := by
  unfold satisfiedBy at h ⊢
  split
  next hand =>
    rw [if_pos hand, decide_eq_true_eq] at h
    rw [decide_eq_true_eq, ← h, BitVec.and_assoc, hsub]
  next hand =>
    rw [if_neg hand, decide_eq_true_eq] at h
    rw [decide_eq_true_eq]
    intro hzero
    apply h
    rw [← hsub, BitVec.and_comm set', ← BitVec.and_assoc, hzero]
    exact BitVec.zero_and

/-- A thread whose condition is satisfied receives those of its events that are set. -/
theorem received_eq (h : info.satisfiedBy wanted set = true) :
    info.received wanted set = wanted &&& set := by
  unfold satisfiedBy at h
  unfold received
  split
  next hand =>
    rw [if_pos hand, decide_eq_true_eq] at h
    exact h.symm
  · rfl

end EventFlags

theorem and_not_and_self (set clear : BitVec 32) : (set &&& ~~~clear) &&& set = set &&& ~~~clear := by
  rw [BitVec.and_comm, ← BitVec.and_assoc, BitVec.and_self]

/-- A thread that a send has resumed: what it waited for, and the event set at that send. -/
structure Grant where
  id : ℕ
  info : EventFlags
  wanted : BitVec 32
  set : BitVec 32
  deriving DecidableEq

namespace State

variable {T : Type*} {k k' k'' : State T} {t u : T} {id : ℕ}
variable {e : KernelEvent T} {ret : Option ℤ}

/-- The condition of a thread is satisfied by the event set. -/
def EventSatisfied (k : State T) (id : ℕ) (t : T) : Prop :=
  (k.eventInfo t).satisfiedBy (k.eventSet t) (k.event id).set = true

/-- Where a thread is in its receive, with what a send has granted it. -/
inductive EventThread (k : State T) (given : Option Grant) (t : T) : Prop where
  | idle : k.pc t = .idle → given = none → EventThread k given t
  | waiting {id : ℕ} : k.pc t = .eventWoken id → given = none → k.waits.suspended t = true →
      t ∈ k.waits.waiting (.event id) →
      ((k.eventInfo t).and = true ∨ (k.eventInfo t).or = true) → ¬ k.EventSatisfied id t →
      EventThread k given t
  | failed {id : ℕ} : k.pc t = .eventWoken id → given = none → k.waits.suspended t = false →
      k.error t ≠ rtEok → EventThread k given t
  | served {g : Grant} : k.pc t = .eventWoken g.id → given = some g → k.waits.suspended t = false →
      k.error t = rtEok → g.info.satisfiedBy g.wanted g.set = true →
      k.eventSet t = g.wanted &&& g.set → EventThread k given t

namespace EventThread

variable {given : Option Grant}

/-- The thread is left alone, and an event set that changes satisfies its condition no sooner. -/
theorem unmoved (h : EventThread k given t) (hmoved : Unmoved k k' t) (hpc : k'.pc t = k.pc t)
    (hinfo : k'.eventInfo t = k.eventInfo t) (hset : k'.eventSet t = k.eventSet t)
    (hsat : ∀ id, t ∈ k.waits.waiting (.event id) → ¬ k.EventSatisfied id t →
      ¬ k'.EventSatisfied id t) : EventThread k' given t := by
  cases h with
  | idle hplace hgiven => exact .idle (hpc.trans hplace) hgiven
  | waiting hplace hgiven hsusp hmem hflags hnot =>
    exact .waiting (hpc.trans hplace) hgiven (hmoved.suspended.trans hsusp)
      (hmoved.waiting _ hmem) (by rwa [hinfo]) (hsat _ hmem hnot)
  | failed hplace hgiven hsusp herror =>
    exact .failed (hpc.trans hplace) hgiven (hmoved.suspended.trans hsusp) (by rwa [hmoved.error])
  | served hplace hgiven hsusp herror hsat hrecv =>
    exact .served (hpc.trans hplace) hgiven (hmoved.suspended.trans hsusp)
      (hmoved.error.trans herror) hsat (hset.trans hrecv)

/-- The thread is resumed without its events. -/
theorem resumed {error : ℤ} (h : EventThread k given t) (hres : Resumed error k k' t)
    (hpc : k'.pc t = k.pc t) (herror : error ≠ rtEok) : EventThread k' given t := by
  have hfalse : k.waits.suspended t = false → EventThread k' given t := fun hsusp =>
    absurd (hsusp.symm.trans hres.before) (by decide)
  cases h with
  | idle hplace hgiven => exact .idle (hpc.trans hplace) hgiven
  | waiting hplace hgiven =>
    exact .failed (hpc.trans hplace) hgiven hres.suspended (by rwa [hres.error])
  | failed _ _ hsusp | served _ _ hsusp => exact hfalse hsusp

/-- A thread that waits on a list of an event set. -/
theorem of_waiting (h : EventThread k given t) (hplaced : k.Placed)
    (hmem : t ∈ k.waits.waiting (.event id)) :
    k.pc t = .eventWoken id ∧ ((k.eventInfo t).and = true ∨ (k.eventInfo t).or = true) ∧
      ¬ k.EventSatisfied id t := by
  have hplace := hplaced.waiting _ t hmem
  cases h with
  | idle hpc =>
    rw [hpc] at hplace
    cases hplace
  | waiting hpc _ _ _ hflags hnot =>
    rw [hpc] at hplace
    obtain rfl : _ = id := ListHead.event.inj (some.inj hplace)
    exact ⟨hpc, hflags, hnot⟩
  | failed _ _ hsusp | served _ _ hsusp => exact absurd hmem (hplaced.not_waiting hsusp _)

end EventThread

variable {given : T → Option Grant} {set : BitVec 32}

theorem setEvent_self (k : State T) (id : ℕ) (event : Event) : (k.setEvent id event).event id = event :=
  update_self ..

theorem setEvent_of_ne {other : ℕ} (k : State T) (event : Event) (h : other ≠ id) :
    (k.setEvent id event).event other = k.event other :=
  update_of_ne h ..

/-- A thread that does not make the call, when no event set has become larger. -/
theorem EventThread.of_ne {given : Option Grant} (h : EventThread k given u) (hmoved : Unmoved k k' u)
    (hpc : k'.pc u = k.pc u) (hinfo : k'.eventInfo u = k.eventInfo u) (hset : k'.eventSet u = k.eventSet u)
    (hevent : ∀ other, (k'.event other).set &&& (k.event other).set = (k'.event other).set) :
    EventThread k' given u := by
  refine h.unmoved hmoved hpc hinfo hset fun other _ hnot hsat => hnot ?_
  unfold EventSatisfied at hsat ⊢
  rw [hinfo, hset] at hsat
  exact EventFlags.satisfiedBy_mono (hevent other) hsat

/-- Some threads are resumed with their events, and the others wait on. -/
structure Gives (set : BitVec 32) (p : T → Prop) (k k' : State T) : Prop where
  queue : k'.ReadyQueue
  fresh : ∀ u, k'.waits.fresh u = true → k.waits.fresh u = true
  waiting : ∀ head u, u ∈ k'.waits.waiting head → u ∈ k.waits.waiting head
  pc : k'.pc = k.pc
  eventInfo : k'.eventInfo = k.eventInfo
  event : k'.event = k.event
  given : ∀ u, p u → Resumed rtEok k k' u ∧
    k'.eventSet u = (k.eventInfo u).received (k.eventSet u) set
  kept : ∀ u, ¬ p u → Unmoved k k' u ∧ k'.eventSet u = k.eventSet u ∧
    k'.waits.canStop u = k.waits.canStop u

/-- The threads on the list whose conditions the events satisfy. -/
def IsServed (k : State T) (set : BitVec 32) (list : List T) (t : T) : Prop :=
  t ∈ list ∧ (k.eventInfo t).satisfiedBy (k.eventSet t) set = true

/-- One more thread on the list. -/
theorem isServed_cons {list : List T} : k.IsServed set (t :: list) u ↔
    u = t ∧ (k.eventInfo t).satisfiedBy (k.eventSet t) set = true ∨ k.IsServed set list u := by
  rw [IsServed, mem_cons, or_and_right]
  exact or_congr_left (and_congr_right fun hu => by rw [hu])

theorem Gives.refl {p : T → Prop} (h : k.ReadyQueue) (hp : ∀ u, ¬ p u) : Gives set p k k :=
  ⟨h, fun _ hu => hu, fun _ _ hu => hu, rfl, rfl, rfl, fun u hu => absurd hu (hp u),
    fun _ _ => ⟨.of_waits rfl rfl, rfl, rfl⟩⟩

/-- One thread is given its events, and then others. -/
theorem Gives.cons {p q : T → Prop} (h : Gives set (· = t) k k')
    (h' : Gives set p k' k'') (ht : ¬ p t) (hq : ∀ u, q u ↔ u = t ∨ p u) : Gives set q k k'' where
  queue := h'.queue
  fresh u hu := h.fresh u (h'.fresh u hu)
  waiting head u hu := h.waiting head u (h'.waiting head u hu)
  pc := h'.pc.trans h.pc
  eventInfo := h'.eventInfo.trans h.eventInfo
  event := h'.event.trans h.event
  given u hu := by
    rcases (hq u).mp hu with rfl | hu
    · obtain ⟨hres, hset⟩ := h.given u rfl
      obtain ⟨hmoved, hsame, -⟩ := h'.kept u ht
      exact ⟨hres.unmoved hmoved, hsame.trans hset⟩
    · have hne : u ≠ t := fun heq => ht (heq ▸ hu)
      obtain ⟨hmoved, hsame, -⟩ := h.kept u hne
      obtain ⟨hres, hset⟩ := h'.given u hu
      refine ⟨hmoved.resumed hres, ?_⟩
      rw [hset, hsame, h.eventInfo]
  kept u hu := by
    rw [hq, not_or] at hu
    obtain ⟨hmoved, hset, hstop⟩ := h.kept u hu.1
    obtain ⟨hmoved', hset', hstop'⟩ := h'.kept u hu.2
    exact ⟨hmoved.trans hmoved', hset'.trans hset, hstop'.trans hstop⟩

/-- The events that are sent in this event. -/
def sentEvent : KernelEvent T → Option (ℕ × BitVec 32)
  | .call (.eventSend id set) => some (id, set)
  | .isr (.eventSend id set) => some (id, set)
  | _ => none

/-- No send satisfies the condition of a thread that is just timing out. -/
def EventSendOk (k : State T) (e : KernelEvent T) : Prop :=
  ∀ sent ∈ sentEvent e, ∀ t ∈ k.lists (.event sent.1),
    (k.eventInfo t).satisfiedBy (k.eventSet t) ((k.event sent.1).set ||| sent.2) = true →
    k.ttmrSet t = true → k.timerActive t = true

/-- A send that meets the condition finds every thread it serves able to be woken. -/
theorem EventSendOk.canStop (hok : EventSendOk k e) (hsent : sentEvent e = some (id, set)) (t : T)
    (ht : k.IsServed ((k.event id).set ||| set) (k.lists (.event id)) t) : k.waits.canStop t = true := by
  have hactive := hok (id, set) hsent t ht.1 ht.2
  unfold Waits.canStop
  cases hset : k.ttmrSet t with
  | true => simp [waits, hactive hset]
  | false => simp [waits, hset]

variable [DecidableEq T]

/-! ## Threads that wait for events -/

/-- The threads are where their receives have put them. -/
structure EventOk (k : State T) (given : T → Option Grant) : Prop extends k.Placed where
  thread : ∀ t, EventThread k (given t) t

/-- Threads that are started, and time. -/
theorem EventOk.background (h : EventOk k given) (hback : Background k k') : EventOk k' given := by
  refine ⟨h.toPlaced.background hback, fun u => ?_⟩
  have hthread := h.thread u
  have hcases := hback.thread u
  obtain ⟨s, tick, error, rfl⟩ := hback.frame
  rcases hcases with hfresh | hmoved | hres
  · cases hthread with
    | idle hplace hgiven => exact .idle hplace hgiven
    | _ hplace => exact absurd ((h.fresh u hfresh).symm.trans hplace) (by simp)
  · exact hthread.unmoved hmoved rfl rfl rfl fun _ _ hnot => hnot
  · exact hthread.resumed hres rfl (by decide)

/-! ## Receives -/

/-- The running thread has noted what it waits for, and is suspended. -/
theorem EventOk.blockOn {k1 : State T} {flag : IpcFlag} {suspendFlag : SuspendFlag} {timeout : ℤ}
    (h : EventOk k given)
    (heq : k1.blockOn t (.event id) flag suspendFlag timeout (.eventWoken id) = some (k', ret))
    (hrunning : (k.stat t).code = .running) (hgiven : given t = none)
    (hsched : k1.toSched = k.toSched) (hpc : k1.pc = k.pc) (hevent : k1.event = k.event)
    (hframe : ∀ u, u ≠ t → k1.error u = k.error u ∧ k1.eventInfo u = k.eventInfo u ∧
      k1.eventSet u = k.eventSet u) (hflags : (k1.eventInfo t).and = true ∨ (k1.eventInfo t).or = true)
    (hnot : ¬ k1.EventSatisfied id t) : EventOk k' given := by
  have hplaced : k1.Placed := h.toPlaced.congr hsched hpc
  have hrunning1 : (k1.stat t).code = .running := by
    rw [hsched]
    exact hrunning
  refine ⟨hplaced.blockOn rfl rfl hrunning1 heq, fun u => ?_⟩
  obtain ⟨-, -, hcode⟩ | ⟨s, -, hwaits, -, -, rfl⟩ := blockOn_cases hplaced.queue rfl heq
  · exact absurd hrunning1 hcode
  by_cases hu : u = t
  · subst hu
    refine .waiting (update_self ..) hgiven ?_ ?_ hflags hnot
    · rw [hwaits, block_suspended, update_self]
    · rw [hwaits]
      exact mem_block_waiting.mpr (.inr ⟨rfl, rfl⟩)
  · obtain ⟨herror, hinfo, hset⟩ := hframe u hu
    rw [hsched] at hwaits
    refine (h.thread u).unmoved ⟨?_, herror, fun head hmem => ?_⟩
      ((update_of_ne hu ..).trans (congrFun hpc u)) hinfo hset fun other _ hold => ?_
    · rw [hwaits, block_suspended]
      exact update_of_ne hu ..
    · rw [hwaits]
      exact mem_block_waiting.mpr (.inl hmem)
    · unfold EventSatisfied at hold ⊢
      rwa [hinfo, hset, hevent]

/-- `rt_event_recv`, up to its return or its suspension. -/
theorem EventOk.rtEventRecv {option : EventFlags} {timeout : ℤ} (h : EventOk k given)
    (hcaller : k.caller = some t)
    (heq : k.rtEventRecv id set option timeout = some (k', ret)) : EventOk k' given := by
  obtain ⟨hcur, hrunning, hidle⟩ := caller_eq hcaller
  have hgiven : given t = none := by
    cases h.thread t with
    | idle _ hnone => exact hnone
    | _ hplace => exact absurd (hidle.symm.trans hplace) (by simp)
  have hother : ∀ k1 : State T, k1.toSched = k.toSched → k1.pc = k.pc →
      (∀ u, u ≠ t → k1.error u = k.error u ∧ k1.eventInfo u = k.eventInfo u ∧
        k1.eventSet u = k.eventSet u) →
      (∀ other, (k1.event other).set &&& (k.event other).set = (k1.event other).set) →
      EventOk k1 given := by
    intro k1 hsched hpc hframe hevent
    refine ⟨h.toPlaced.congr hsched hpc, fun u => ?_⟩
    by_cases hu : u = t
    · subst hu
      exact .idle ((congrFun hpc u).trans hidle) hgiven
    · obtain ⟨herror, hinfo, hset⟩ := hframe u hu
      exact (h.thread u).of_ne (.of_waits (by rw [hsched]) herror) (congrFun hpc u) hinfo hset hevent
  unfold State.rtEventRecv eventRecv at heq
  rw [hcur] at heq
  dsimp only at heq
  split at heq
  · cases heq
    exact h
  obtain ⟨hoption, heq⟩ := ite_none_right_eq_some.mp heq
  have hcond : (if option.and = true then decide ((k.event id).set &&& set = set)
      else decide ((k.event id).set &&& set ≠ 0)) = option.satisfiedBy set (k.event id).set := by
    unfold EventFlags.satisfiedBy
    rw [BitVec.and_comm]
  rw [show (k.setError t (-rtEintr)).event = k.event from rfl, hcond] at heq
  split at heq
  · cases heq
    have hframe : ∀ u, u ≠ t → update (update k.error t (-rtEintr)) t rtEok u = k.error u ∧
        update k.eventInfo t option u = k.eventInfo u ∧
        update k.eventSet t ((k.event id).set &&& set) u = k.eventSet u := fun u hu =>
      ⟨(update_of_ne hu ..).trans (update_of_ne hu ..), update_of_ne hu .., update_of_ne hu ..⟩
    split
    · refine hother _ rfl rfl hframe ?_
      exact (forall_update_iff k.event fun other x => x.set &&& (k.event other).set = x.set).mpr
        ⟨and_not_and_self _ _, fun _ _ => BitVec.and_self⟩
    · exact hother _ rfl rfl hframe fun _ => BitVec.and_self
  rename_i hnot
  split at heq
  · cases heq
    refine hother _ rfl rfl (fun u hu => ⟨?_, rfl, rfl⟩) fun _ => BitVec.and_self
    exact (update_of_ne hu ..).trans (update_of_ne hu ..)
  · refine h.blockOn heq hrunning hgiven rfl rfl rfl (fun u hu => ?_) ?_ ?_
    · exact ⟨update_of_ne hu .., update_of_ne hu .., update_of_ne hu ..⟩
    · dsimp only
      rw [update_self]
      exact hoption
    · unfold EventSatisfied
      dsimp only
      rw [update_self, update_self]
      exact hnot

/-- What a thread receives when it goes on. -/
theorem EventThread.proceed {g : Grant} (h : EventThread k (some g) t) (fuel : ℕ) :
    ∃ k', State.proceed fuel k t = some (k', some rtEok) ∧ k'.recved t = g.wanted &&& g.set := by
  cases h with
  | served hpc hgiven _ herror _ hset =>
    cases hgiven
    have hnot : ¬ k.error t ≠ rtEok := fun hne => hne herror
    refine ⟨{ k.setPc t .idle with recved := update k.recved t (k.eventSet t) }, ?_, ?_⟩
    · unfold State.proceed
      rw [hpc]
      unfold eventRecvWoken
      rw [herror]
      rfl
    · exact (update_self ..).trans hset
  | _ _ hgiven => cases hgiven

/-- A thread goes on after its wait. -/
theorem EventOk.eventRecvWoken (h : EventOk k given) (hrunning : (k.stat t).code = .running) :
    EventOk (k.eventRecvWoken t).1 (update given t none) := by
  obtain ⟨hsusp, hfresh⟩ := view_of_running hrunning
  have hframe : (k.eventRecvWoken t).1.toSched = k.toSched ∧
      (k.eventRecvWoken t).1.pc = update k.pc t .idle ∧
      (k.eventRecvWoken t).1.error = k.error ∧ (k.eventRecvWoken t).1.eventInfo = k.eventInfo ∧
      (k.eventRecvWoken t).1.eventSet = k.eventSet ∧ (k.eventRecvWoken t).1.event = k.event := by
    unfold State.eventRecvWoken
    dsimp only
    split <;> exact ⟨rfl, rfl, rfl, rfl, rfl, rfl⟩
  obtain ⟨hsched, hpc, herror, hinfo, hset, hevent⟩ := hframe
  refine ⟨(h.toPlaced.setPc hsusp hfresh .idle).congr hsched hpc, fun u => ?_⟩
  by_cases hu : u = t
  · subst hu
    exact .idle ((congrFun hpc u).trans (update_self ..)) (update_self ..)
  · rw [update_of_ne hu]
    refine (h.thread u).of_ne (.of_waits (by rw [hsched]) (congrFun herror u)) ?_ (congrFun hinfo u)
      (congrFun hset u) fun _ => by rw [hevent, BitVec.and_self]
    exact (congrFun hpc u).trans (update_of_ne hu ..)

/-- `rt_event_control` with `RT_IPC_CMD_RESET`. -/
theorem EventOk.rtEventReset (h : EventOk k given) (id : ℕ) : EventOk (k.rtEventReset id).1 given := by
  have hresume : Resumes rtError k (k.rtSuspListResumeAll (.event id) rtError) :=
    rtSuspListResumeAll_resumes h.toPlaced rfl (by decide)
  obtain ⟨-, s, error, hframe⟩ :=
    wakes_rtSuspListResumeAll rtError (rfl : (ListHead.event id).isWait) h.queue
  unfold State.rtEventReset
  rw [hframe] at hresume ⊢
  have hcleared : EventOk (State.setEvent { k with toSched := s, error := error } id
      { k.event id with set := 0 }) given := by
    refine ⟨hresume.placed.congr rfl rfl, fun u => ?_⟩
    rcases hresume.thread u with hmoved | hres
    · refine (h.thread u).of_ne { hmoved with } rfl rfl rfl ?_
      exact (forall_update_iff k.event fun other x => x.set &&& (k.event other).set = x.set).mpr
        ⟨BitVec.zero_and, fun _ _ => BitVec.and_self⟩
    · exact (h.thread u).resumed { hres with } rfl (by decide)
  exact hcleared.background (.unseen k.tick hresume.placed.queue.rtSchedule
    hresume.placed.queue.waits_rtSchedule)

/-! ## Sends -/

/-- One thread is given its events. -/
theorem eventGive_gives (h : k.ReadyQueue) (hsusp : k.waits.suspended t = true)
    (hstop : k.waits.canStop t = true) (set : BitVec 32) :
    Gives set (· = t) k (k.eventGive t ((k.eventInfo t).received (k.eventSet t) set)) := by
  have hwaits := (waits_rtSchedThreadReady k.toSched t).2
  rw [hsusp] at hwaits
  change _ = k.waits.ready t at hwaits
  unfold eventGive
  have hqueue := h.rtSchedThreadReady t
  generalize (k.rtSchedThreadReady t).1 = s at hwaits hqueue
  refine ⟨hqueue, ?_, ?_, rfl, rfl, rfl, ?_, ?_⟩
  · intro u hu
    exact fresh_of_ready ((congrFun (congrArg fresh hwaits) u).symm.trans hu)
  · intro head u hu
    exact mem_of_ready_waiting ((congrFun (congrArg waiting hwaits) head) ▸ hu)
  · rintro u rfl
    exact ⟨resumed_of_ready hwaits hsusp hstop (update_self ..), update_self ..⟩
  · intro u hu
    refine ⟨unmoved_of_ready hwaits hu (update_of_ne hu ..), update_of_ne hu .., ?_⟩
    change s.waits.canStop u = _
    rw [hwaits, ready_canStop_of_ne _ hu]

/-- The loop of `rt_event_send` gives every thread of the list its events when they satisfy its
condition. -/
theorem eventSendLoop_gives {needClear : BitVec 32} {needSchedule : Bool} {list : List T}
    (h : k.ReadyQueue) (hnodup : list.Nodup) (hlist : ∀ t ∈ list, k.waits.suspended t = true ∧
      ((k.eventInfo t).and = true ∨ (k.eventInfo t).or = true))
    (hstop : ∀ t, k.IsServed set list t → k.waits.canStop t = true) :
    Gives set (k.IsServed set list) k (eventSendLoop set list k needClear needSchedule).1 ∧
      (eventSendLoop set list k needClear needSchedule).2.2.2 = true := by
  induction list generalizing k needClear needSchedule with
  | nil => exact ⟨.refl h (by simp [IsServed]), rfl⟩
  | cons t rest ih =>
    obtain ⟨hnot, hnodup⟩ := nodup_cons.mp hnodup
    obtain ⟨hsusp, hflags⟩ := hlist t mem_cons_self
    rw [eventSendLoop_cons]
    rw [if_pos hflags]
    split
    next hsat =>
      have hgive := eventGive_gives h hsusp (hstop t ⟨mem_cons_self, hsat⟩) set
      generalize k.eventGive t ((k.eventInfo t).received (k.eventSet t) set) = k1 at hgive ⊢
      have hkept : ∀ u ∈ rest, Unmoved k k1 u ∧ k1.eventSet u = k.eventSet u ∧
          k1.waits.canStop u = k.waits.canStop u := fun u hu =>
        hgive.kept u fun heq => hnot (heq ▸ hu)
      have hserved : ∀ u, k1.IsServed set rest u ↔ k.IsServed set rest u := by
        intro u
        refine and_congr_right fun hu => ?_
        rw [hgive.eventInfo, (hkept u hu).2.1]
      obtain ⟨hrest, hok⟩ := ih hgive.queue hnodup (fun u hu => by
          rw [(hkept u hu).1.suspended, hgive.eventInfo]
          exact hlist u (mem_cons_of_mem t hu))
        (fun u hu => by
          rw [(hkept u hu.1).2.2]
          exact hstop u (isServed_cons.mpr (.inr ((hserved u).mp hu))))
      refine ⟨hgive.cons hrest (fun ht => hnot ht.1) fun u => ?_, hok⟩
      rw [hserved, isServed_cons, and_iff_left hsat]
    next hsat =>
      have hserved : k.IsServed set (t :: rest) = k.IsServed set rest := by
        funext u
        simp [isServed_cons, hsat]
      rw [hserved] at hstop ⊢
      exact ih h hnodup (fun u hu => hlist u (mem_cons_of_mem t hu)) hstop

/-- The grants after a send: a thread that has left the list was resumed. -/
def grants (id : ℕ) (set : BitVec 32) (k k' : State T) (given : T → Option Grant) (t : T) :
    Option Grant :=
  if t ∈ k.lists (.event id) ∧ t ∉ k'.lists (.event id) then
    some ⟨id, k.eventInfo t, k.eventSet t, (k.event id).set ||| set⟩
  else given t

/-- The grants depend on the list of the event set only. -/
theorem grants_congr (h : k''.lists (.event id) = k'.lists (.event id)) :
    grants id set k k'' given = grants id set k k' given := by
  unfold grants
  rw [h]

/-- The threads are resumed with their events, and then events are cleared. -/
theorem EventOk.gives {k2 : State T} {event : Event} (h : EventOk k given)
    (hgives : Gives ((k.event id).set ||| set)
      (k.IsServed ((k.event id).set ||| set) (k.lists (.event id))) (k.setEvent id event) k2)
    (hsched : k'.toSched = k2.toSched) (hpc : k'.pc = k2.pc) (herror : k'.error = k2.error)
    (hinfo : k'.eventInfo = k2.eventInfo) (hset : k'.eventSet = k2.eventSet)
    (hless : (k'.event id).set &&& ((k.event id).set ||| set) = (k'.event id).set)
    (hother : ∀ other, other ≠ id → k'.event other = k.event other) :
    EventOk k' (grants id set k k' given) ∧
      ∀ t, k.IsServed ((k.event id).set ||| set) (k.lists (.event id)) t → t ∉ k'.lists (.event id) := by
  have hplaced : k'.Placed :=
    (h.toPlaced.mono hgives.queue hgives.fresh hgives.waiting hgives.pc).congr hsched hpc
  have hpc' : k'.pc = k.pc := hpc.trans hgives.pc
  have hinfo' : k'.eventInfo = k.eventInfo := hinfo.trans hgives.eventInfo
  have hlist : ∀ u, u ∈ k'.lists (.event id) ↔ u ∈ k'.waits.waiting (.event id) := fun u => by
    rw [waits_waiting rfl]
  have hsusp : ∀ u, k.IsServed ((k.event id).set ||| set) (k.lists (.event id)) u →
      k'.waits.suspended u = false := fun u hu => by
    rw [hsched]
    exact (hgives.given u hu).1.suspended
  have hleft : ∀ u, k.IsServed ((k.event id).set ||| set) (k.lists (.event id)) u →
      u ∉ k'.lists (.event id) := fun u hu => by
    rw [hlist]
    exact hplaced.not_waiting (hsusp u hu) _
  refine ⟨⟨hplaced, fun u => ?_⟩, hleft⟩
  by_cases hu : k.IsServed ((k.event id).set ||| set) (k.lists (.event id)) u
  · obtain ⟨hres, hrecv⟩ := hgives.given u hu
    have hmem : u ∈ k.waits.waiting (.event id) := by
      exact hu.1
    rw [grants, if_pos ⟨hu.1, hleft u hu⟩]
    refine .served ?_ rfl (hsusp u hu) ?_ hu.2 ?_
    · rw [hpc']
      exact ((h.thread u).of_waiting h.toPlaced hmem).1
    · rw [herror]
      exact hres.error
    · rw [hset, hrecv]
      exact EventFlags.received_eq hu.2
  · obtain ⟨hmoved, hsame, -⟩ := hgives.kept u hu
    have hmoved' : Unmoved k k' u := by
      refine ⟨?_, ?_, ?_⟩
      · rw [hsched]
        exact hmoved.suspended
      · rw [herror]
        exact hmoved.error
      · rw [hsched]
        exact hmoved.waiting
    have hstay : ¬ (u ∈ k.lists (.event id) ∧ u ∉ k'.lists (.event id)) := by
      rintro ⟨hin, hout⟩
      rw [hlist] at hout
      exact hout (hmoved'.waiting _ hin)
    rw [grants, if_neg hstay]
    have hset' : k'.eventSet u = k.eventSet u := (congrFun hset u).trans hsame
    refine (h.thread u).unmoved hmoved' (congrFun hpc' u) (congrFun hinfo' u) hset' ?_
    intro other hmem hnot hsat
    unfold EventSatisfied at hnot hsat
    rw [hinfo', hset'] at hsat
    by_cases hid : other = id
    · subst hid
      exact hu ⟨hmem, EventFlags.satisfiedBy_mono hless hsat⟩
    · rw [hother other hid] at hsat
      exact hnot hsat

/-- The loop of a send, after the events have been set. -/
theorem EventOk.eventSendLoop (h : EventOk k given)
    (event : Event) (hstop : ∀ t, k.IsServed set (k.lists (.event id)) t → k.waits.canStop t = true) :
    Gives set (k.IsServed set (k.lists (.event id))) (k.setEvent id event)
      (eventSendLoop set ((k.setEvent id event).lists (.event id)) (k.setEvent id event) 0 false).1 ∧
    (eventSendLoop set ((k.setEvent id event).lists (.event id)) (k.setEvent id event) 0
      false).2.2.2 = true := by
  refine eventSendLoop_gives (k := k.setEvent id event) h.queue (h.queue.queue.nodup _) ?_ hstop
  intro t ht
  refine ⟨(h.queue.queue.wait t _ rfl ht).2, ?_⟩
  exact ((h.thread t).of_waiting h.toPlaced ht).2.1

/-- `rt_event_send`, when no thread whose condition it satisfies is just timing out: these threads leave
the list with their events. -/
theorem EventOk.rtEventSend (h : EventOk k given)
    (hstop : ∀ t, k.IsServed ((k.event id).set ||| set) (k.lists (.event id)) t →
      k.waits.canStop t = true) :
    EventOk (k.rtEventSend id set).1 (grants id set k (k.rtEventSend id set).1 given) ∧
      ∀ t, k.IsServed ((k.event id).set ||| set) (k.lists (.event id)) t →
        t ∉ (k.rtEventSend id set).1.lists (.event id) := by
  unfold State.rtEventSend
  split
  next hzero =>
    have hsame : grants id set k k given = given := by
      funext t
      exact if_neg fun hboth => hboth.2 hboth.1
    have hor : (k.event id).set ||| (0 : BitVec 32) = (k.event id).set := BitVec.or_zero
    rw [hsame, hzero, hor]
    refine ⟨h, fun t ht _ => ?_⟩
    exact ((h.thread t).of_waiting h.toPlaced ht.1).2.2 ht.2
  obtain ⟨hgives, hok⟩ := h.eventSendLoop { k.event id with set := (k.event id).set ||| set } hstop
  dsimp only at hgives hok ⊢
  generalize State.eventSendLoop ((k.event id).set ||| set) (T := T) _ _ 0 false = r at hgives hok ⊢
  obtain ⟨k2, clear, needSchedule, ok⟩ := r
  obtain rfl : ok = true := hok
  rw [if_pos rfl]
  have hk2 : k2.event id = { k.event id with set := (k.event id).set ||| set } := by
    rw [hgives.event, setEvent_self]
  have hcleared := h.gives hgives
    (rfl : (k2.setEvent id { k2.event id with set := (k2.event id).set &&& ~~~clear }).toSched = _)
    rfl rfl rfl rfl (by rw [setEvent_self, hk2]; exact and_not_and_self _ _)
    fun other hid => by rw [setEvent_of_ne _ _ hid, hgives.event, setEvent_of_ne _ _ hid]
  generalize k2.setEvent id { k2.event id with set := (k2.event id).set &&& ~~~clear } = k3 at hcleared ⊢
  split
  · have hwaits : k3.rtSchedule.waits = k3.waits := hcleared.1.queue.waits_rtSchedule
    have hlists : (k3.onSched (·.rtSchedule)).lists (.event id) = k3.lists (.event id) :=
      lists_of_waits hwaits rfl
    rw [grants_congr hlists, hlists]
    exact ⟨hcleared.1.background (.unseen k3.tick hcleared.1.queue.rtSchedule hwaits), hcleared.2⟩
  · exact hcleared

/-! ## Runs -/

/-- The sends, receives and resets of event sets, with any timeouts. -/
def eventEvent : KernelEvent T → Bool
  | .call (.eventSend _ _) => true
  | .call (.eventRecv _ _ _ _) => true
  | .call (.eventReset _) => true
  | .isr (.eventSend _ _) => true
  | .proceed => true
  | e => backgroundEvent e

/-- The grants after an event: a send makes grants, and a thread that goes on has used its grant. -/
def recordGrants (k : State T) (e : KernelEvent T) (k' : State T) (given : T → Option Grant) :
    T → Option Grant :=
  match e with
  | .call (.eventSend id set) => grants id set k k' given
  | .isr (.eventSend id set) => grants id set k k' given
  | .proceed => fun t => if k.runner = some t then none else given t
  | _ => given

/-- The runs of sends, receives and resets, with the grants that have not been used. -/
def eventSystem (T : Type*) [DecidableEq T] :
    TransitionSystem (State T × (T → Option Grant)) (KernelEvent T) :=
  ((system T).guarded fun _ e => eventEvent e = true).withHistory (fun _ => none) recordGrants

/-- One event. -/
theorem EventOk.exec {fuel : ℕ}
    (h : EventOk k given) (hevent : eventEvent e = true) (hok : EventSendOk k e)
    (heq : exec fuel k e = some (k', ret)) : EventOk k' (recordGrants k e k' given) := by
  have hsend : ∀ id set, sentEvent e = some (id, set) →
      EventOk (k.rtEventSend id set).1 (grants id set k (k.rtEventSend id set).1 given) := by
    intro id set hsent
    exact (h.rtEventSend (hok.canStop hsent)).1
  have hbackground : backgroundEvent e = true → EventOk k' given := fun hback =>
    h.background (exec_background h.queue hback heq)
  cases e with
  | call c =>
    obtain ⟨t, hcaller, hcall⟩ := exec_call heq
    cases c with
    | eventSend id set =>
      cases hcall
      exact hsend id set rfl
    | eventRecv id set option timeout => exact h.rtEventRecv hcaller hcall
    | eventReset id =>
      cases hcall
      exact h.rtEventReset id
    | _ => exact hbackground hevent
  | isr c =>
    cases c with
    | eventSend id set =>
      obtain rfl : _ = k' := some.inj (exec_isr heq).1
      exact hsend id set rfl
    | _ => exact hbackground hevent
  | proceed =>
    obtain ⟨t, hrunner, hgo⟩ := exec_proceed heq
    have hrecord : recordGrants k .proceed k' given = update given t none := by
      funext u
      simp [recordGrants, hrunner, update_apply, eq_comm]
    have hwoken : ∀ id, k.pc t = .eventWoken id → EventOk k' (recordGrants k .proceed k' given) := by
      intro id hpc
      unfold State.proceed at hgo
      rw [hpc] at hgo
      obtain rfl : _ = k' := congrArg Prod.fst (some.inj hgo)
      rw [hrecord]
      exact h.eventRecvWoken (runner_eq hrunner).2
    cases h.thread t with
    | idle hpc =>
      unfold State.proceed at hgo
      rw [hpc] at hgo
      cases hgo
    | waiting hpc | failed hpc | served hpc => exact hwoken _ hpc
  | _ => exact hbackground hevent

/-- In every run in which no send satisfies the condition of a thread that is just timing out, no
suspended thread has a condition that the event set satisfies. A thread that a send has resumed had a
condition that was satisfied by the event set before any events were cleared, and it receives those of
its events that were set. -/
theorem event_waiters_served {p : State T × (T → Option Grant)}
    (h : ((eventSystem T).guarded fun p e => EventSendOk p.1 e).Reachable p) :
    (∀ id t, p.1.isSuspended t = true → p.1.pc t = .eventWoken id → ¬ p.1.EventSatisfied id t) ∧
    ∀ t g, p.2 t = some g → g.info.satisfiedBy g.wanted g.set = true ∧
      ∀ fuel, ∃ k', proceed fuel p.1 t = some (k', some rtEok) ∧ k'.recved t = g.wanted &&& g.set := by
  have hinv : EventOk p.1 p.2 := by
    apply h.invariant
    · rintro ⟨k, given⟩ ⟨hboot, hgiven⟩
      obtain rfl : given = fun _ => none := hgiven
      exact ⟨hboot.placed, fun t => .idle (hboot.pc t) rfl⟩
    · rintro ⟨k, given⟩ e ⟨k', given'⟩ hk ⟨hok, ⟨hevent, fuel, ret, heq⟩, hgiven⟩
      obtain rfl : given' = recordGrants k e k' given := hgiven
      exact hk.exec hevent hok heq
  refine ⟨fun id t hsusp hpc => ?_, fun t g hg => ?_⟩
  · cases hinv.thread t with
    | idle hidle => exact absurd (hidle.symm.trans hpc) (by simp)
    | waiting hplace _ _ _ _ hnot =>
      obtain rfl : _ = id := Pc.eventWoken.inj (hplace.symm.trans hpc)
      exact hnot
    | failed _ _ hnot | served _ _ hnot => exact absurd (hnot.symm.trans hsusp) (by decide)
  · have hthread := hinv.thread t
    rw [hg] at hthread
    refine ⟨?_, hthread.proceed⟩
    cases hthread with
    | served _ hgiven _ _ hsat =>
      cases hgiven
      exact hsat
    | _ _ hgiven => cases hgiven

/-- Whether a send meets the condition can be evaluated. -/
instance (k : State T) (e : KernelEvent T) : Decidable (EventSendOk k e) :=
  inferInstanceAs (Decidable (∀ sent ∈ sentEvent e, ∀ t ∈ k.lists (.event sent.1),
    (k.eventInfo t).satisfiedBy (k.eventSet t) ((k.event sent.1).set ||| sent.2) = true →
    k.ttmrSet t = true → k.timerActive t = true))

/-- Whether a condition is satisfied can be evaluated. -/
instance (k : State T) (id : ℕ) (t : T) : Decidable (k.EventSatisfied id t) :=
  inferInstanceAs (Decidable ((k.eventInfo t).satisfiedBy (k.eventSet t) (k.event id).set = true))

/-- An event with the grants, as a function to the next state, when it meets a condition. -/
def eventNextWhen (ok : State T → KernelEvent T → Prop) [∀ k e, Decidable (ok k e)]
    (p : State T × (T → Option Grant)) (e : KernelEvent T) : Option (State T × (T → Option Grant)) :=
  (nextWhen (fun k e => ok k e ∧ eventEvent e = true) 0 p.1 e).map fun k' =>
    (k', recordGrants p.1 e k' p.2)

/-- A computed step is a step of the guarded system. -/
theorem guarded_step_of_eventNextWhen {ok : State T → KernelEvent T → Prop}
    [∀ k e, Decidable (ok k e)] {p p' : State T × (T → Option Grant)}
    (h : eventNextWhen ok p e = some p') : ((eventSystem T).guarded fun p e => ok p.1 e).step p e p' := by
  obtain ⟨k', hk', rfl⟩ := map_eq_some_iff.mp h
  obtain ⟨⟨hok, hevent⟩, hexec⟩ := guarded_step_of_nextWhen hk'
  exact ⟨hok, ⟨hevent, hexec⟩, rfl⟩

/-- Thread 1 waits for one of two events and thread 2 for both; a send of one event resumes thread 1
only. -/
theorem event_waiters_served_send : ∃ p : State (Fin 3) × (Fin 3 → Option Grant),
    ((eventSystem (Fin 3)).guarded fun p e => EventSendOk p.1 e).Reachable p ∧
    p.2 1 = some ⟨0, ⟨false, true, true⟩, 3, 1⟩ ∧
    (∃ k', proceed 0 p.1 1 = some (k', some rtEok) ∧ k'.recved 1 = 1) ∧
    p.1.isSuspended 2 = true ∧ ¬ p.1.EventSatisfied 0 2 := by
  obtain ⟨p, hreach, hgrant, hsusp, hpc⟩ := Reachable.exists_run
    (M := (eventSystem (Fin 3)).guarded fun p e => EventSendOk p.1 e)
    (P := fun p => p.2 1 = some ⟨0, ⟨false, true, true⟩, 3, 1⟩ ∧ p.1.isSuspended 2 = true ∧
      p.1.pc 2 = .eventWoken 0) (eventNextWhen EventSendOk)
    [.isr (.startup 0), .schedulerStart, .call (.startup 1),
      .call (.eventRecv 0 3 ⟨false, true, true⟩ 7), .call (.startup 2),
      .call (.eventRecv 0 3 ⟨true, false, false⟩ (-1)), .call (.eventSend 0 1)]
    (.init (s := (boot 32 ![20, 10, 5] fun _ => 10, fun _ => none))
      ⟨booted_boot, rfl⟩) (fun _ _ _ _ _ => guarded_step_of_eventNextWhen)
  obtain ⟨hwaiting, hserved⟩ := event_waiters_served hreach
  exact ⟨p, hreach, hgrant, (hserved 1 _ hgrant).2 0, hsusp, hwaiting 0 2 hsusp hpc⟩

/-- A thread that stays suspended. Thread 1 waits for an event and its timer is due; an interrupt sends
the event before the thread times out. The condition of the thread is satisfied, and it will return
`-RT_ETIMEOUT`. -/
theorem event_waiter_left : ∃ p : State (Fin 2) × (Fin 2 → Option Grant),
    (eventSystem (Fin 2)).Reachable p ∧ p.1.isSuspended 1 = true ∧ p.1.pc 1 = .eventWoken 0 ∧
    p.1.EventSatisfied 0 1 :=
  Reachable.exists_run (eventNextWhen fun _ _ => True)
    [.isr (.startup 0), .schedulerStart, .call (.startup 1),
      .call (.eventRecv 0 1 ⟨true, false, false⟩ 7), .timerDue 1, .isr (.eventSend 0 1)]
    (.init (s := (boot 32 ![20, 10] fun _ => 10, fun _ => none))
      ⟨booted_boot, rfl⟩)
    (fun _ _ _ _ _ h => (guarded_step_of_eventNextWhen h).2)

end State

end RtThread.Kernel
