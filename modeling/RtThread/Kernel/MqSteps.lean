import RtThread.Kernel.ConfinedRuns
import RtThread.Kernel.MqCells

/-!
# What an event does to a message queue

`MqStep` lists everything that can happen to one message queue and to the cells of it that the calls
in progress hold. Every event of the kernel is one of its cases, in whatever state it happens, and
`mqOp` reads off from the event which operation on the list of messages it is.
-/

namespace RtThread.Kernel

open Function Option

/-- The cell of this queue that a call in progress holds. -/
def Pc.cellOf (id : ℕ) : Pc → Option ℕ
  | .mqSendFill other cell _ _ => if other = id then some cell else none
  | .mqUrgentFill other cell _ => if other = id then some cell else none
  | .mqRecvCopy other cell _ => if other = id then some cell else none
  | _ => none

/-- A call on another object holds no cell of the queue. -/
theorem Pc.cellOf_eq_none {T : Type*} {id : ℕ} {pc : Pc} (h : pc.object T ≠ some (.messageQueue id)) :
    pc.cellOf id = none := by
  cases pc with
  | mqSendFill | mqUrgentFill | mqRecvCopy => simpa [Pc.cellOf, Pc.object] using h
  | _ => rfl

/-- The call has taken a message from this queue and has not copied it yet. -/
def Pc.copies (id : ℕ) : Pc → Bool
  | .mqRecvCopy other _ _ => other = id
  | _ => false

/-- A call that copies a message holds its cell. -/
theorem Pc.copies_eq_false {id : ℕ} {pc : Pc} (h : pc.cellOf id = none) : pc.copies id = false := by
  cases pc with
  | mqRecvCopy other cell size => simpa [Pc.cellOf, Pc.copies] using h
  | _ => rfl

/-- The operations on the list of messages. An urgent message has the priority that its cell had before,
because `rt_mq_urgent` does not write it. -/
inductive MqOp (T : Type*) where
  | send (bytes : List ℕ) (prio : ℤ)
  | urgent (bytes : List ℕ) (prio : ℤ)
  | take (thread : T)
  | deliver (thread : T)
  | reset

/-- The message queue after a message has been counted. -/
def MessageQueue.counted (mq : MessageQueue) : MessageQueue :=
  if mq.entry < rtMqEntryMax then { mq with entry := mq.entry + 1 } else mq

/-- Counting changes the counter only. -/
theorem MessageQueue.relinked_counted (mq : MessageQueue) : mq.Relinked mq.counted := by
  unfold counted
  split
  · exact .of_cell rfl rfl rfl rfl rfl
  · exact .refl mq

namespace State

variable {T : Type*} [DecidableEq T] {k k' : State T} {t : T} {id : ℕ} {e : KernelEvent T}
  {ret : Option ℤ}
variable {head : ListHead}
variable {bytes : List ℕ} {pc : Pc} {prio timeout : ℤ} {size : ℕ} {suspendFlag : SuspendFlag}

/-- The message that the running thread takes when it goes to the place where it copies it. -/
def mqTakeOp (id : ℕ) (k' : State T) (t : T) : Option (MqOp T) :=
  if (k'.pc t).copies id then some (.take t) else none

omit [DecidableEq T] in
/-- No message is taken by a thread that holds no cell. -/
theorem mqTakeOp_eq_none (h : (k'.pc t).cellOf id = none) : mqTakeOp id k' t = none := by
  rw [mqTakeOp, Pc.copies_eq_false h]
  rfl

/-- The operation on a queue that an event stands for. -/
def mqOp (id : ℕ) (k k' : State T) : KernelEvent T → Option (MqOp T)
  | .call (.mqReset other) => if other = id then some .reset else none
  | .call (.mqRecv other _ _) => if other = id then k.caller.bind (mqTakeOp id k') else none
  | .isr (.mqSend other bytes) =>
    if other = id ∧ bytes.length ≤ (k.messageQueue id).msgSize ∧
        (k.messageQueue id).msgQueueFree ≠ none then some (.send bytes 0)
    else none
  | .proceed => k.runner.bind fun t => match k.pc t with
    | .mqSendFill other _ bytes prio => if other = id then some (.send bytes prio) else none
    | .mqUrgentFill other cell bytes =>
      if other = id then some (.urgent bytes ((k.messageQueue id).cell cell).prio) else none
    | .mqRecvWoken other _ _ _ _ => if other = id then mqTakeOp id k' t else none
    | .mqRecvCopy other _ _ => if other = id then some (.deliver t) else none
    | _ => none
  | _ => none

/-- What can happen to a message queue, with the return value of a call that returned and the operation
on the list of messages. -/
inductive MqStep (id : ℕ) (k : State T) (e : KernelEvent T) (ret : Option ℤ) (k' : State T) :
    Option (MqOp T) → Prop where
  /-- The queue and the calls that hold a cell stay. -/
  | stay : k'.messageQueue id = k.messageQueue id →
      (∀ u, k'.pc u = k.pc u ∨ (k.pc u).cellOf id = none ∧ (k'.pc u).cellOf id = none) →
      MqStep id k e ret k' none
  /-- The first section of a send or an urgent send takes a free cell. -/
  | hold {t : T} {c : ℕ} {mq : MessageQueue} {pc : Pc} : (k.pc t).cellOf id = none →
      (k.messageQueue id).takeFree = some (c, mq) →
      (∃ bytes prio, pc = .mqSendFill id c bytes prio) ∨
        (∃ bytes, pc = .mqUrgentFill id c bytes ∧ e = .call (.mqUrgent id bytes)) →
      k'.messageQueue id = mq → k'.pc = update k.pc t pc → MqStep id k e ret k' none
  /-- The second section of a send. -/
  | send {t : T} {c : ℕ} {bytes : List ℕ} {prio : ℤ} : k.pc t = .mqSendFill id c bytes prio →
      k'.messageQueue id =
        ((((k.messageQueue id).setNext c none).fill c bytes).link c prio).counted →
      k'.pc = update k.pc t .idle →
      ret = some (if ((((k.messageQueue id).setNext c none).fill c bytes).link c prio).entry <
        rtMqEntryMax then rtEok else -rtEfull) →
      MqStep id k e ret k' (some (.send bytes prio))
  /-- The second section of an urgent send. -/
  | urgent {t : T} {c : ℕ} {bytes : List ℕ} : k.pc t = .mqUrgentFill id c bytes →
      k'.messageQueue id = (((k.messageQueue id).fill c bytes).linkFirst c).counted →
      k'.pc = update k.pc t .idle →
      ret = some (if (((k.messageQueue id).fill c bytes).linkFirst c).entry < rtMqEntryMax then rtEok
        else -rtEfull) →
      MqStep id k e ret k' (some (.urgent bytes ((k.messageQueue id).cell c).prio))
  /-- A send of an interrupt, with both sections. -/
  | isrSend {c : ℕ} {mq : MessageQueue} {bytes : List ℕ} :
      (k.messageQueue id).takeFree = some (c, mq) →
      k'.messageQueue id = (((mq.setNext c none).fill c bytes).link c 0).counted →
      k'.pc = k.pc → MqStep id k e ret k' (some (.send bytes 0))
  /-- The first section of a receive takes the first message. -/
  | take {t : T} {c size : ℕ} {mq : MessageQueue} : (k.pc t).cellOf id = none →
      (k.messageQueue id).entry ≠ 0 → (k.messageQueue id).unlinkFirst = some (c, mq) →
      k'.messageQueue id = mq → k'.pc = update k.pc t (.mqRecvCopy id c size) →
      MqStep id k e ret k' (some (.take t))
  /-- The copy of a receive and its second section. -/
  | deliver {t : T} {c size : ℕ} : k.pc t = .mqRecvCopy id c size →
      k'.messageQueue id = (k.messageQueue id).putFree c →
      k'.pc = update k.pc t .idle →
      k'.message t = (((k.messageQueue id).cell c).bytes.take
        (min ((k.messageQueue id).cell c).length size), ((k.messageQueue id).cell c).prio) →
      ret = some (min ((k.messageQueue id).cell c).length size : ℕ) →
      MqStep id k e ret k' (some (.deliver t))
  /-- The reset. -/
  | reset {mq : MessageQueue} :
      (k.messageQueue id).releaseAll (k.messageQueue id).maxMsgs = some mq →
      k'.messageQueue id = { mq with entry := 0 } → k'.pc = k.pc →
      MqStep id k e ret k' (some .reset)

/-- The queue stays, and a thread that holds no cell goes to a place where it holds none. -/
theorem MqStep.of_update (hmq : k'.messageQueue id = k.messageQueue id)
    (hpc : k'.pc = update k.pc t pc) (hold : (k.pc t).cellOf id = none)
    (hnew : pc.cellOf id = none) : MqStep id k e ret k' none := by
  refine .stay hmq fun u => ?_
  rw [hpc]
  by_cases hu : u = t
  · exact .inr (by simp [hu, hold, hnew])
  · exact .inl (update_of_ne hu ..)

/-- The cell that a thread holds when it has moved. -/
theorem cellOf_of_update {places : T → Pc} (pc : Pc) (hpc : k'.pc = update places t pc) :
    (k'.pc t).cellOf id = pc.cellOf id := by
  rw [hpc, update_self]

theorem MqStep.refl (k : State T) : MqStep id k e ret k none := .stay rfl fun _ => .inl rfl

/-- An event on one queue, seen from any. -/
theorem MqStep.ite {other : ℕ} {op : Option (MqOp T)} (hne : other ≠ id → MqStep id k e ret k' none)
    (hop : other = id → MqStep id k e ret k' op) :
    MqStep id k e ret k' (if other = id then op else none) := by
  split_ifs with hid
  exacts [hop hid, hne hid]

/-- A suspension changes the scheduler and the place of the thread only. -/
theorem blockOn_frame {flag : IpcFlag}
    (heq : k.blockOn t head flag suspendFlag timeout pc = some (k', ret)) :
    ∃ (s : Sched T) (pc' : Pc), (pc' = pc ∨ pc' = .idle) ∧
      k' = { k with toSched := s, pc := update k.pc t pc' } := by
  obtain ⟨⟨s, ok⟩, -, heq⟩ := map_eq_some_iff.mp heq
  split at heq
  · cases heq
    unfold startTimerIf
    split <;> exact ⟨_, pc, .inl rfl, rfl⟩
  · cases heq
    exact ⟨s, .idle, .inr rfl, rfl⟩

/-- A place where a thread waits is no place where it holds a cell. -/
theorem cellOf_of_waitsOn (h : pc.waitsOn = some head) : pc.cellOf id = none := by
  cases pc with
  | mqSendFill | mqUrgentFill | mqRecvCopy => cases h
  | _ => rfl

/-- A call that waits is served, or the queue stays and the thread holds no cell. -/
theorem WaitCall.served_or_stays {o : Object T} {empty : Prop}
    {served : State T → Option ℤ → Prop} (h : WaitCall o k t head empty served k' ret)
    (hold : (k.pc t).cellOf id = none) :
    MqStep id k e ret k' none ∧ (k'.pc t).cellOf id = none ∨ ¬ empty ∧ served k' ret := by
  cases h with
  | refuse hsame => exact hsame ▸ .inl ⟨.refl _, hsame ▸ hold⟩
  | leave _ hleave | expire _ hleave =>
    exact hleave ▸ .inl ⟨.of_update rfl rfl hold rfl, cellOf_of_update .idle rfl⟩
  | @block _ _ _ pc _ _ hplace _ _ heq =>
    obtain ⟨s, pc', hpc', rfl⟩ := blockOn_frame heq
    have hnone : pc'.cellOf id = none := by
      rcases hpc' with rfl | rfl
      · exact cellOf_of_waitsOn hplace
      · rfl
    exact .inl ⟨.of_update rfl rfl hold hnone, (cellOf_of_update pc' rfl).trans hnone⟩
  | serve hsome hserved => exact .inr ⟨hsome, hserved⟩

/-! ## The functions of message queues -/

/-- The counting of a message. -/
theorem mqCount_messageQueue (k : State T) (id : ℕ) (mq : MessageQueue) :
    (k.mqCount id mq).1.messageQueue id = mq.counted ∧ (k.mqCount id mq).1.pc = k.pc ∧
      (k.mqCount id mq).2 = if mq.entry < rtMqEntryMax then rtEok else -rtEfull := by
  unfold mqCount MessageQueue.counted
  split
  · obtain ⟨s, error, heq⟩ :=
      wakeFirst_frame (k.setMq id { mq with entry := mq.entry + 1 }) (.mqRecv id)
    dsimp only
    rw [heq]
    exact ⟨update_self .., rfl, rfl⟩
  · exact ⟨update_self .., rfl, rfl⟩

/-- The first section of a send. -/
theorem MqSends.mqStep (h : MqSends k t id bytes prio k' ret) (hold : (k.pc t).cellOf id = none) :
    MqStep id k e ret k' none := by
  rcases WaitCall.served_or_stays h hold with ⟨hstep, -⟩ | ⟨-, c, mq, htake, rfl, -⟩
  · exact hstep
  · exact .hold hold htake (.inl ⟨bytes, prio, rfl⟩) (update_self ..) rfl

/-- `rt_mq_urgent`, up to the end of its first section. -/
theorem mqUrgent_mqStep (hcur : k.current = some t)
    (hold : (k.pc t).cellOf id = none) (heq : k.mqUrgent id bytes = some (k', ret)) :
    MqStep id k (.call (.mqUrgent id bytes)) ret k' none := by
  unfold mqUrgent at heq
  rw [hcur] at heq
  dsimp only at heq
  split at heq
  · cases heq
  · split at heq
    · cases heq
      exact .refl k
    · split at heq
      next cell mq htake =>
        cases heq
        exact .hold hold htake (.inr ⟨bytes, rfl, rfl⟩) (update_self ..) rfl
      · cases heq
        exact .refl k

/-- A send of an interrupt. -/
theorem rtMqSend_mqStep {r : State T × ℤ} (heq : k.rtMqSend id bytes = some r) :
    MqStep id k e ret r.1 (if bytes.length ≤ (k.messageQueue id).msgSize ∧
      (k.messageQueue id).msgQueueFree ≠ none then some (.send bytes 0) else none) := by
  obtain ⟨-, heq⟩ := ite_none_left_eq_some.mp heq
  split at heq
  next hlength =>
    cases heq
    rw [if_neg fun hop => by omega]
    exact .refl k
  next hlength =>
    split at heq
    next cell mq htake =>
      cases heq
      obtain ⟨hmq, hpc, -⟩ := mqCount_messageQueue (k.setMq id mq) id
        (((((k.setMq id mq).messageQueue id).setNext cell none).fill cell bytes).link cell 0)
      have hself : (k.setMq id mq).messageQueue id = mq := update_self ..
      have hlinked : ((k.setMq id mq).mqSendLink id cell bytes 0).1.messageQueue id =
          (((mq.setNext cell none).fill cell bytes).link cell 0).counted := by
        rw [mqSendLink, hmq, hself]
      rw [if_pos ⟨by omega, fun hnone => by simp [MessageQueue.takeFree, hnone] at htake⟩]
      exact .isrSend htake hlinked hpc
    next htake =>
      cases heq
      rw [if_neg fun hop => hop.2 (map_eq_none_iff.mp htake)]
      exact .refl k

/-- The first section of a receive. -/
theorem MqRecvs.mqStep (h : MqRecvs k t id size k' ret) (hold : (k.pc t).cellOf id = none) :
    MqStep id k e ret k' (mqTakeOp id k' t) := by
  rcases WaitCall.served_or_stays h hold with ⟨hstep, hnone⟩ | ⟨hsome, c, mq, hunlink, rfl, -⟩
  · rw [mqTakeOp_eq_none hnone]
    exact hstep
  · have hcopies : mqTakeOp id ((k.setMq id mq).setPc t (.mqRecvCopy id c size)) t = some (.take t) := by
      simp [mqTakeOp, setPc, Pc.copies]
    rw [hcopies]
    exact .take hold hsome hunlink (update_self ..) rfl

/-- The copy of a receive and its second section. -/
theorem mqRecvCopy_mqStep {cell : ℕ} (hpc : k.pc t = .mqRecvCopy id cell size)
    (heq : k.mqRecvCopy t id cell size = (k', ret)) : MqStep id k e ret k' (some (.deliver t)) := by
  have hmin : (if ((k.messageQueue id).cell cell).length > size then size
      else ((k.messageQueue id).cell cell).length) = min ((k.messageQueue id).cell cell).length size := by
    split <;> omega
  unfold mqRecvCopy at heq
  dsimp only at heq
  rw [hmin] at heq
  cases heq
  generalize hk1 : State.setPc _ t .idle = k1
  obtain ⟨s, error, hframe⟩ := wakeFirst_frame k1 (.mqSend id)
  rw [hframe]
  subst hk1
  exact .deliver hpc (update_self ..) rfl (update_self ..) rfl

/-- `rt_mq_control` with `RT_IPC_CMD_RESET`. -/
theorem rtMqReset_mqStep {r : State T × ℤ} (heq : k.rtMqReset id = some r) :
    MqStep id k e ret r.1 (some .reset) := by
  have hresume : Confined [] none k ((k.rtSuspListResumeAll (.mqRecv id)
      rtError).rtSuspListResumeAll (.mqSend id) rtError) :=
    (((Frame.refl k).rtSuspListResumeAll _ _).rtSuspListResumeAll _ _).confined
  unfold rtMqReset at heq
  obtain ⟨mq, hrelease, rfl⟩ := map_eq_some_iff.mp heq
  rw [hresume.messageQueue id (by simp)] at hrelease
  refine .reset hrelease (update_self ..) (funext fun u => ?_)
  exact (hresume.pc u).resolve_right fun hmoved => by simp at hmoved

/-! ## Events -/

/-- Every event is one of the cases. -/
theorem exec_mqStep {fuel : ℕ} (heq : exec fuel k e = some (k', ret)) :
    MqStep id k e ret k' (mqOp id k k' e) := by
  have hconfined := exec_confined heq
  -- An event on other objects: a place that changes was and is a place of another call.
  have hother : .messageQueue id ∉ k.touches e →
      (∀ t, k.eventMover e = some t → (k.pc t).cellOf id = none) → MqStep id k e ret k' none := by
    intro hno hmover
    refine .stay (hconfined.messageQueue id hno) fun u => ?_
    rcases hconfined.pc u with hsame | ⟨hu, hobject⟩
    · exact .inl hsame
    · exact .inr ⟨hmover u hu, Pc.cellOf_eq_none fun hpc => hno (hobject _ hpc)⟩
  cases e with
  | call c =>
    obtain ⟨t, hcaller, hcall⟩ := exec_call heq
    have hrunner := runner_of_caller hcaller
    have hcur := (runner_eq hrunner).1
    have hold : (k.pc t).cellOf id = none := by simp [(caller_eq hcaller).2.2, Pc.cellOf]
    have hother' : .messageQueue id ∉ k.touches (.call c) → MqStep id k (.call c) ret k' none :=
      fun hno => hother hno fun u hu => mem_unique hrunner hu ▸ hold
    have hne : ∀ {other}, k.touches (.call c) = [.messageQueue other] → other ≠ id →
        MqStep id k (.call c) ret k' none :=
      fun htouches hid => hother' (by simpa [htouches] using Ne.symm hid)
    cases c with
    | mqSend other bytes prio timeout =>
      by_cases hid : other = id
      · subst hid
        exact (mqSendWait_sends hcur hcall).mqStep hold
      · exact hne rfl hid
    | mqUrgent other bytes =>
      by_cases hid : other = id
      · subst hid
        exact mqUrgent_mqStep hcur hold hcall
      · exact hne rfl hid
    | mqRecv other size timeout =>
      refine .ite (hne rfl) ?_
      rintro rfl
      simpa only [hcaller, bind_some] using (mqRecv_recvs hcur hcall).mqStep hold
    | mqReset other =>
      refine .ite (hne rfl) ?_
      rintro rfl
      obtain ⟨r, hr, ⟨⟩⟩ := map_eq_some_iff.mp hcall
      exact rtMqReset_mqStep hr
    | _ => exact hother' (by simp [touches, callTouches])
  | isr c =>
    have hcall := (exec_isr heq).1
    have hother' : .messageQueue id ∉ k.touches (.isr c) → MqStep id k (.isr c) ret k' none :=
      fun hno => hother hno (by simp [eventMover])
    cases c with
    | mqSend other bytes =>
      by_cases hid : other = id
      · subst hid
        obtain ⟨r, hr, rfl⟩ := map_eq_some_iff.mp hcall
        simpa only [mqOp, true_and] using rtMqSend_mqStep hr
      · simpa only [mqOp, hid, false_and, if_false] using
          hother' (by simpa [touches, isrTouches] using Ne.symm hid)
    | _ => exact hother' (by simp [touches, isrTouches])
  | proceed =>
    obtain ⟨t, hrunner, hgo⟩ := exec_proceed heq
    have hother' : (k.pc t).object T ≠ some (.messageQueue id) → MqStep id k .proceed ret k' none :=
      fun hno => hother (by simpa [touches, hrunner] using hno) fun u hu =>
        mem_unique hrunner hu ▸ Pc.cellOf_eq_none hno
    have hne : ∀ {other}, (k.pc t).object T = some (.messageQueue other) → other ≠ id →
        MqStep id k .proceed ret k' none :=
      fun hobject hid => hother' (by simpa [hobject] using hid)
    unfold mqOp
    rw [hrunner, bind_some]
    unfold proceed at hgo
    cases hpc : k.pc t <;> simp only [hpc] at hgo hne
    case mqSendWoken other bytes prio timeout suspendFlag start =>
      by_cases hid : other = id
      · subst hid
        exact (mqSendWoken_sends hgo).mqStep (by rw [hpc]; rfl)
      · exact hne rfl hid
    case mqSendFill other cell bytes prio =>
      refine .ite (hne rfl) ?_
      rintro rfl
      cases hgo
      obtain ⟨hmq, hplace, hret⟩ := mqCount_messageQueue (k.setPc t .idle) other
        ((((k.messageQueue other).setNext cell none).fill cell bytes).link cell prio)
      exact .send hpc hmq hplace (congrArg some hret)
    case mqUrgentFill other cell bytes =>
      refine .ite (hne rfl) ?_
      rintro rfl
      cases hgo
      obtain ⟨hmq, hplace, hret⟩ := mqCount_messageQueue (k.setPc t .idle) other
        (((k.messageQueue other).fill cell bytes).linkFirst cell)
      exact .urgent hpc hmq hplace (congrArg some hret)
    case mqRecvWoken other size timeout suspendFlag start =>
      refine .ite (hne rfl) ?_
      rintro rfl
      exact (mqRecvWoken_recvs hgo).mqStep (by rw [hpc]; rfl)
    case mqRecvCopy other cell size =>
      refine .ite (hne rfl) ?_
      rintro rfl
      exact mqRecvCopy_mqStep hpc (some.inj hgo)
    all_goals exact hother' (by simp [hpc, Pc.object])
  | _ => exact hother (by simp [touches]) (by simp [eventMover])

end State

end RtThread.Kernel
