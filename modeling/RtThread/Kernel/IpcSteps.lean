import RtThread.Kernel.Confined
import RtThread.Kernel.Wakeups

/-!
# What the calls on semaphores, events, mailboxes and queues do to the threads

Each of these calls works on its object and on the running thread, and then at most once wakes the
first thread of a list or suspends the running thread. `IpcStep` says so, and every function up to the
place where another thread may run is such a step. `rt_event_send` wakes several threads and is not
among them.
-/

namespace RtThread.Kernel

open Option MessageQueue

/-- A place outside of `rt_mutex_take` and `rt_mutex_release`. -/
def Pc.isIpc : Pc → Bool
  | .resched _ => false
  | .mutexResched _ => false
  | .mutexWoken _ => false
  | .mutexClear _ => false
  | _ => true

/-- The list whose first thread is woken when a thread goes on from this place. -/
def Pc.wakesOn : Pc → Option ListHead
  | .mbSendWoken id _ _ _ _ => some (.mbRecv id)
  | .mbRecvWoken id _ _ _ => some (.mbSend id)
  | .mqSendFill id _ _ _ => some (.mqRecv id)
  | .mqUrgentFill id _ _ => some (.mqRecv id)
  | .mqRecvCopy id _ _ => some (.mqSend id)
  | _ => none

namespace State

variable {T : Type*} [DecidableEq T] {k k' : State T} {t : T} {head : ListHead}
  {wakes : Option ListHead} {ret : Option ℤ} {id value size start cell : ℕ} {bytes : List ℕ} {prio timeout : ℤ}
  {suspendFlag : SuspendFlag} {o : Object T} {mover : Option T}
variable {fuel : ℕ} {k1 : State T} {pc : Pc}

/-- An object changes, and the running thread may go to another place. -/
structure OwnStep (k k' : State T) : Prop where
  sched : k'.toSched = k.toSched
  pc : k'.pc = k.pc ∨ ∃ (t : T) (pc : Pc), (k.stat t).code = .running ∧ pc.isIpc = true ∧
    k'.pc = Function.update k.pc t pc
  eventInfo : ∀ t, (k.stat t).code ≠ .running → k'.eventInfo t = k.eventInfo t

/-- What a call does to the threads; `wakes` is the list whose first thread may be woken. -/
inductive IpcStep (k : State T) (wakes : Option ListHead) : State T → Prop where
  | own {k1 : State T} : OwnStep k k1 → IpcStep k wakes k1
  | wake {k1 : State T} {head : ListHead} : OwnStep k k1 → wakes = some head → head.isWait →
      IpcStep k wakes (k1.wakeFirst head)
  | block {k1 k2 : State T} {t : T} {head : ListHead} {flag : IpcFlag}
      {suspendFlag : SuspendFlag} {timeout : ℤ} {pc : Pc} {ret : Option ℤ} :
      k1.blockOn t head flag suspendFlag timeout pc = some (k2, ret) → OwnStep k k1 →
      (k.stat t).code = .running → head.isWait → pc.waitsOn = some head → pc.isIpc = true →
      (∀ id, head = .event id → (k1.eventInfo t).and = true ∨ (k1.eventInfo t).or = true) →
      IpcStep k wakes k2

/-- Only an object, an error code or a buffer changes. -/
theorem OwnStep.quiet (hsched : k'.toSched = k.toSched) (hpc : k'.pc = k.pc)
    (hinfo : k'.eventInfo = k.eventInfo) : OwnStep k k' :=
  ⟨hsched, .inl hpc, fun _ _ => congrFun hinfo _⟩

/-- The running thread goes to another place. -/
theorem OwnStep.setPc (hrunning : (k.stat t).code = .running)
    (hsched : k'.toSched = k.toSched) (hpc : k'.pc = k.pc) (hinfo : k'.eventInfo = k.eventInfo)
    (hplace : pc.isIpc = true) : OwnStep k (k'.setPc t pc) :=
  ⟨hsched, .inr ⟨t, pc, hrunning, hplace, by rw [← hpc]; rfl⟩, fun _ _ => congrFun hinfo _⟩

/-- The running thread notes what it waits for. -/
theorem OwnStep.setEventInfo {info : EventFlags} (hrunning : (k.stat t).code = .running)
    (hsched : k'.toSched = k.toSched) (hpc : k'.pc = k.pc)
    (hinfo : k'.eventInfo = Function.update k.eventInfo t info) : OwnStep k k' := by
  refine ⟨hsched, .inl hpc, fun u hu => ?_⟩
  rw [hinfo, Function.update_of_ne]
  rintro rfl
  exact hu hrunning

/-- A step is the same to a state that differs in the objects only. -/
theorem OwnStep.of_quiet (h : OwnStep k k1) (hsched : k1.toSched = k'.toSched)
    (hpc : k1.pc = k'.pc) (hinfo : k1.eventInfo = k'.eventInfo) : OwnStep k k' :=
  ⟨hsched ▸ h.sched, hpc ▸ h.pc, hinfo ▸ h.eventInfo⟩

/-- Such a change of the object of a call. -/
structure Own (o : Object T) (mover : Option T) (k k' : State T) : Prop where
  own : OwnStep k k'
  frame : Frame [o] mover k k'

/-- What a call does to the threads and to its object; nothing else changes. -/
inductive Ipc (o : Object T) (mover : Option T) (k : State T) (wakes : Option ListHead) : State T → Prop where
  | own {k1 : State T} : Own o mover k k1 → Ipc o mover k wakes k1
  | wake {k1 : State T} {head : ListHead} : Own o mover k k1 → wakes = some head → head.isWait →
      Ipc o mover k wakes (k1.wakeFirst head)
  | block {k1 k2 : State T} {t : T} {head : ListHead} {suspendFlag : SuspendFlag} {timeout : ℤ} {pc : Pc}
      {ret : Option ℤ} :
      k1.blockOn t head (k1.waitFlag head) suspendFlag timeout pc = some (k2, ret) →
      Own o (some t) k k1 → mover = some t → (k.stat t).code = .running → head.isWait →
      pc.waitsOn = some head → pc.isIpc = true → pc.object T = some o →
      (∀ id, head = .event id → (k1.eventInfo t).and = true ∨ (k1.eventInfo t).or = true) →
      Ipc o mover k wakes k2

/-- What such a call does to the threads. -/
theorem Ipc.ipcStep (h : Ipc o mover k wakes k') : IpcStep k wakes k' := by
  cases h with
  | own hown => exact .own hown.own
  | wake hown hwakes hwait => exact .wake hown.own hwakes hwait
  | block hblock hown _ hrunning hwait hplace hipc _ hinfo =>
    exact .block hblock hown.own hrunning hwait hplace hipc hinfo

/-- What such a call leaves alone. -/
theorem Ipc.confined (h : Ipc o mover k wakes k') : Confined [o] mover k k' := by
  cases h with
  | own hown => exact hown.frame.confined
  | wake hown => exact (hown.frame.wakeFirst _).confined
  | block hblock hown hmover _ _ _ _ hobject =>
    rw [hmover]
    exact hown.frame.confined.blockOn hblock (by simp [hobject])

/-- The running thread goes to another place. -/
theorem Own.setPc (hrunning : (k.stat t).code = .running) (hframe : Frame [o] (some t) k k')
    (hsched : k'.toSched = k.toSched) (hpc : k'.pc = k.pc) (hinfo : k'.eventInfo = k.eventInfo)
    (hplace : pc.isIpc = true) (hobject : ∀ o' ∈ pc.object T, o' ∈ [o]) :
    Own o (some t) k (k'.setPc t pc) :=
  ⟨.setPc hrunning hsched hpc hinfo hplace, hframe.setPc hobject⟩

/-- The running thread leaves its call. -/
theorem Own.leave (hrunning : (k.stat t).code = .running) : Own o (some t) k (k.setPc t .idle) :=
  .setPc hrunning (.refl k) rfl rfl rfl rfl (by simp [Pc.object])

theorem Own.refl (k : State T) : Own o mover k k := ⟨.quiet rfl rfl rfl, .refl k⟩

/-- An error code is written. -/
theorem Own.setError (k : State T) (t : T) (error : ℤ) : Own o mover k (k.setError t error) :=
  ⟨.quiet rfl rfl rfl, (Frame.refl k).write rfl rfl rfl⟩

/-! ## Calls that wait -/

/-- What a call that may wait does up to the place where it returns, is suspended or is served; `empty`
says that there is nothing for it. -/
inductive WaitCall (o : Object T) (k : State T) (t : T) (head : ListHead) (empty : Prop)
    (served : State T → Option ℤ → Prop) (k' : State T) : Option ℤ → Prop where
  /-- It returns at once. -/
  | refuse {code : ℤ} : k' = k → code ≠ rtEok → WaitCall o k t head empty served k' (some code)
  /-- It has been woken with an error. -/
  | leave : k.error t ≠ rtEok → k' = k.setPc t .idle →
      WaitCall o k t head empty served k' (some (k.error t))
  /-- It has no time to wait. -/
  | expire {error code : ℤ} : empty → k' = (k.setError t error).setPc t .idle → code ≠ rtEok →
      WaitCall o k t head empty served k' (some code)
  /-- It waits. -/
  | block {error timeout : ℤ} {suspendFlag : SuspendFlag} {pc : Pc} {ret : Option ℤ} : empty →
      pc.waitsOn = some head → pc.isIpc = true → pc.object T = some o →
      (k.setError t error).blockOn t head (k.waitFlag head) suspendFlag timeout pc = some (k', ret) →
      WaitCall o k t head empty served k' ret
  /-- It is served. -/
  | serve {ret : Option ℤ} : ¬ empty → served k' ret → WaitCall o k t head empty served k' ret

/-- What such a call does to the threads and to its object. -/
theorem WaitCall.ipc {empty : Prop} {served : State T → Option ℤ → Prop}
    (h : WaitCall o k t head empty served k' ret) (hrunning : (k.stat t).code = .running)
    (hwait : head.isWait) (hevent : ∀ id, head ≠ .event id)
    (hserve : served k' ret → Ipc o (some t) k wakes k') : Ipc o (some t) k wakes k' := by
  cases h with
  | refuse hsame => exact hsame ▸ .own (.refl _)
  | leave _ hleave => exact hleave ▸ .own (.leave hrunning)
  | expire _ hleave =>
    exact hleave ▸ .own (.setPc hrunning ((Frame.refl k).write rfl rfl rfl) rfl rfl rfl rfl
      (by simp [Pc.object]))
  | block _ hplace hipc hobject heq =>
    exact .block heq (.setError k t _) rfl hrunning hwait hplace hipc hobject
      fun id hid => absurd hid (hevent id)
  | serve _ hserved => exact hserve hserved

/-! ## Semaphores -/

/-- `rt_sem_take`, up to its return or its suspension. -/
theorem rtSemTake_ipc (hrunner : k.runner = some t) (heq : k.rtSemTake id timeout = some (k', ret)) :
    Ipc (.sem id) (some t) k wakes k' := by
  obtain ⟨hcur, hrunning⟩ := runner_eq hrunner
  unfold rtSemTake semTake at heq
  rw [hcur] at heq
  dsimp only at heq
  split at heq
  · cases heq
    exact .own ⟨.quiet rfl rfl rfl, (Frame.refl k).setSem (.head _) rfl⟩
  · split at heq
    · cases heq
      exact .own (.refl k)
    · exact .block heq (.setError k t _) rfl hrunning rfl rfl rfl rfl (by simp)

theorem rtSemRelease_ipc (k : State T) (id : ℕ) :
    Ipc (.sem id) mover k (some (.sem id)) (k.rtSemRelease id).1 := by
  unfold rtSemRelease
  dsimp only
  split
  · exact .wake (.refl k) rfl rfl
  · split
    · exact .own ⟨.quiet rfl rfl rfl, (Frame.refl k).setSem (.head _) rfl⟩
    · exact .own (.refl k)

/-! ## Mailboxes -/

/-- The end of a send. -/
theorem mbPut_ipc (h : Own (.mailbox id) mover k k1) (value : ℕ) :
    Ipc (.mailbox id) mover k (some (.mbRecv id)) (k1.mbPut id value).1 := by
  unfold mbPut
  dsimp only
  split
  · exact .wake ⟨h.own.of_quiet rfl rfl rfl, h.frame.setMailbox (.head _) rfl⟩ rfl rfl
  · exact .own ⟨h.own.of_quiet rfl rfl rfl, h.frame.setMailbox (.head _) rfl⟩

/-- What a send does. -/
def MbSends (k : State T) (t : T) (id value : ℕ) : State T → Option ℤ → Prop :=
  WaitCall (.mailbox id) k t (.mbSend id) ((k.mailbox id).entry = (k.mailbox id).size) fun k' ret =>
    k' = ((k.setPc t .idle).mbPut id value).1 ∧ ret = some ((k.setPc t .idle).mbPut id value).2

/-- The loop of a send. -/
theorem mbSendLoop_sends (heq : k.mbSendLoop t id value timeout suspendFlag = some (k', ret)) :
    MbSends k t id value k' ret := by
  unfold mbSendLoop at heq
  dsimp only at heq
  split at heq
  next hfull =>
    split at heq
    · cases heq
      exact .expire hfull rfl (by decide)
    · exact .block hfull rfl rfl rfl heq
  next hroom =>
    cases heq
    exact .serve hroom ⟨rfl, rfl⟩

/-- A send that begins. -/
theorem mbSendWait_sends (hcur : k.current = some t)
    (heq : k.mbSendWait id value timeout suspendFlag = some (k', ret)) : MbSends k t id value k' ret := by
  unfold mbSendWait at heq
  rw [hcur] at heq
  dsimp only at heq
  split at heq
  · cases heq
    exact .refuse rfl (by decide)
  · exact mbSendLoop_sends heq

/-- A send that goes on. -/
theorem mbSendWoken_sends (heq : k.mbSendWoken t id value timeout suspendFlag start = some (k', ret)) :
    MbSends k t id value k' ret := by
  unfold mbSendWoken at heq
  split at heq
  next herror =>
    cases heq
    exact .leave herror rfl
  · exact mbSendLoop_sends heq

/-- What a send does to the threads and to the mailbox. -/
theorem MbSends.ipc (h : MbSends k t id value k' ret) (hrunning : (k.stat t).code = .running) :
    Ipc (.mailbox id) (some t) k (some (.mbRecv id)) k' :=
  WaitCall.ipc h hrunning rfl (by simp) fun hserved => hserved.1 ▸ mbPut_ipc (.leave hrunning) value

/-- A send from an interrupt. -/
theorem rtMbSend_ipc (k : State T) (id value : ℕ) :
    Ipc (.mailbox id) mover k (some (.mbRecv id)) (k.rtMbSend id value).1 := by
  unfold rtMbSend
  dsimp only
  split
  · exact .own (.refl k)
  · exact mbPut_ipc (.refl k) value

theorem rtMbUrgent_ipc (k : State T) (id value : ℕ) :
    Ipc (.mailbox id) mover k (some (.mbRecv id)) (k.rtMbUrgent id value).1 := by
  unfold rtMbUrgent
  dsimp only
  split
  · exact .own (.refl k)
  · exact .wake ⟨.quiet rfl rfl rfl, (Frame.refl k).setMailbox (.head _) rfl⟩ rfl rfl

/-- What a receive does. -/
def MbRecvs (k : State T) (t : T) (id : ℕ) : State T → Option ℤ → Prop :=
  WaitCall (.mailbox id) k t (.mbRecv id) ((k.mailbox id).entry = 0) fun k' ret =>
    k' = (k.setPc t .idle).mbGet t id ∧ ret = some rtEok

/-- The loop of a receive. -/
theorem mbRecvLoop_recvs (heq : k.mbRecvLoop t id timeout suspendFlag = some (k', ret)) :
    MbRecvs k t id k' ret := by
  unfold mbRecvLoop at heq
  dsimp only at heq
  split at heq
  next hempty =>
    split at heq
    · cases heq
      exact .expire hempty rfl (by decide)
    · exact .block hempty rfl rfl rfl heq
  next hsome =>
    cases heq
    exact .serve hsome ⟨rfl, rfl⟩

/-- A receive that begins. -/
theorem mbRecv_recvs (hcur : k.current = some t)
    (heq : k.mbRecv id timeout suspendFlag = some (k', ret)) : MbRecvs k t id k' ret := by
  unfold mbRecv at heq
  rw [hcur] at heq
  dsimp only at heq
  split at heq
  · cases heq
    exact .refuse rfl (by decide)
  · exact mbRecvLoop_recvs heq

/-- A receive that goes on. -/
theorem mbRecvWoken_recvs (heq : k.mbRecvWoken t id timeout suspendFlag start = some (k', ret)) :
    MbRecvs k t id k' ret := by
  unfold mbRecvWoken at heq
  split at heq
  next herror =>
    cases heq
    exact .leave herror rfl
  · exact mbRecvLoop_recvs heq

/-- What a receive does to the threads and to the mailbox. -/
theorem MbRecvs.ipc (h : MbRecvs k t id k' ret) (hrunning : (k.stat t).code = .running) :
    Ipc (.mailbox id) (some t) k (some (.mbSend id)) k' := by
  refine WaitCall.ipc h hrunning rfl (by simp) fun hserved => hserved.1 ▸ ?_
  have hleave : Own (.mailbox id) (some t) k (k.setPc t .idle) := .leave hrunning
  have hmail : Frame [.mailbox id] (some t) k { k.setPc t .idle with
      mail := Function.update k.mail t ((k.mailbox id).msgPool (k.mailbox id).outOffset) } :=
    hleave.frame.write rfl rfl rfl
  exact .wake ⟨hleave.own.of_quiet rfl rfl rfl, hmail.setMailbox (.head _) rfl⟩ rfl rfl

/-! ## Message queues -/

/-- The end of the second section of a send. -/
theorem mqCount_ipc (h : Own (.messageQueue id) mover k k1) {mq : MessageQueue}
    (hflag : mq.flag = (k1.messageQueue id).flag) :
    Ipc (.messageQueue id) mover k (some (.mqRecv id)) (k1.mqCount id mq).1 := by
  unfold mqCount
  split
  · exact .wake ⟨h.own.of_quiet rfl rfl rfl, h.frame.setMq (.head _) hflag⟩ rfl rfl
  · exact .own ⟨h.own.of_quiet rfl rfl rfl, h.frame.setMq (.head _) hflag⟩

/-- What the first section of a send does. -/
def MqSends (k : State T) (t : T) (id : ℕ) (bytes : List ℕ) (prio : ℤ) : State T → Option ℤ → Prop :=
  WaitCall (.messageQueue id) k t (.mqSend id) ((k.messageQueue id).takeFree = none) fun k' ret =>
    ∃ c mq, (k.messageQueue id).takeFree = some (c, mq) ∧
      k' = (k.setMq id mq).setPc t (.mqSendFill id c bytes prio) ∧ ret = none

/-- The loop of a send, with its first section. -/
theorem mqSendLoop_sends (heq : k.mqSendLoop t id bytes prio timeout suspendFlag = some (k', ret)) :
    MqSends k t id bytes prio k' ret := by
  unfold mqSendLoop at heq
  split at heq
  next htake =>
    cases heq
    exact .serve (by simp [htake]) ⟨_, _, htake, rfl, rfl⟩
  next htake =>
    split at heq
    · cases heq
      exact .expire htake rfl (by decide)
    · exact .block htake rfl rfl rfl heq

/-- A send that begins. -/
theorem mqSendWait_sends (hcur : k.current = some t)
    (heq : k.mqSendWait id bytes prio timeout suspendFlag = some (k', ret)) :
    MqSends k t id bytes prio k' ret := by
  unfold mqSendWait at heq
  rw [hcur] at heq
  dsimp only at heq
  split at heq
  · cases heq
  · split at heq
    · cases heq
      exact .refuse rfl (by decide)
    · split at heq
      · cases heq
        exact .refuse rfl (by decide)
      · exact mqSendLoop_sends heq

/-- A send that goes on. -/
theorem mqSendWoken_sends
    (heq : k.mqSendWoken t id bytes prio timeout suspendFlag start = some (k', ret)) :
    MqSends k t id bytes prio k' ret := by
  unfold mqSendWoken at heq
  split at heq
  next herror =>
    cases heq
    exact .leave herror rfl
  · exact mqSendLoop_sends heq

/-- What the first section of a send does to the threads and to the queue. -/
theorem MqSends.ipc (h : MqSends k t id bytes prio k' ret) (hrunning : (k.stat t).code = .running) :
    Ipc (.messageQueue id) (some t) k wakes k' := by
  refine WaitCall.ipc h hrunning rfl (by simp) ?_
  rintro ⟨c, mq, htake, rfl, -⟩
  exact .own (.setPc hrunning ((Frame.refl k).setMq (.head _) (takeFree_flag htake))
    rfl rfl rfl rfl (by simp [Pc.object]))

/-- `rt_mq_urgent`, with its first section. -/
theorem mqUrgent_ipc (hrunner : k.runner = some t) (heq : k.mqUrgent id bytes = some (k', ret)) :
    Ipc (.messageQueue id) (some t) k wakes k' := by
  obtain ⟨hcur, hrunning⟩ := runner_eq hrunner
  unfold mqUrgent at heq
  rw [hcur] at heq
  dsimp only at heq
  split at heq
  · cases heq
  · split at heq
    · cases heq
      exact .own (.refl k)
    · split at heq
      next htake =>
        cases heq
        exact .own (.setPc hrunning ((Frame.refl k).setMq (.head _) (takeFree_flag htake))
          rfl rfl rfl rfl (by simp [Pc.object]))
      · cases heq
        exact .own (.refl k)

/-- A send from an interrupt, with both sections. -/
theorem rtMqSend_ipc {r : State T × ℤ} (heq : k.rtMqSend id bytes = some r) :
    Ipc (.messageQueue id) mover k (some (.mqRecv id)) r.1 := by
  obtain ⟨-, heq⟩ := ite_none_left_eq_some.mp heq
  split at heq
  · cases heq
    exact .own (.refl k)
  · split at heq
    next cell mq htake =>
      cases heq
      have hown : Own (.messageQueue id) mover k (k.setMq id mq) :=
        ⟨.quiet rfl rfl rfl, (Frame.refl k).setMq (.head _) (takeFree_flag htake)⟩
      exact mqCount_ipc hown (link_flag _ _ _)
    · cases heq
      exact .own (.refl k)

/-- What the first section of a receive does. -/
def MqRecvs (k : State T) (t : T) (id size : ℕ) : State T → Option ℤ → Prop :=
  WaitCall (.messageQueue id) k t (.mqRecv id) ((k.messageQueue id).entry = 0) fun k' ret =>
    ∃ c mq, (k.messageQueue id).unlinkFirst = some (c, mq) ∧
      k' = (k.setMq id mq).setPc t (.mqRecvCopy id c size) ∧ ret = none

/-- The loop of a receive, with its first section. -/
theorem mqRecvLoop_recvs (heq : k.mqRecvLoop t id size timeout suspendFlag = some (k', ret)) :
    MqRecvs k t id size k' ret := by
  unfold mqRecvLoop at heq
  dsimp only at heq
  split at heq
  next hempty =>
    split at heq
    · cases heq
      exact .expire hempty rfl (by decide)
    · exact .block hempty rfl rfl rfl heq
  next hsome =>
    obtain ⟨⟨c, mq⟩, hunlink, ⟨⟩⟩ := map_eq_some_iff.mp heq
    exact .serve hsome ⟨c, mq, hunlink, rfl, rfl⟩

/-- A receive that begins. -/
theorem mqRecv_recvs (hcur : k.current = some t)
    (heq : k.mqRecv id size timeout suspendFlag = some (k', ret)) : MqRecvs k t id size k' ret := by
  unfold mqRecv at heq
  rw [hcur] at heq
  dsimp only at heq
  split at heq
  · cases heq
  · split at heq
    · cases heq
      exact .refuse rfl (by decide)
    · exact mqRecvLoop_recvs heq

/-- A receive that goes on. -/
theorem mqRecvWoken_recvs (heq : k.mqRecvWoken t id size timeout suspendFlag start = some (k', ret)) :
    MqRecvs k t id size k' ret := by
  unfold mqRecvWoken at heq
  split at heq
  next herror =>
    cases heq
    exact .leave herror rfl
  · exact mqRecvLoop_recvs heq

/-- What the first section of a receive does to the threads and to the queue. -/
theorem MqRecvs.ipc (h : MqRecvs k t id size k' ret) (hrunning : (k.stat t).code = .running) :
    Ipc (.messageQueue id) (some t) k wakes k' := by
  refine WaitCall.ipc h hrunning rfl (by simp) ?_
  rintro ⟨c, mq, hunlink, rfl, -⟩
  exact .own (.setPc hrunning ((Frame.refl k).setMq (.head _) (unlinkFirst_flag hunlink))
    rfl rfl rfl rfl (by simp [Pc.object]))

/-- The second section of a receive. -/
theorem mqRecvCopy_ipc (hrunning : (k.stat t).code = .running) :
    Ipc (.messageQueue id) (some t) k (some (.mqSend id)) (k.mqRecvCopy t id cell size).1 := by
  have hfree : ∀ message, Frame [.messageQueue id] (some t) k
      (State.setMq { k with message := message } id ((k.messageQueue id).putFree cell)) := fun message =>
    have hmessage : Frame _ (some t) k { k with message := message } := .write (.refl k) rfl rfl rfl
    hmessage.setMq (.head _) rfl
  exact .wake (.setPc hrunning (hfree _) rfl rfl rfl rfl (by simp [Pc.object])) rfl rfl

/-! ## Events -/

/-- `rt_event_recv`, up to its return or its suspension. -/
theorem rtEventRecv_ipc {set : BitVec 32} {option : EventFlags} (hrunner : k.runner = some t)
    (heq : k.rtEventRecv id set option timeout = some (k', ret)) :
    Ipc (.event id) (some t) k wakes k' := by
  obtain ⟨hcur, hrunning⟩ := runner_eq hrunner
  unfold rtEventRecv eventRecv at heq
  rw [hcur] at heq
  dsimp only at heq
  split at heq
  · cases heq
    exact .own (.refl k)
  · obtain ⟨hoption, heq⟩ := ite_none_right_eq_some.mp heq
    generalize (if option.and = true then _ else _ : Bool) = satisfied at heq
    have hset : ∀ k1 : State T, k1.objects = { k.objects with
        eventSet := k1.eventSet, eventInfo := k1.eventInfo } → k1.pc = k.pc →
        k1.toSched = k.toSched → Frame [.event id] (some t) k k1 :=
      fun k1 hobjects hpc hsched => (Frame.refl k).setWaits (.head _) hobjects hpc
        (.of_eq (by rw [hsched]) (by rw [hsched]))
    split at heq
    · cases heq
      split
      · refine .own ⟨.setEventInfo hrunning rfl rfl rfl, Frame.setEvent (hset _ ?_ ?_ ?_) (.head _) ?_⟩ <;> rfl
      · exact .own ⟨.setEventInfo hrunning rfl rfl rfl, hset _ rfl rfl rfl⟩
    · split at heq
      · cases heq
        exact .own ⟨.quiet rfl rfl rfl, .write (.refl k) rfl rfl rfl⟩
      · exact .block heq ⟨.setEventInfo hrunning rfl rfl rfl, hset _ rfl rfl rfl⟩ rfl hrunning rfl rfl
          rfl rfl (fun _ _ => by simpa using hoption)

/-- The end of `rt_event_recv`. -/
theorem eventRecvWoken_ipc (hrunning : (k.stat t).code = .running) :
    Ipc (.event id) (some t) k wakes (k.eventRecvWoken t).1 := by
  have hleave : Own (.event id) (some t) k (k.setPc t .idle) := .leave hrunning
  unfold eventRecvWoken
  dsimp only
  split
  · exact .own hleave
  · exact .own ⟨hleave.own.of_quiet rfl rfl rfl, hleave.frame.write rfl rfl rfl⟩

/-! ## Events of the kernel -/

/-- The calls on semaphores, mailboxes and queues, and the receive of events. -/
def ipcEvent : KernelEvent T → Bool
  | .call (.semTake _ _) => true
  | .call (.semRelease _) => true
  | .call (.eventRecv _ _ _ _) => true
  | .call (.mbSend _ _ _) => true
  | .call (.mbUrgent _ _) => true
  | .call (.mbRecv _ _) => true
  | .call (.mqSend _ _ _ _) => true
  | .call (.mqUrgent _ _) => true
  | .call (.mqRecv _ _ _) => true
  | .isr (.semRelease _) => true
  | .isr (.mbSend _ _) => true
  | .isr (.mbUrgent _ _) => true
  | .isr (.mqSend _ _) => true
  | .proceed => true
  | _ => false

/-- The list whose first thread may be woken in an event. -/
def wakesOn (k : State T) : KernelEvent T → Option ListHead
  | .call (.semRelease id) => some (.sem id)
  | .call (.mbSend id _ _) => some (.mbRecv id)
  | .call (.mbUrgent id _) => some (.mbRecv id)
  | .call (.mbRecv id _) => some (.mbSend id)
  | .isr (.semRelease id) => some (.sem id)
  | .isr (.mbSend id _) => some (.mbRecv id)
  | .isr (.mbUrgent id _) => some (.mbRecv id)
  | .isr (.mqSend id _) => some (.mqRecv id)
  | .proceed => k.runner.bind fun t => (k.pc t).wakesOn
  | _ => none

/-- The running thread goes on outside of the mutex functions. -/
theorem proceed_ipc (hrunning : (k.stat t).code = .running)
    (hplace : (k.pc t).isIpc = true) (heq : proceed fuel k t = some (k', ret)) :
    ∃ o, (k.pc t).object T = some o ∧ Ipc o (some t) k (k.pc t).wakesOn k' := by
  unfold proceed at heq
  generalize k.pc t = pc at hplace heq ⊢
  cases pc with
  | idle => cases heq
  | semWoken id =>
    cases heq
    exact ⟨_, rfl, .own (.leave hrunning)⟩
  | eventWoken id =>
    obtain rfl : _ = k' := congrArg Prod.fst (some.inj heq)
    exact ⟨_, rfl, eventRecvWoken_ipc hrunning⟩
  | mbSendWoken id value timeout suspendFlag start => exact ⟨_, rfl, (mbSendWoken_sends heq).ipc hrunning⟩
  | mbRecvWoken id timeout suspendFlag start => exact ⟨_, rfl, (mbRecvWoken_recvs heq).ipc hrunning⟩
  | mqSendWoken id bytes prio timeout suspendFlag start => exact ⟨_, rfl, (mqSendWoken_sends heq).ipc hrunning⟩
  | mqSendFill id cell bytes prio =>
    cases heq
    exact ⟨_, rfl, mqCount_ipc (.leave hrunning) (link_flag _ _ _)⟩
  | mqUrgentFill id cell bytes =>
    cases heq
    exact ⟨_, rfl, mqCount_ipc (.leave hrunning) (linkFirst_flag _ _)⟩
  | mqRecvWoken id size timeout suspendFlag start => exact ⟨_, rfl, (mqRecvWoken_recvs heq).ipc hrunning⟩
  | mqRecvCopy id cell size =>
    obtain rfl : _ = k' := congrArg Prod.fst (some.inj heq)
    exact ⟨_, rfl, mqRecvCopy_ipc hrunning⟩
  | _ => cases hplace

/-- Every such event is a step of this kind. -/
theorem exec_ipc {e : KernelEvent T}
    (hplace : e = .proceed → ∀ t, k.runner = some t → (k.pc t).isIpc = true)
    (hevent : ipcEvent e = true) (heq : exec fuel k e = some (k', ret)) :
    ∃ o, k.touches e = [o] ∧ Ipc o (k.eventMover e) k (k.wakesOn e) k' := by
  cases e with
  | call c =>
    obtain ⟨t, hcaller, hcall⟩ := exec_call heq
    have hrunner := runner_of_caller hcaller
    obtain ⟨hcur, hrunning⟩ := runner_eq hrunner
    rw [eventMover, hrunner]
    cases c with
    | semTake id timeout => exact ⟨_, rfl, rtSemTake_ipc hrunner hcall⟩
    | semRelease id =>
      cases hcall
      exact ⟨_, rfl, rtSemRelease_ipc k id⟩
    | eventRecv id set option timeout => exact ⟨_, rfl, rtEventRecv_ipc hrunner hcall⟩
    | mbSend id value timeout => exact ⟨_, rfl, (mbSendWait_sends hcur hcall).ipc hrunning⟩
    | mbUrgent id value =>
      cases hcall
      exact ⟨_, rfl, rtMbUrgent_ipc k id value⟩
    | mbRecv id timeout => exact ⟨_, rfl, (mbRecv_recvs hcur hcall).ipc hrunning⟩
    | mqSend id bytes prio timeout => exact ⟨_, rfl, (mqSendWait_sends hcur hcall).ipc hrunning⟩
    | mqUrgent id bytes => exact ⟨_, rfl, mqUrgent_ipc hrunner hcall⟩
    | mqRecv id size timeout => exact ⟨_, rfl, (mqRecv_recvs hcur hcall).ipc hrunning⟩
    | _ => cases hevent
  | isr c =>
    have hcall := (exec_isr heq).1
    cases c with
    | semRelease id =>
      cases hcall
      exact ⟨_, rfl, rtSemRelease_ipc k id⟩
    | mbSend id value =>
      cases hcall
      exact ⟨_, rfl, rtMbSend_ipc k id value⟩
    | mbUrgent id value =>
      cases hcall
      exact ⟨_, rfl, rtMbUrgent_ipc k id value⟩
    | mqSend id bytes =>
      obtain ⟨r, hr, rfl⟩ := map_eq_some_iff.mp hcall
      exact ⟨_, rfl, rtMqSend_ipc hr⟩
    | _ => cases hevent
  | proceed =>
    obtain ⟨t, hrunner, hgo⟩ := exec_proceed heq
    obtain ⟨o, ho, hstep⟩ := proceed_ipc (runner_eq hrunner).2 (hplace rfl t hrunner) hgo
    exact ⟨o, by simp [touches, hrunner, ho], by simpa [wakesOn, eventMover, hrunner] using hstep⟩
  | _ => cases hevent

/-- Every such event is a step of the threads. -/
theorem exec_ipcStep {e : KernelEvent T} (hplace : ∀ t, (k.pc t).isIpc = true)
    (hevent : ipcEvent e = true) (heq : exec fuel k e = some (k', ret)) : IpcStep k (k.wakesOn e) k' := by
  obtain ⟨_, -, hstep⟩ := exec_ipc (fun _ t _ => hplace t) hevent heq
  exact hstep.ipcStep

/-- The threads are in calls of this kind or in none. -/
structure IpcCalls (k : State T) : Prop extends k.Placed where
  place : ∀ t, (k.pc t).isIpc = true

omit [DecidableEq T] in
/-- No thread is in a call at start-up. -/
theorem Booted.ipcCalls (h : k.Booted) : k.IpcCalls :=
  ⟨h.placed, fun t => by rw [h.pc t]; rfl⟩

/-- A thread goes to another place. -/
theorem IpcCalls.of_update (h : k.IpcCalls) (hplaced : k'.Placed)
    (hpc : k'.pc = Function.update k.pc t pc) (hplace : pc.isIpc = true) : k'.IpcCalls := by
  refine ⟨hplaced, fun u => ?_⟩
  rw [hpc, Function.update_apply]
  split
  · exact hplace
  · exact h.place u

/-- An object changes, and the running thread may go to another place. -/
theorem OwnStep.calls (hstep : OwnStep k k') (h : k.IpcCalls) : k'.IpcCalls := by
  obtain hpc | ⟨t, pc, hrunning, hplace, hpc⟩ := hstep.pc
  · exact ⟨h.toPlaced.congr hstep.sched hpc, by rw [hpc]; exact h.place⟩
  · obtain ⟨hsusp, hfresh⟩ := view_of_running hrunning
    have hplaced := h.toPlaced.setPc hsusp hfresh pc
    exact h.of_update (hplaced.congr hstep.sched hpc) hpc hplace

/-- A step of this kind leaves every thread in a call of this kind. -/
theorem IpcStep.calls (hstep : IpcStep k wakes k') (h : k.IpcCalls) : k'.IpcCalls := by
  cases hstep with
  | own hown => exact hown.calls h
  | wake hown _ hwait =>
    have hcalls := hown.calls h
    exact ⟨hcalls.toPlaced.wakeFirst hwait, by simpa using hcalls.place⟩
  | @block k1 _ t head flag suspendFlag timeout pc ret heq hown hrunning hwait hwaitsOn hplace =>
    have hcalls : k1.IpcCalls := hown.calls h
    have hrunning1 : (k1.stat t).code = .running := by rw [hown.sched]; exact hrunning
    have hplaced := hcalls.toPlaced.blockOn hwait hwaitsOn hrunning1 heq
    obtain ⟨-, -, hcode⟩ | ⟨s, -, -, -, -, rfl⟩ := blockOn_cases hcalls.queue hwait heq
    · exact absurd hrunning1 hcode
    · exact hcalls.of_update hplaced rfl hplace

/-- Threads that are started, and time. -/
theorem Background.calls (hstep : Background k k') (h : k.IpcCalls) : k'.IpcCalls := by
  have hpc : k'.pc = k.pc := by cases hstep <;> rfl
  exact ⟨h.toPlaced.background hstep, by rw [hpc]; exact h.place⟩

end State

end RtThread.Kernel
