import RtThread.Kernel.Calls
import RtThread.Kernel.SchedFrame

/-!
# What a call leaves alone

Every event works on few objects: a semaphore, an event set, a mailbox, a message queue, the mutexes
together, or a thread that is closed. `Confined` says that all others stay as they are, and that only
one thread goes to another place. `Thins` says that threads may leave the wait lists of objects, that
none enters, and that no object gets another flag. `Frame` is both, and has a rule for every kind of
write, whatever the state of the scheduler.
-/

namespace RtThread.Kernel

/-- What an event can work on. -/
inductive Object (T : Type*) where
  | sem (id : ℕ)
  | event (id : ℕ)
  | mailbox (id : ℕ)
  | messageQueue (id : ℕ)
  /-- The mutexes, with the lists of those that each thread holds and the one it waits for. -/
  | mutexes
  /-- A thread that is closed. -/
  | thread (thread : T)

/-- The object of the call that a thread is in. -/
def Pc.object (T : Type*) : Pc → Option (Object T)
  | .idle => none
  | .resched _ => some .mutexes
  | .mutexResched _ => some .mutexes
  | .mutexWoken _ => some .mutexes
  | .mutexClear _ => some .mutexes
  | .semWoken id => some (.sem id)
  | .eventWoken id => some (.event id)
  | .mbSendWoken id _ _ _ _ => some (.mailbox id)
  | .mbRecvWoken id _ _ _ => some (.mailbox id)
  | .mqSendWoken id _ _ _ _ _ => some (.messageQueue id)
  | .mqSendFill id _ _ _ => some (.messageQueue id)
  | .mqUrgentFill id _ _ => some (.messageQueue id)
  | .mqRecvWoken id _ _ _ _ => some (.messageQueue id)
  | .mqRecvCopy id _ _ => some (.messageQueue id)

/-- The data of the objects. -/
structure Objects (T : Type*) where
  sem : ℕ → Semaphore
  event : ℕ → Event
  eventSet : T → BitVec 32
  eventInfo : T → EventFlags
  mailbox : ℕ → Mailbox
  messageQueue : ℕ → MessageQueue
  mutex : ℕ → Mutex T
  takenObjectList : T → List ℕ
  pendingObject : T → Option ℕ

/-! ## The flags of message queues -/

namespace MessageQueue

variable {mq mq' : MessageQueue}

/-- Linking by priority keeps the flag. -/
theorem linkByPrio_flag (mq : MessageQueue) (msg steps : ℕ) (prev node : Option ℕ) :
    (mq.linkByPrio msg steps prev node).flag = mq.flag := by
  induction steps generalizing prev node with
  | zero => rfl
  | succ steps ih =>
    cases node with
    | none => rfl
    | some node =>
      unfold linkByPrio
      split
      · cases prev <;> rfl
      · split
        · split <;> rfl
        · exact ih _ _

/-- Linking keeps the flag. -/
theorem link_flag (mq : MessageQueue) (msg : ℕ) (prio : ℤ) : (mq.link msg prio).flag = mq.flag := by
  unfold link
  split
  · rw [linkByPrio_flag]
    split <;> rfl
  · cases mq.msgQueueTail <;> dsimp only <;> split <;> rfl

/-- Linking at the beginning keeps the flag. -/
theorem linkFirst_flag (mq : MessageQueue) (msg : ℕ) : (mq.linkFirst msg).flag = mq.flag := by
  unfold linkFirst
  dsimp only
  split <;> rfl

/-- Taking a free cell keeps the flag. -/
theorem takeFree_flag {cell : ℕ} (h : mq.takeFree = some (cell, mq')) : mq'.flag = mq.flag := by
  obtain ⟨_, -, heq⟩ := Option.map_eq_some_iff.mp h
  obtain rfl := (Prod.mk.inj heq).2
  rfl

/-- Unlinking the first message keeps the flag. -/
theorem unlinkFirst_flag {msg : ℕ} (h : mq.unlinkFirst = some (msg, mq')) : mq'.flag = mq.flag := by
  obtain ⟨_, -, heq⟩ := Option.map_eq_some_iff.mp h
  obtain rfl := (Prod.mk.inj heq).2
  split <;> rfl

/-- Putting every message back keeps the flag. -/
theorem releaseAll_flag {steps : ℕ} (h : releaseAll steps mq = some mq') : mq'.flag = mq.flag := by
  induction steps generalizing mq with
  | zero =>
    unfold releaseAll at h
    split at h
    · cases h
      rfl
    · cases h
  | succ steps ih =>
    unfold releaseAll at h
    split at h
    · cases h
      rfl
    · rw [ih h]
      split <;> rfl

end MessageQueue

namespace State

variable {T : Type*} {k k' k'' : State T} {t : T} {id : ℕ} {ret : Option ℤ}

/-- The data of the objects in a state. -/
def objects (k : State T) : Objects T :=
  ⟨k.sem, k.event, k.eventSet, k.eventInfo, k.mailbox, k.messageQueue, k.mutex, k.takenObjectList,
    k.pendingObject⟩

/-- Only these objects have changed, and only this thread has gone to another place. -/
structure Confined (touched : List (Object T)) (mover : Option T) (k k' : State T) : Prop where
  sem : ∀ id, .sem id ∉ touched → k'.sem id = k.sem id
  event : ∀ id, .event id ∉ touched → k'.event id = k.event id
  waits : (∀ id, .event id ∉ touched) → k'.eventSet = k.eventSet ∧ k'.eventInfo = k.eventInfo
  mailbox : ∀ id, .mailbox id ∉ touched → k'.mailbox id = k.mailbox id
  messageQueue : ∀ id, .messageQueue id ∉ touched → k'.messageQueue id = k.messageQueue id
  mutexes : .mutexes ∉ touched → k'.mutex = k.mutex ∧ k'.takenObjectList = k.takenObjectList ∧
    k'.pendingObject = k.pendingObject
  closed : ∀ u, .thread u ∉ touched → (k'.stat u).code = .close → (k.stat u).code = .close
  pc : ∀ u, k'.pc u = k.pc u ∨ (mover = some u ∧ ∀ o ∈ (k'.pc u).object T, o ∈ touched)

variable {touched : List (Object T)} {mover : Option T}

/-- The flag of the object that a list belongs to. -/
def waitFlag (k : State T) : ListHead → IpcFlag
  | .sem id => (k.sem id).flag
  | .event id => (k.event id).flag
  | .mbRecv id => (k.mailbox id).flag
  | .mbSend id => (k.mailbox id).flag
  | .mqRecv id => (k.messageQueue id).flag
  | .mqSend id => (k.messageQueue id).flag
  | .mutex _ => .prio
  | _ => .fifo

/-- Threads may leave the wait lists of objects, none enters, and the flags stay. -/
structure Thins (k k' : State T) : Prop where
  lists : Sched.Thins k.toSched k'.toSched
  flags : k'.waitFlag = k.waitFlag

/-- What a function leaves alone. -/
structure Frame (touched : List (Object T)) (mover : Option T) (k k' : State T) : Prop where
  confined : Confined touched mover k k'
  thins : Thins k k'

namespace Confined

/-- No object and no place has changed. -/
theorem quiet (hobjects : k'.objects = k.objects) (hpc : k'.pc = k.pc)
    (hclosed : ∀ u, .thread u ∉ touched → (k'.stat u).code = .close → (k.stat u).code = .close) :
    Confined touched mover k k' := by
  obtain ⟨hsem, hevent, hset, hinfo, hmailbox, hmq, hmutex, htaken, hpending⟩ :=
    Objects.mk.inj hobjects
  exact ⟨fun id _ => congrFun hsem id, fun id _ => congrFun hevent id, fun _ => ⟨hset, hinfo⟩,
    fun id _ => congrFun hmailbox id, fun id _ => congrFun hmq id, fun _ => ⟨hmutex, htaken, hpending⟩,
    hclosed, fun u => .inl (congrFun hpc u)⟩

theorem trans (h : Confined touched mover k k') (h' : Confined touched mover k' k'') :
    Confined touched mover k k'' where
  sem id hid := (h'.sem id hid).trans (h.sem id hid)
  event id hid := (h'.event id hid).trans (h.event id hid)
  waits hid := ⟨(h'.waits hid).1.trans (h.waits hid).1, (h'.waits hid).2.trans (h.waits hid).2⟩
  mailbox id hid := (h'.mailbox id hid).trans (h.mailbox id hid)
  messageQueue id hid := (h'.messageQueue id hid).trans (h.messageQueue id hid)
  mutexes hno := by
    obtain ⟨hmutex, htaken, hpending⟩ := h.mutexes hno
    obtain ⟨hmutex', htaken', hpending'⟩ := h'.mutexes hno
    exact ⟨hmutex'.trans hmutex, htaken'.trans htaken, hpending'.trans hpending⟩
  closed u hu hclose := h.closed u hu (h'.closed u hu hclose)
  pc u := by
    rcases h'.pc u with hsame | hmoved
    · rw [hsame]
      exact h.pc u
    · exact .inr hmoved

variable [DecidableEq T]

/-- The thread goes to another place. -/
theorem setPc {pc : Pc} (h : Confined touched (some t) k k')
    (hpc : ∀ o ∈ pc.object T, o ∈ touched) : Confined touched (some t) k (k'.setPc t pc) :=
  { h with
    pc := (Function.forall_update_iff k'.pc fun u pc' =>
      pc' = k.pc u ∨ some t = some u ∧ ∀ o ∈ pc'.object T, o ∈ touched).mpr
        ⟨.inr ⟨rfl, hpc⟩, fun u _ => h.pc u⟩ }

end Confined

/-- The flags stay when each object keeps its flag. -/
theorem waitFlag_congr (hsem : ∀ id, (k'.sem id).flag = (k.sem id).flag)
    (hevent : ∀ id, (k'.event id).flag = (k.event id).flag)
    (hmailbox : ∀ id, (k'.mailbox id).flag = (k.mailbox id).flag)
    (hmq : ∀ id, (k'.messageQueue id).flag = (k.messageQueue id).flag) : k'.waitFlag = k.waitFlag := by
  funext head
  cases head with
  | sem id => exact hsem id
  | event id => exact hevent id
  | mbRecv id | mbSend id => exact hmailbox id
  | mqRecv id | mqSend id => exact hmq id
  | _ => rfl

/-- The flags stay when the objects stay. -/
theorem waitFlag_eq (hsem : k'.sem = k.sem) (hevent : k'.event = k.event)
    (hmailbox : k'.mailbox = k.mailbox) (hmq : k'.messageQueue = k.messageQueue) :
    k'.waitFlag = k.waitFlag := by
  unfold waitFlag
  rw [hsem, hevent, hmailbox, hmq]

/-- An object that is written keeps its flag. -/
theorem flag_update {α : Type*} {flag : α → IpcFlag} {f : ℕ → α} {x : α} (h : flag x = flag (f id))
    (other : ℕ) : flag (Function.update f id x other) = flag (f other) :=
  (Function.forall_update_iff f fun id x => flag x = flag (f id)).mpr ⟨h, fun _ _ => rfl⟩ other

/-- An object that must stay is not the one that is written. -/
theorem update_of_notMem {α : Type*} {f : ℕ → α} {x : α} {object : ℕ → Object T}
    (hmem : object id ∈ touched) (other : ℕ) (hother : object other ∉ touched) :
    Function.update f id x other = f other :=
  Function.update_of_ne (by rintro rfl; exact hother hmem) _ _

namespace Frame

theorem trans (h : Frame touched mover k k') (h' : Frame touched mover k' k'') :
    Frame touched mover k k'' :=
  ⟨h.confined.trans h'.confined, h.thins.lists.trans h'.thins.lists, h'.thins.flags.trans h.thins.flags⟩

/-- No object and no place has changed. -/
theorem quiet (hobjects : k'.objects = k.objects) (hpc : k'.pc = k.pc)
    (hsched : Sched.Frame (.thread · ∈ touched) k.toSched k'.toSched) : Frame touched mover k k' := by
  refine ⟨.quiet hobjects hpc hsched.closes, hsched.thins, ?_⟩
  obtain ⟨hsem, hevent, -, -, hmailbox, hmq, -⟩ := Objects.mk.inj hobjects
  exact waitFlag_eq hsem hevent hmailbox hmq

theorem refl (k : State T) : Frame touched mover k k := .quiet rfl rfl (.of_eq rfl rfl)

section

variable (h : Frame touched mover k k')
include h

/-- The scheduler runs. -/
theorem onSched {f : Sched T → Sched T}
    (hsched : Sched.Frame (.thread · ∈ touched) k'.toSched (f k'.toSched)) :
    Frame touched mover k (k'.onSched f) :=
  h.trans (.quiet rfl rfl hsched)

/-- An error code, a buffer or the time is written. -/
theorem write (hobjects : k''.objects = k'.objects) (hpc : k''.pc = k'.pc)
    (hsched : k''.toSched = k'.toSched) : Frame touched mover k k'' :=
  h.trans (.quiet hobjects hpc (.of_eq (by rw [hsched]) (by rw [hsched])))

/-- A semaphore is written. -/
theorem setSem {sem : Semaphore} (hmem : .sem id ∈ touched)
    (hflag : sem.flag = (k'.sem id).flag) : Frame touched mover k (k'.setSem id sem) :=
  h.trans ⟨{ (refl k').confined with sem := update_of_notMem hmem }, .of_lists rfl,
    waitFlag_congr (flag_update hflag) (fun _ => rfl) (fun _ => rfl) fun _ => rfl⟩

/-- An event set is written. -/
theorem setEvent {event : Event} (hmem : .event id ∈ touched)
    (hflag : event.flag = (k'.event id).flag) : Frame touched mover k (k'.setEvent id event) :=
  h.trans ⟨{ (refl k').confined with event := update_of_notMem hmem }, .of_lists rfl,
    waitFlag_congr (fun _ => rfl) (flag_update hflag) (fun _ => rfl) fun _ => rfl⟩

/-- A mailbox is written. -/
theorem setMailbox {mailbox : Mailbox} (hmem : .mailbox id ∈ touched)
    (hflag : mailbox.flag = (k'.mailbox id).flag) : Frame touched mover k (k'.setMailbox id mailbox) :=
  h.trans ⟨{ (refl k').confined with mailbox := update_of_notMem hmem }, .of_lists rfl,
    waitFlag_congr (fun _ => rfl) (fun _ => rfl) (flag_update hflag) fun _ => rfl⟩

/-- A message queue is written. -/
theorem setMq {mq : MessageQueue} (hmem : .messageQueue id ∈ touched)
    (hflag : mq.flag = (k'.messageQueue id).flag) : Frame touched mover k (k'.setMq id mq) :=
  h.trans ⟨{ (refl k').confined with messageQueue := update_of_notMem hmem }, .of_lists rfl,
    waitFlag_congr (fun _ => rfl) (fun _ => rfl) (fun _ => rfl) (flag_update hflag)⟩

/-- What the threads wait for is written. -/
theorem setWaits (hmem : .event id ∈ touched) (hobjects : k''.objects = { k'.objects with
      eventSet := k''.eventSet, eventInfo := k''.eventInfo }) (hpc : k''.pc = k'.pc)
    (hsched : Sched.Frame (.thread · ∈ touched) k'.toSched k''.toSched) : Frame touched mover k k'' := by
  obtain ⟨hsem, hevent, -, -, hmailbox, hmq, hmutex, htaken, hpending⟩ := Objects.mk.inj hobjects
  exact h.trans ⟨⟨fun id _ => congrFun hsem id, fun id _ => congrFun hevent id,
    fun hno => absurd hmem (hno id), fun id _ => congrFun hmailbox id, fun id _ => congrFun hmq id,
    fun _ => ⟨hmutex, htaken, hpending⟩, hsched.closes, fun u => .inl (congrFun hpc u)⟩,
    hsched.thins, waitFlag_eq hsem hevent hmailbox hmq⟩

/-- The mutexes change. -/
theorem setMutexes (hmem : .mutexes ∈ touched) (hobjects : k''.objects = { k'.objects with
      mutex := k''.mutex, takenObjectList := k''.takenObjectList, pendingObject := k''.pendingObject })
    (hpc : k''.pc = k'.pc) (hsched : k''.toSched = k'.toSched) : Frame touched mover k k'' := by
  obtain ⟨hsem, hevent, hset, hinfo, hmailbox, hmq, -⟩ := Objects.mk.inj hobjects
  exact h.trans ⟨⟨fun id _ => congrFun hsem id, fun id _ => congrFun hevent id,
    fun _ => ⟨hset, hinfo⟩, fun id _ => congrFun hmailbox id, fun id _ => congrFun hmq id,
    fun hno => absurd hmem hno, fun u _ hclose => by rwa [← hsched], fun u => .inl (congrFun hpc u)⟩,
    .of_lists (by rw [hsched]), waitFlag_eq hsem hevent hmailbox hmq⟩

end

variable [DecidableEq T]

/-- The thread goes to another place. -/
theorem setPc {pc : Pc} (h : Frame touched (some t) k k') (hpc : ∀ o ∈ pc.object T, o ∈ touched) :
    Frame touched (some t) k (k'.setPc t pc) :=
  ⟨h.confined.setPc hpc, h.thins.lists, h.thins.flags⟩

theorem rtSuspListDequeue (h : Frame touched mover k k') (head : ListHead) (threadError : ℤ) :
    Frame touched mover k (k'.rtSuspListDequeue head threadError).1 := by
  unfold State.rtSuspListDequeue
  split
  · exact h
  · dsimp only
    split
    · split <;> exact h.trans (.quiet rfl rfl (Sched.frame_rtSchedThreadReady k'.toSched _))
    · exact h.trans (.quiet rfl rfl (Sched.frame_rtSchedThreadReady k'.toSched _))

/-- A wake-up of the first thread of a list. -/
theorem wakeFirst (h : Frame touched mover k k') (head : ListHead) :
    Frame touched mover k (k'.wakeFirst head) := by
  unfold State.wakeFirst
  split
  · exact h
  · exact (h.rtSuspListDequeue head rtEok).onSched (Sched.frame_rtSchedule _)

theorem rtSuspListResumeAll (h : Frame touched mover k k') (head : ListHead) (threadError : ℤ) :
    Frame touched mover k (k'.rtSuspListResumeAll head threadError) :=
  rtSuspListResumeAll_induction h fun _ h => h.rtSuspListDequeue head threadError

/-- A timer is started. -/
theorem startTimerIf (h : Frame touched mover k k') (t : T) (timeout : ℤ) :
    Frame touched mover k (k'.startTimerIf t timeout) := by
  unfold State.startTimerIf
  split
  · exact h.onSched (.of_eq rfl rfl)
  · exact h

end Frame

variable [DecidableEq T]

/-- A thread is suspended on a list. -/
theorem Confined.blockOn {head : ListHead} {flag : IpcFlag} {suspendFlag : SuspendFlag} {timeout : ℤ}
    {pc : Pc} (h : Confined touched (some t) k k')
    (heq : k'.blockOn t head flag suspendFlag timeout pc = some (k'', ret))
    (hpc : ∀ o ∈ pc.object T, o ∈ touched) : Confined touched (some t) k k'' := by
  obtain ⟨⟨s, ok⟩, hs, heq⟩ := Option.map_eq_some_iff.mp heq
  have hsuspend : Confined touched (some t) k { k' with toSched := s } :=
    h.trans (.quiet rfl rfl fun u _ => (Sched.rtThreadSuspendToList_frame hs).1 u)
  split at heq
  · cases heq
    have hrest : Frame touched (some t) { k' with toSched := s } (State.onSched
        (State.setPc (State.startTimerIf { k' with toSched := s } t timeout) t pc) (·.rtSchedule)) :=
      (((Frame.refl _).startTimerIf t timeout).setPc hpc).onSched (Sched.frame_rtSchedule _)
    exact hsuspend.trans hrest.confined
  · cases heq
    exact hsuspend.setPc (by simp [Pc.object])

/-- The objects that a call works on. -/
def callTouches (k : State T) : Call T → List (Object T)
  | .startup _ => []
  | .resume _ => []
  | .yield => []
  | .changePriority _ _ => []
  | .mutexTake _ _ => [.mutexes]
  | .mutexRelease _ => [.mutexes]
  | .semTake id _ => [.sem id]
  | .semRelease id => [.sem id]
  | .semDetach _ => []
  | .eventSend id _ => [.event id]
  | .eventRecv id _ _ _ => [.event id]
  | .eventDetach _ => []
  | .mbSend id _ _ => [.mailbox id]
  | .mbUrgent id _ => [.mailbox id]
  | .mbRecv id _ => [.mailbox id]
  | .mqSend id _ _ _ => [.messageQueue id]
  | .mqUrgent id _ => [.messageQueue id]
  | .mqRecv id _ _ => [.messageQueue id]
  | .mutexSetprioceiling _ _ => [.mutexes]
  | .eventReset id => [.event id]
  | .mbReset id => [.mailbox id]
  | .mqReset id => [.messageQueue id]
  | .exit => k.current.toList.map .thread
  | .detach thread => [.mutexes, .thread thread]

/-- The objects that a call of an interrupt works on. -/
def isrTouches : IsrCall T → List (Object T)
  | .startup _ => []
  | .resume _ => []
  | .semRelease id => [.sem id]
  | .eventSend id _ => [.event id]
  | .mbSend id _ => [.mailbox id]
  | .mbUrgent id _ => [.mailbox id]
  | .mqSend id _ => [.messageQueue id]

/-- The objects that an event works on. -/
def touches (k : State T) : KernelEvent T → List (Object T)
  | .call c => k.callTouches c
  | .proceed => k.runner.toList.flatMap fun t => ((k.pc t).object T).toList
  | .isr c => isrTouches c
  | _ => []

/-- The thread whose place an event can change. -/
def eventMover (k : State T) : KernelEvent T → Option T
  | .call _ => k.runner
  | .proceed => k.runner
  | _ => none

end State

end RtThread.Kernel
