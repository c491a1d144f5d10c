import Mathlib.Data.Fin.VecNotation
import RtThread.Kernel.MqSteps
import RtThread.Lib.Pool

/-!
# The cells of a message queue are conserved

Between its two sections a send or a receive holds a cell that is on neither list. In every run of the
kernel the two lists and the calls in progress share the cells of the pool, the counter is the number
of messages, and it cannot overflow. `MqMoved` says what each operation does to the messages and to
their contents; it is all that later results need to know of the lists.
-/

namespace RtThread.Kernel

open Lib Function List Option

namespace State

variable {T : Type*} {k k' : State T} {t : T} {id : ℕ} {ret : Option ℤ}

/-- The messages and the free cells of a queue: both lists are linked, the counter and the tail belong
to the messages, and the lists share the pool with the calls in progress. -/
structure MqOk (id : ℕ) (k : State T) (queue free : List ℕ) : Prop where
  cells : (k.messageQueue id).Cells queue free
  entry : (k.messageQueue id).entry = queue.length
  shared : Shared (k.messageQueue id).maxMsgs (queue ++ free) fun t => (k.pc t).cellOf id
  max : (k.messageQueue id).maxMsgs ≤ rtMqEntryMax

section

variable (h : MqOk id k queue free) {queue' free' : List ℕ} {c : ℕ} {mq : MessageQueue}
  {content : MqContent}
include h

/-- The messages are linked in another way. -/
theorem MqOk.relink (hsame : (k.messageQueue id).Relinked (k'.messageQueue id))
    (hcells : (k'.messageQueue id).Cells queue' free')
    (hentry : (k'.messageQueue id).entry = queue'.length)
    (hshared : Shared (k.messageQueue id).maxMsgs (queue' ++ free') fun t => (k'.pc t).cellOf id) :
    MqOk id k' queue' free' :=
  ⟨hcells, hentry, hsame.maxMsgs.symm ▸ hshared, hsame.maxMsgs.trans_le h.max⟩

variable (hwritten : (k.messageQueue id).Written mq c content)
  (hentry : mq.entry = (k.messageQueue id).entry) (hlt : (k.messageQueue id).entry < rtMqEntryMax)
  (hmq : k'.messageQueue id = mq.counted)
include hwritten hentry hlt hmq

/-- A message is written, linked and counted without an overflow. -/
theorem MqOk.counted (hcells : mq.Cells queue' free') (hlength : queue'.length = queue.length + 1)
    (hshared : Shared (k.messageQueue id).maxMsgs (queue' ++ free') fun t => (k'.pc t).cellOf id) :
    MqOk id k' queue' free' ∧ (k.messageQueue id).Written (k'.messageQueue id) c content := by
  have hwritten' := hwritten.relinked mq.relinked_counted
  rw [← hmq] at hwritten'
  rw [MessageQueue.counted, if_pos (hentry.trans_lt hlt)] at hmq
  refine ⟨⟨?_, ?_, hwritten'.maxMsgs.symm ▸ hshared, hwritten'.maxMsgs.trans_le h.max⟩, hwritten'⟩
  · rw [hmq]
    exact hcells.congr rfl rfl rfl rfl
  · rw [hmq, hlength, hentry, h.entry]

/-- A message is put at its place. -/
theorem MqOk.placed (hcells : mq.Cells (mq.place c queue) free')
    (hshared : Shared (k.messageQueue id).maxMsgs (c :: (queue ++ free')) fun t => (k'.pc t).cellOf id) :
    MqOk id k' ((k'.messageQueue id).place c queue) free' ∧
      (k.messageQueue id).Written (k'.messageQueue id) c content := by
  have hperm := mq.place_perm c queue
  have hplace : (k'.messageQueue id).place c queue = mq.place c queue := by
    rw [hmq]
    exact mq.relinked_counted.place_eq c queue
  rw [hplace]
  exact h.counted hwritten hentry hlt hmq hcells hperm.length_eq (hshared.perm (hperm.append_right free'))

end

/-- A message queue after `rt_mq_init`, on a pool of any content. -/
def MqInitialized (usingPriority : Bool) (mq : MessageQueue) : Prop :=
  ∃ pool msgSize maxMsgs flag, maxMsgs ≤ rtMqEntryMax ∧
    mq = .rtMqInit usingPriority pool msgSize maxMsgs flag

/-- All cells of a queue that was initialised are free. -/
theorem MqInitialized.ok {usingPriority : Bool} (hmq : MqInitialized usingPriority (k.messageQueue id))
    (hpc : ∀ t, k.pc t = .idle) : MqOk id k [] (List.range (k.messageQueue id).maxMsgs).reverse ∧
      (k.messageQueue id).usingPriority = usingPriority := by
  obtain ⟨pool, msgSize, maxMsgs, flag, hmax, hmq⟩ := hmq
  obtain ⟨hcells, hsame, hentry⟩ := MessageQueue.cells_rtMqInit usingPriority pool msgSize maxMsgs flag
  rw [← hmq] at hcells hsame hentry
  rw [hsame.maxMsgs]
  refine ⟨⟨hcells, hentry, ?_, hsame.maxMsgs.trans_le hmax⟩, hsame.usingPriority⟩
  rw [hsame.maxMsgs]
  constructor
  case nodup => exact hcells.nodup
  all_goals simp [hpc, Pc.cellOf]

section

variable (h : MqOk id k queue free)
include h

/-- A cell that a call holds is on neither list. -/
theorem MqOk.held {c : ℕ} (hc : (k.pc t).cellOf id = some c) : c ∉ queue ∧ c ∉ free := by
  have hno := h.shared.apart t c hc
  exact ⟨fun hmem => hno (mem_append_left _ hmem), fun hmem => hno (mem_append_right _ hmem)⟩

/-- No receive holds a cell that is on a list. -/
theorem MqOk.recvCopy_ne {c : ℕ} (hc : c ∈ queue ++ free) (u : T)
    (size : ℕ) : k.pc u ≠ .mqRecvCopy id c size := fun hu =>
  h.shared.apart u c (by simp [hu, Pc.cellOf]) hc

/-- No receive holds a cell that another call holds. -/
theorem MqOk.recvCopy_ne_held {c : ℕ} (hc : (k.pc t).cellOf id = some c)
    (hno : ∀ c size, k.pc t ≠ .mqRecvCopy id c size) (u : T) (size : ℕ) :
    k.pc u ≠ .mqRecvCopy id c size := by
  intro hu
  obtain rfl := h.shared.unique u t c (by simp [hu, Pc.cellOf]) hc
  exact hno c size hu

/-- There are at most as many cells on the lists as in the pool. -/
theorem MqOk.length_le : queue.length + free.length ≤ (k.messageQueue id).maxMsgs := by
  simpa using h.shared.length_le

/-- While there is a free cell, the counter is below its maximum. -/
theorem MqOk.entry_lt_of_free (hfree : free ≠ []) : (k.messageQueue id).entry < rtMqEntryMax := by
  have hle := h.length_le
  have hpos := length_pos_iff.mpr hfree
  have hmax := h.max
  have hentry := h.entry
  omega

end

variable [DecidableEq T]

  {queue free : List ℕ} {e : KernelEvent T} {op : Option (MqOp T)}

/-- What an operation does to the list of messages, to the contents of the cells and to the receives
that hold a cell. -/
inductive MqMoved (id : ℕ) (k : State T) (ret : Option ℤ) (k' : State T) (queue : List ℕ) :
    Option (MqOp T) → List ℕ → Prop where
  /-- No message comes or goes. -/
  | stay : (k.messageQueue id).Relinked (k'.messageQueue id) →
      (∀ u c size, k'.pc u = .mqRecvCopy id c size → k.pc u = .mqRecvCopy id c size) →
      MqMoved id k ret k' queue none queue
  /-- A message is put at the place of its priority, or behind the others. -/
  | send {c : ℕ} {bytes : List ℕ} {prio : ℤ} : c ∉ queue →
      (∀ u size, k.pc u ≠ .mqRecvCopy id c size) →
      (k.messageQueue id).Written (k'.messageQueue id) c
        ⟨bytes.length, if (k.messageQueue id).usingPriority then prio
          else ((k.messageQueue id).cell c).prio, bytes⟩ →
      (∀ u c size, k'.pc u = .mqRecvCopy id c size → k.pc u = .mqRecvCopy id c size) →
      MqMoved id k ret k' queue (some (.send bytes prio)) ((k'.messageQueue id).place c queue)
  /-- A message is put before the others, with the priority that its cell had. -/
  | urgent {c : ℕ} {bytes : List ℕ} : c ∉ queue →
      (∀ u size, k.pc u ≠ .mqRecvCopy id c size) →
      (k.messageQueue id).Written (k'.messageQueue id) c
        ⟨bytes.length, ((k.messageQueue id).cell c).prio, bytes⟩ →
      (∀ u c size, k'.pc u = .mqRecvCopy id c size → k.pc u = .mqRecvCopy id c size) →
      MqMoved id k ret k' queue (some (.urgent bytes ((k.messageQueue id).cell c).prio)) (c :: queue)
  /-- The first message is taken. -/
  | take {t : T} {c size : ℕ} {rest : List ℕ} : queue = c :: rest →
      (k.messageQueue id).Relinked (k'.messageQueue id) →
      k'.pc = update k.pc t (.mqRecvCopy id c size) →
      MqMoved id k ret k' queue (some (.take t)) rest
  /-- A message that was taken is delivered. -/
  | deliver {t : T} {c size : ℕ} : k.pc t = .mqRecvCopy id c size →
      (k.messageQueue id).Relinked (k'.messageQueue id) → k'.pc = update k.pc t .idle →
      k'.message t = (((k.messageQueue id).cell c).bytes.take
        (min ((k.messageQueue id).cell c).length size), ((k.messageQueue id).cell c).prio) →
      ret = some (min ((k.messageQueue id).cell c).length size : ℕ) →
      MqMoved id k ret k' queue (some (.deliver t)) queue
  /-- All messages are dropped. -/
  | reset : (k.messageQueue id).Relinked (k'.messageQueue id) → k'.pc = k.pc →
      MqMoved id k ret k' queue (some .reset) []

/-- The cells that are held when one thread goes to another place. -/
theorem cellOf_update {pc : Pc} (hpc : k'.pc = update k.pc t pc) : (fun u => (k'.pc u).cellOf id) =
      update (fun u => (k.pc u).cellOf id) t (pc.cellOf id) := by
  rw [hpc]
  exact comp_update (Pc.cellOf id) k.pc t pc

/-- The receives that hold a cell when one thread goes to a place where it does not. -/
theorem recvCopy_of_update {pc : Pc} (hpc : k'.pc = update k.pc t pc)
    (hno : ∀ c size, pc ≠ .mqRecvCopy id c size) {u : T} {c size : ℕ}
    (hu : k'.pc u = .mqRecvCopy id c size) : k.pc u = .mqRecvCopy id c size := by
  rw [hpc] at hu
  by_cases hut : u = t
  · rw [hut, update_self] at hu
    exact absurd hu (hno c size)
  · rwa [update_of_ne hut] at hu

/-- While a call holds a cell, the counter is below its maximum. -/
theorem MqOk.entry_lt (h : MqOk id k queue free) {c : ℕ} (hc : (k.pc t).cellOf id = some c) :
    (k.messageQueue id).entry < rtMqEntryMax := by
  have hlt := h.shared.length_lt hc
  have hmax := h.max
  have hentry := h.entry
  simp only [length_append] at hlt
  omega

/-- Every event keeps the cells of the queue, and moves the messages as its operation says. -/
theorem MqOk.step (h : MqOk id k queue free) (hstep : MqStep id k e ret k' op) :
    ∃ queue' free', MqOk id k' queue' free' ∧ MqMoved id k ret k' queue op queue' := by
  have hlength := h.length_le
  cases hstep with
  | stay hmq hpc =>
    have hheld : (fun u => (k'.pc u).cellOf id) = fun u => (k.pc u).cellOf id := by
      funext u
      rcases hpc u with hsame | ⟨hold, hnew⟩
      · rw [hsame]
      · rw [hold, hnew]
    refine ⟨queue, free, h.relink (hmq ▸ .refl _) (hmq ▸ h.cells) (hmq ▸ h.entry) (hheld ▸ h.shared),
      .stay (hmq ▸ .refl _) fun u c size hu => ?_⟩
    rcases hpc u with hsame | ⟨-, hnew⟩
    · rw [← hsame, hu]
    · simp [hu, Pc.cellOf] at hnew
  | @hold t c mq pc hidle htake hcall hmq hpc =>
    subst hmq
    obtain ⟨rest, rfl, hcells, hsame, hentry⟩ := h.cells.takeFree htake
    have hcell : pc.cellOf id = some c := by
      rcases hcall with ⟨bytes, prio, rfl⟩ | ⟨bytes, rfl, -⟩ <;> simp [Pc.cellOf]
    have hno : ∀ c size, pc ≠ .mqRecvCopy id c size := by
      rcases hcall with ⟨bytes, prio, rfl⟩ | ⟨bytes, rfl, -⟩ <;> simp
    refine ⟨queue, rest, h.relink hsame hcells (hentry.trans h.entry) ?_, .stay hsame fun u c size hu =>
      recvCopy_of_update hpc hno hu⟩
    rw [cellOf_update hpc, hcell]
    exact (h.shared.perm perm_middle.symm).hold hidle
  | @send t c bytes prio hat hmq hpc hret =>
    have hc : (k.pc t).cellOf id = some c := by simp [hat, Pc.cellOf]
    obtain ⟨hcells, hentry, hwritten⟩ := h.cells.sendLink bytes prio (h.held hc).1 (h.held hc).2 (by omega)
    obtain ⟨hok, hwritten⟩ := h.placed hwritten hentry (h.entry_lt hc) hmq hcells
      (cellOf_update hpc ▸ h.shared.release hc)
    exact ⟨_, free, hok, .send (h.held hc).1 (h.recvCopy_ne_held hc (by simp [hat])) hwritten
      fun u c size hu => recvCopy_of_update hpc (by simp) hu⟩
  | @urgent t c bytes hat hmq hpc hret =>
    have hc : (k.pc t).cellOf id = some c := by simp [hat, Pc.cellOf]
    obtain ⟨hcells, hentry, hwritten⟩ := h.cells.urgentLink bytes (h.held hc).1 (h.held hc).2
    obtain ⟨hok, hwritten⟩ := h.counted hwritten hentry (h.entry_lt hc) hmq hcells rfl
      (cellOf_update hpc ▸ h.shared.release hc)
    exact ⟨c :: queue, free, hok, .urgent (h.held hc).1 (h.recvCopy_ne_held hc (by simp [hat])) hwritten
      fun u c size hu => recvCopy_of_update hpc (by simp) hu⟩
  | @isrSend c mq bytes htake hmq hpc =>
    obtain ⟨rest, rfl, hcells1, hsame, hentry1⟩ := h.cells.takeFree htake
    obtain ⟨hqueue, hfree⟩ := h.cells.head_not_mem
    obtain ⟨hcells, hentry, hwritten⟩ := hcells1.sendLink bytes 0 hqueue hfree
      (by rw [hsame.maxMsgs]; omega)
    obtain ⟨hok, hwritten⟩ := h.placed (hsame.written hwritten) (hentry.trans hentry1)
      (h.entry_lt_of_free (cons_ne_nil c rest)) hmq hcells (hpc ▸ h.shared.perm perm_middle.symm)
    exact ⟨_, rest, hok, .send hqueue (h.recvCopy_ne (by simp)) hwritten fun u c size hu => hpc ▸ hu⟩
  | @take t c size mq hidle hsome hunlink hmq hpc =>
    subst hmq
    obtain ⟨rest, rfl, hcells, hsame, hentry⟩ := h.cells.unlinkFirst hunlink
    have hcell : (Pc.mqRecvCopy id c size).cellOf id = some c := if_pos rfl
    refine ⟨rest, free, h.relink hsame hcells (by rw [hentry, h.entry]; rfl) ?_, .take rfl hsame hpc⟩
    rw [cellOf_update hpc, hcell]
    exact Shared.hold h.shared hidle
  | @deliver t c size hat hmq hpc hmessage hret =>
    have hc : (k.pc t).cellOf id = some c := by simp [hat, Pc.cellOf]
    obtain ⟨hcells, hsame, hentry⟩ := h.cells.putFree (h.held hc).1 (h.held hc).2
    rw [← hmq] at hcells hsame hentry
    refine ⟨queue, c :: free, h.relink hsame hcells (hentry.trans h.entry) ?_,
      .deliver hat hsame hpc hmessage hret⟩
    rw [cellOf_update hpc]
    exact (h.shared.release hc).perm perm_middle
  | @reset mq hrelease hmq hpc =>
    have hsteps : queue.length ≤ (k.messageQueue id).maxMsgs := by omega
    obtain ⟨mq', hrelease', hcells, hsame⟩ := h.cells.releaseAll hsteps
    obtain rfl := mem_unique hrelease hrelease'
    have hsame' : (k.messageQueue id).Relinked (k'.messageQueue id) :=
      hmq ▸ hsame.trans (.of_cell rfl rfl rfl rfl rfl)
    refine ⟨[], queue.reverse ++ free, h.relink hsame' ?_ (by rw [hmq]; rfl) ?_, .reset hsame' hpc⟩
    · rw [hmq]
      exact hcells.congr rfl rfl rfl rfl
    · rw [hpc]
      exact h.shared.perm ((reverse_perm queue).append_right free)

/-- The kernel with one message queue initialised. -/
def mqSystem (T : Type*) [DecidableEq T] (usingPriority : Bool) (id : ℕ) :
    TransitionSystem (State T) (KernelEvent T) :=
  (system T).startingIn fun k => MqInitialized usingPriority (k.messageQueue id)

/-- The second section of a send or an urgent send in progress, and a send of an interrupt that finds a
free cell, return `RT_EOK` and not the overflow of the counter; a receive that finds the counter above
zero finds a message, and the loop of a reset ends. -/
structure MqNeverFails (id : ℕ) (k : State T) : Prop where
  send : ∀ t c bytes prio, k.pc t = .mqSendFill id c bytes prio →
    ((k.setPc t .idle).mqSendLink id c bytes prio).2 = rtEok
  urgent : ∀ t c bytes, k.pc t = .mqUrgentFill id c bytes →
    ((k.setPc t .idle).mqUrgentLink id c bytes).2 = rtEok
  isrSend : ∀ bytes r, k.rtMqSend id bytes = some r → bytes.length ≤ (k.messageQueue id).msgSize →
    (k.messageQueue id).msgQueueFree ≠ none → r.2 = rtEok
  recv : (k.messageQueue id).entry ≠ 0 → (k.messageQueue id).unlinkFirst.isSome
  reset : (k.rtMqReset id).isSome

/-- The counter of a queue whose cells are conserved does not overflow. -/
theorem MqOk.neverFails (h : MqOk id k queue free) : MqNeverFails id k := by
  have hlength := h.length_le
  constructor
  · intro t c bytes prio hat
    have hc : (k.pc t).cellOf id = some c := by simp [hat, Pc.cellOf]
    obtain ⟨-, hentry, -⟩ := h.cells.sendLink bytes prio (h.held hc).1 (h.held hc).2 (by omega)
    have hlt := h.entry_lt hc
    rw [mqSendLink, (mqCount_messageQueue ..).2.2]
    exact if_pos (hentry.trans_lt hlt)
  · intro t c bytes hat
    have hc : (k.pc t).cellOf id = some c := by simp [hat, Pc.cellOf]
    obtain ⟨-, hentry, -⟩ := h.cells.urgentLink bytes (h.held hc).1 (h.held hc).2
    have hlt := h.entry_lt hc
    rw [mqUrgentLink, (mqCount_messageQueue ..).2.2]
    exact if_pos (hentry.trans_lt hlt)
  · intro bytes r heq hsize hfree
    obtain ⟨⟨c, mq⟩, htake⟩ := ne_none_iff_exists'.mp
      (mt map_eq_none_iff.mp hfree : (k.messageQueue id).takeFree ≠ none)
    obtain ⟨rest, rfl, hcells, hsame, hentry1⟩ := h.cells.takeFree htake
    obtain ⟨hqueue, hrest⟩ := h.cells.head_not_mem
    obtain ⟨-, hentry, -⟩ := hcells.sendLink bytes 0 hqueue hrest (by rw [hsame.maxMsgs]; omega)
    have hlt := h.entry_lt_of_free (cons_ne_nil c rest)
    have hself : (k.setMq id mq).messageQueue id = mq := update_self ..
    obtain ⟨-, heq⟩ := ite_none_left_eq_some.mp heq
    rw [if_neg (by omega), htake] at heq
    cases heq
    rw [mqSendLink, (mqCount_messageQueue ..).2.2, hself]
    exact if_pos ((hentry.trans hentry1).trans_lt hlt)
  · intro hentry
    cases queue with
    | nil => exact absurd h.entry hentry
    | cons c rest => rw [MessageQueue.unlinkFirst, isSome_map, h.cells.messages.1, isSome_some]
  · have hresume : Confined [] none k ((k.rtSuspListResumeAll (.mqRecv id)
        rtError).rtSuspListResumeAll (.mqSend id) rtError) :=
      (((Frame.refl k).rtSuspListResumeAll _ _).rtSuspListResumeAll _ _).confined
    have hsteps : queue.length ≤ (k.messageQueue id).maxMsgs := by omega
    obtain ⟨mq, hrelease, -⟩ := h.cells.releaseAll hsteps
    unfold rtMqReset
    rw [isSome_map, hresume.messageQueue id (by simp), hrelease, isSome_some]

/-- In every run the free list, the list of messages and the calls in progress share the cells of the
pool, the counter is the number of messages, the tail is the last of them, and no call finds the
counter overflowed. -/
theorem mq_cells_conserved {usingPriority : Bool} (h : (mqSystem T usingPriority id).Reachable k) :
    ∃ queue free, MqOk id k queue free ∧ ((k.messageQueue id).msgQueueTail = none ↔ queue = []) ∧
      MqNeverFails id k := by
  have hok : ∃ queue free, MqOk id k queue free := by
    apply h.invariant
    · intro k hk
      exact ⟨_, _, (hk.2.ok hk.1.pc).1⟩
    · rintro k e k' ⟨queue, free, hok⟩ ⟨fuel, ret, heq⟩
      obtain ⟨queue', free', hok', -⟩ := hok.step (exec_mqStep heq)
      exact ⟨queue', free', hok'⟩
  obtain ⟨queue, free, hok⟩ := hok
  refine ⟨queue, free, hok, ?_, hok.neverFails⟩
  rw [hok.cells.tail, getLast?_eq_none_iff]

/-- The kernel at start-up with a message queue of two cells for messages of one byte. -/
def bootMq (usingPriority : Bool) {n : ℕ} (priority : Fin n → ℕ) : State (Fin n) :=
  { boot 32 priority fun _ => 10 with
    messageQueue := fun _ => .rtMqInit usingPriority (fun _ => ⟨none, 0, 0, []⟩) 1 2 .prio }

/-- It is booted. -/
theorem booted_bootMq (usingPriority : Bool) {n : ℕ} {priority : Fin n → ℕ}
    (hprio : ∀ t, priority t < 32) : (bootMq usingPriority priority).Booted :=
  ⟨⟨32, priority, fun _ => 10, by decide, hprio, rfl⟩, fun _ => rfl, fun _ => rfl, fun _ => rfl,
    fun _ => rfl⟩

/-- It is an initial state. -/
theorem bootMq_init (usingPriority : Bool) {n id : ℕ} {priority : Fin n → ℕ}
    (hprio : ∀ t, priority t < 32) :
    (mqSystem (Fin n) usingPriority id).init (bootMq usingPriority priority) :=
  ⟨booted_bootMq usingPriority hprio, _, _, _, _, by decide, rfl⟩

/-- A send between its two sections while the other cell holds a message. -/
theorem mq_cells_conserved_send : ∃ k : State (Fin 1), (mqSystem (Fin 1) true 0).Reachable k ∧
    (k.pc 0).cellOf 0 = some 0 ∧ (k.messageQueue 0).msgQueueHead = some 1 ∧
    ∃ queue free, MqOk 0 k queue free ∧ ((k.messageQueue 0).msgQueueTail = none ↔ queue = []) ∧
      MqNeverFails 0 k :=
  TransitionSystem.Reachable.exists_and₂ (exists_run
    (fun _ _ => True) 0 (bootMq true ![10]) [.isr (.startup 0), .schedulerStart,
      .call (.mqSend 0 [7] 3 0), .proceed, .call (.mqSend 0 [8] 5 0)]
    (bootMq_init true (by decide)) (fun _ _ _ _ h => h)) fun _ hreach _ _ =>
    mq_cells_conserved hreach

end State

end RtThread.Kernel
