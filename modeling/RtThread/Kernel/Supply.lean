import RtThread.Kernel.MailboxDeque
import RtThread.Kernel.MqConserved
import RtThread.Kernel.SemTokens

/-!
# What waiting threads wait for

A receiver waits for a message and a sender for a free slot; `supply` is the number of them that a
mailbox or a message queue has for the threads of one list. While threads wait on a list, the supply is
meant for the threads that have been woken from it and have not gone on yet. `Traffic` says how a call
may change the supply: it brings one more when it wakes a thread of the list, a woken thread that goes
on uses one up or finds none, and a thread that begins to wait has found none.
-/

namespace RtThread.Kernel

open Lib Function List Option

/-- The number of free cells. -/
def MessageQueue.freeCount (mq : MessageQueue) : ℕ := Linked.count mq.next mq.maxMsgs mq.msgQueueFree

/-- The free cells of a queue are counted. -/
theorem MessageQueue.Cells.freeCount {mq : MessageQueue} {queue free : List ℕ}
    (h : mq.Cells queue free) (hle : queue.length + free.length ≤ mq.maxMsgs) :
    mq.freeCount = free.length := h.unused.count_eq (by omega)

/-- A mailbox counts at most its size, and its size fits the counter. -/
structure Mailbox.Bounded (mb : Mailbox) : Prop where
  entry : mb.entry ≤ mb.size
  size : mb.size ≤ rtMbEntryMax

namespace State

variable {T : Type*} {k k' k1 : State T} {t : T} {head : ListHead}

  {wakes : Option ListHead} {gain : ℕ} {ret : Option ℤ}
variable {id value : ℕ}
variable {bytes free queue : List ℕ} {c size start : ℕ} {mb : Mailbox} {mq : MessageQueue}
  {own : ListHead} {pc : Pc} {prio timeout : ℤ} {suspendFlag : SuspendFlag}

/-- What there is for the threads of a list: messages for receivers, free slots for senders. -/
def supply (k : State T) : ListHead → ℕ
  | .mbRecv id => (k.mailbox id).entry
  | .mbSend id => (k.mailbox id).size - (k.mailbox id).entry
  | .mqRecv id => (k.messageQueue id).entry
  | .mqSend id => (k.messageQueue id).freeCount
  | _ => 0

/-- The mailboxes stay bounded. -/
def MbKept (k k1 : State T) : Prop := ∀ id, (k.mailbox id).Bounded → (k1.mailbox id).Bounded

/-- The mailboxes do not change. -/
theorem MbKept.of_eq (h : k1.mailbox = k.mailbox) : MbKept k k1 := fun id hid => by
  rw [h]
  exact hid

/-- One mailbox changes and stays bounded. -/
theorem MbKept.of_update (h : k1.mailbox = update k.mailbox id mb)
    (hmb : (k.mailbox id).Bounded → mb.Bounded) : MbKept k k1 := by
  intro other hother
  rw [h]
  by_cases hid : other = id
  · subst hid
    rw [update_self]
    exact hmb hother
  · rwa [update_of_ne hid]

/-- The supply depends on the mailboxes and the message queues. -/
theorem supply_congr (hmailbox : k'.mailbox = k.mailbox) (hmq : k'.messageQueue = k.messageQueue) :
    k'.supply head = k.supply head := by
  cases head <;> simp [supply, hmailbox, hmq]

/-- The supply does not grow by more than the gain, if neither the supply of the receivers nor that of the
senders does. -/
theorem supply_le {recv send : ListHead} {gainRecv gainSend : ℕ}
    (hother : recv ≠ head → send ≠ head → k1.supply head = k.supply head)
    (hrecv : k1.supply recv ≤ k.supply recv + gainRecv) (hsend : k1.supply send ≤ k.supply send + gainSend)
    (hgainRecv : recv = head → gainRecv ≤ gain) (hgainSend : send = head → gainSend ≤ gain) :
    k1.supply head ≤ k.supply head + gain := by
  by_cases hr : recv = head
  · subst hr
    exact hrecv.trans (Nat.add_le_add_left (hgainRecv rfl) _)
  by_cases hs : send = head
  · subst hs
    exact hsend.trans (Nat.add_le_add_left (hgainSend rfl) _)
  rw [hother hr hs]
  exact Nat.le_add_right _ _

/-- One mailbox changes. -/
theorem supply_setMailbox_le {gainRecv gainSend : ℕ} (hmq : k1.messageQueue = k.messageQueue)
    (hmailbox : k1.mailbox = update k.mailbox id mb) (hentry : mb.entry ≤ (k.mailbox id).entry + gainRecv)
    (hslots : mb.size - mb.entry ≤ (k.mailbox id).size - (k.mailbox id).entry + gainSend)
    (hrecv : .mbRecv id = head → gainRecv ≤ gain) (hsend : .mbSend id = head → gainSend ≤ gain) :
    k1.supply head ≤ k.supply head + gain := by
  refine supply_le (fun hr hs => ?_) ?_ ?_ hrecv hsend
  · cases head <;> simp_all [supply, eq_comm]
  · simpa [supply, hmailbox] using hentry
  · simpa [supply, hmailbox] using hslots

/-- One message queue changes. -/
theorem supply_setMq_le {gainRecv gainSend : ℕ} (hmailbox : k1.mailbox = k.mailbox)
    (hmq : k1.messageQueue = update k.messageQueue id mq)
    (hentry : mq.entry ≤ (k.messageQueue id).entry + gainRecv)
    (hfree : mq.freeCount ≤ (k.messageQueue id).freeCount + gainSend)
    (hrecv : .mqRecv id = head → gainRecv ≤ gain) (hsend : .mqSend id = head → gainSend ≤ gain) :
    k1.supply head ≤ k.supply head + gain := by
  refine supply_le (fun hr hs => ?_) ?_ ?_ hrecv hsend
  · cases head <;> simp_all [supply, eq_comm]
  · simpa [supply, hmq] using hentry
  · simpa [supply, hmq] using hfree

/-- A value is put into a mailbox: there is a message more. -/
theorem supply_put_le (hmq : k1.messageQueue = k.messageQueue)
    (hmailbox : k1.mailbox = update k.mailbox id mb) (hsize : mb.size = (k.mailbox id).size)
    (hentry : mb.entry = (k.mailbox id).entry + 1) :
    k1.supply head ≤ k.supply head + (if .mbRecv id = head then 1 else 0) :=
  supply_setMailbox_le hmq hmailbox hentry.le (by omega) (fun hhead => (if_pos hhead).ge)
    fun _ => Nat.zero_le _

/-- A queue whose cells are conserved counts its free cells. -/
theorem MqOk.freeCount (h : MqOk id k queue free) :
    (k.messageQueue id).freeCount = free.length := h.cells.freeCount h.length_le

/-- A free cell is taken. -/
theorem MqOk.takeFree (h : MqOk id k queue free) (htake : (k.messageQueue id).takeFree = some (c, mq)) :
    mq.entry = (k.messageQueue id).entry ∧ mq.freeCount = (k.messageQueue id).freeCount - 1 := by
  have hlength := h.length_le
  obtain ⟨rest, rfl, hcells, hsame, hentry⟩ := h.cells.takeFree htake
  simp only [length_cons] at hlength
  refine ⟨hentry, ?_⟩
  rw [h.freeCount, hcells.freeCount (by rw [hsame.maxMsgs]; omega)]
  rfl

/-- The thread runs, in no call that waits or woken from this list. -/
structure Calls (k : State T) (t : T) (own : ListHead) : Prop where
  running : (k.stat t).code = .running
  place : (k.pc t).waitsOn = none ∨ (k.pc t).waitsOn = some own

/-- It can only have been woken from this list. -/
theorem Calls.own_eq (h : Calls k t own) (hwaits : (k.pc t).waitsOn = some head) : own = head := by
  rcases h.place with hnone | hsome
  · cases hnone.symm.trans hwaits
  · exact mem_unique hsome hwaits

variable [DecidableEq T]

/-- The thread was on the list, has been woken with `RT_EOK` and has not gone on yet. -/
def WokenFrom (k : State T) (head : ListHead) (t : T) : Prop :=
  k.Woken (fun pc => pc.waitsOn = some head) t

/-- While threads wait on the list, at most as much is there for them as threads have been woken from
it. -/
def Supplied (k : State T) (head : ListHead) : Prop :=
  ∃ n, HasCount (k.WokenFrom head) n ∧ (k.lists head ≠ [] → k.supply head ≤ n)

/-- An object changes, and the running thread may go to another place. With a gain of one the supply may
grow by one. A woken thread that goes on uses one up or finds none. -/
inductive Moves (k : State T) (head : ListHead) (gain : ℕ) (k1 : State T) : Prop where
  | stay : k1.toSched = k.toSched → k1.pc = k.pc → k1.error = k.error → MbKept k k1 →
      k1.supply head ≤ k.supply head + gain → Moves k head gain k1
  | go {t : T} {pc : Pc} : (k.stat t).code = .running → k1.toSched = k.toSched →
      k1.pc = update k.pc t pc → pc.waitsOn = none → (∀ u, u ≠ t → k1.error u = k.error u) →
      MbKept k k1 → k1.supply head ≤ k.supply head + gain →
      ((k.pc t).waitsOn = some head → k.error t = rtEok →
        k1.supply head ≤ k.supply head - 1 + gain) → Moves k head gain k1

/-- What a call does to the threads of a list and to the supply; `wakes` is the list whose first thread
may be woken. -/
inductive Traffic (k : State T) (head : ListHead) (wakes : Option ListHead) : State T → Prop where
  | own {k1 : State T} : Moves k head 0 k1 → Traffic k head wakes k1
  | wake {k1 : State T} {other : ListHead} : Moves k head (if other = head then 1 else 0) k1 →
      wakes = some other → other.isWait → Traffic k head wakes (k1.wakeFirst other)
  | block {k1 k2 : State T} {t : T} {other : ListHead} {flag : IpcFlag} {suspendFlag : SuspendFlag}
      {timeout : ℤ} {pc : Pc} {ret : Option ℤ} :
      k1.blockOn t other flag suspendFlag timeout pc = some (k2, ret) → (k.stat t).code = .running →
      k1.toSched = k.toSched → k1.pc = k.pc → (∀ u, u ≠ t → k1.error u = k.error u) →
      k1.mailbox = k.mailbox → other.isWait → pc.waitsOn = some other →
      ((k.pc t).waitsOn = some head → other = head) →
      k1.supply head ≤ k.supply head → (other = head → k1.supply head = 0) → Traffic k head wakes k2

/-- A wake-up does not change the supply. -/
theorem supply_wakeFirst (k : State T) (other : ListHead) :
    (k.wakeFirst other).supply head = k.supply head := by
  obtain ⟨s, error, heq⟩ := wakeFirst_frame k other
  rw [heq]
  exact supply_congr rfl rfl

/-- The own part of a call: the threads that have been woken, and what is there for them. -/
theorem Moves.supplied (h : Moves k head gain k1) (hk : k.Supplied head) :
    ∃ n, HasCount (k1.WokenFrom head) n ∧ (k.lists head ≠ [] → k1.supply head ≤ n + gain) := by
  obtain ⟨n, hcount, hle⟩ := hk
  cases h with
  | stay hsched hpc herror _ hsupply =>
    refine ⟨n, hcount.congr fun u => ?_, fun hne => ?_⟩
    · exact woken_congr (congrFun hpc u) (by rw [hsched]) (congrFun herror u)
    · exact hsupply.trans (Nat.add_le_add_right (hle hne) gain)
  | @go t pc hrunning hsched hpc hplace herror _ hsupply hwoken =>
    have hothers : ∀ u, u ≠ t → (k1.WokenFrom head u ↔ k.WokenFrom head u) := fun u hu =>
      woken_congr (by rw [hpc, update_of_ne hu]) (by rw [hsched]) (herror u hu)
    have hafter : ¬ k1.WokenFrom head t := by
      rintro ⟨hwaits, -⟩
      rw [hpc, update_self, hplace] at hwaits
      cases hwaits
    by_cases hbefore : k.WokenFrom head t
    · obtain ⟨m, rfl, hm⟩ := hcount.lose hbefore hafter hothers
      refine ⟨m, hm, fun hne => ?_⟩
      have hused := hwoken hbefore.1 hbefore.2.2
      have hold := hle hne
      omega
    · refine ⟨n, hcount.congr fun u => ?_, fun hne => ?_⟩
      · by_cases hu : u = t
        · rw [hu]
          exact iff_of_false hafter hbefore
        · exact hothers u hu
      · exact hsupply.trans (Nat.add_le_add_right (hle hne) gain)

/-- The own part of a call leaves the threads where they belong. -/
theorem Moves.placed (h : Moves k head gain k1) (hk : k.Placed) : k1.Placed := by
  cases h with
  | stay hsched hpc => exact hk.congr hsched hpc
  | @go t pc hrunning hsched hpc =>
    obtain ⟨hsusp, hfresh⟩ := view_of_running hrunning
    exact (hk.setPc hsusp hfresh pc).congr hsched hpc

/-- The own part of a call leaves the scheduler. -/
theorem Moves.sched (h : Moves k head gain k1) : k1.toSched = k.toSched := by
  cases h with
  | stay hsched | go _ hsched => exact hsched

/-- A wake-up brings no thread to a list. -/
theorem lists_of_wakeFirst {other : ListHead} (h : k.ReadyQueue) (hother : other.isWait)
    (hwait : head.isWait) (hne : (k.wakeFirst other).lists head ≠ []) : k.lists head ≠ [] := by
  obtain ⟨-, heq⟩ | ⟨t, rest, -, -, s, -, hwaits, heq⟩ := wakeFirst_cases h hother
  · rwa [heq] at hne
  · have hsched : (k.wakeFirst other).toSched = s := by
      rw [heq]
      split <;> rfl
    obtain ⟨u, hu⟩ := exists_mem_of_ne_nil _ hne
    rw [← Sched.waits_waiting hwait, hsched, hwaits] at hu
    have hmem := Waits.mem_of_ready_waiting hu
    rw [Sched.waits_waiting hwait] at hmem
    exact ne_nil_of_mem hmem

/-- A call keeps the supply for the threads that have been woken, when the first thread that it wakes is
not just timing out. -/
theorem Traffic.supplied (h : Traffic k head wakes k') (hplaced : k.Placed) (hwait : head.isWait)
    (hok : wakes = some head → k.FirstCanStop head) (hk : k.Supplied head) : k'.Supplied head := by
  cases h with
  | own hmoves =>
    obtain ⟨n, hcount, hle⟩ := hmoves.supplied hk
    refine ⟨n, hcount, fun hne => hle ?_⟩
    rwa [← hmoves.sched]
  | @wake k1 other hmoves hwakes hother =>
    obtain ⟨n, hcount, hle⟩ := hmoves.supplied hk
    have hplaced1 := hmoves.placed hplaced
    have hlists : (k1.wakeFirst other).lists head ≠ [] → k.lists head ≠ [] := fun hne => by
      rw [← hmoves.sched]
      exact lists_of_wakeFirst hplaced1.queue hother hwait hne
    obtain ⟨hcount', t, ht, -, hplace⟩ | ⟨hcount', hfail⟩ :=
      hasCount_wakeFirst hplaced1 hother hcount
    · obtain rfl : other = head :=
        some.inj ((hplaced1.waitsOn_of_head? hother ht).symm.trans hplace)
      refine ⟨n + 1, hcount', fun hne => ?_⟩
      rw [supply_wakeFirst]
      simpa using hle (hlists hne)
    · refine ⟨n, hcount', fun hne => ?_⟩
      rw [supply_wakeFirst]
      by_cases hsame : other = head
      · subst hsame
        -- The first thread of the list could be woken, so it was.
        obtain ⟨t, rest, hlist⟩ := exists_cons_of_ne_nil (hlists hne)
        have ht : (k1.lists other).head? = some t := by rw [hmoves.sched, hlist]; rfl
        have hplace := hplaced1.waitsOn_of_head? hother ht
        have hactive := hok hwakes t (by rw [hlist]; rfl)
        have hstop : k1.waits.canStop t = false := (hfail t ht).resolve_right fun hno => hno hplace
        rw [hmoves.sched] at hstop
        simp only [Waits.canStop, Bool.or_eq_false_iff, Bool.not_eq_false'] at hstop
        exact absurd ((hactive hstop.1).symm.trans hstop.2) (by decide)
      · simpa [hsame] using hle (hlists hne)
  | @block k1 k2 t other flag suspendFlag timeout pc ret heq hrunning hsched hpc herror _ hother hplace
      hsame hle hzero =>
    obtain ⟨n, hcount, hsupply⟩ := hk
    have hqueue : k1.ReadyQueue := by
      rw [hsched]
      exact hplaced.queue
    have hrunning1 : (k1.stat t).code = .running := by rw [hsched]; exact hrunning
    have hafter : ¬ k'.WokenFrom head t := not_woken_blockOn hqueue hother hrunning1 heq
    have hothers : ∀ u, u ≠ t → (k'.WokenFrom head u ↔ k.WokenFrom head u) := fun u hu =>
      (woken_blockOn_of_ne hqueue hother heq hu).trans
        (woken_congr (congrFun hpc u) (by rw [hsched]) (herror u hu))
    obtain ⟨-, -, hcode⟩ | ⟨s, -, hwaits, -, -, rfl⟩ := blockOn_cases hqueue hother heq
    · exact absurd hrunning1 hcode
    · by_cases hbefore : k.WokenFrom head t
      · obtain ⟨m, rfl, hm⟩ := hcount.lose hbefore hafter hothers
        refine ⟨m, hm, fun _ => ?_⟩
        exact (hzero (hsame hbefore.1)).trans_le (Nat.zero_le m)
      · refine ⟨n, hcount.congr fun u => ?_, fun hne => ?_⟩
        · by_cases hu : u = t
          · rw [hu]
            exact iff_of_false hafter hbefore
          · exact hothers u hu
        · by_cases hhead : other = head
          · exact (hzero hhead).trans_le (Nat.zero_le n)
          · refine hle.trans (hsupply ?_)
            obtain ⟨u, hu⟩ := exists_mem_of_ne_nil _ hne
            rw [← Sched.waits_waiting hwait, hwaits, Waits.mem_block_waiting] at hu
            have hmem := hu.resolve_right fun hentered => hhead hentered.2.symm
            rw [Sched.waits_waiting hwait, hsched] at hmem
            exact ne_nil_of_mem hmem

/-- A call keeps the mailboxes bounded. -/
theorem Traffic.kept (h : Traffic k head wakes k') : MbKept k k' := by
  have hmoves : ∀ {gain : ℕ} {k1 : State T}, Moves k head gain k1 → MbKept k k1 := by
    intro gain k1 hmoves
    cases hmoves with
    | stay _ _ _ hkept | go _ _ _ _ _ hkept => exact hkept
  cases h with
  | own hown => exact hmoves hown
  | @wake k1 other hown =>
    obtain ⟨s, error, heq⟩ := wakeFirst_frame k1 other
    have hkept := hmoves hown
    rw [heq]
    exact hkept
  | block heq _ _ _ _ hmailbox =>
    obtain ⟨s, pc', -, rfl⟩ := blockOn_frame heq
    exact .of_eq hmailbox

/-! ## Mailboxes -/

/-- A running thread that does not wait on the list goes to another place, and the supply does not grow
by more than the gain. -/
theorem Moves.of_place (hcalls : Calls k t own) (hsched : k1.toSched = k.toSched) (hpc : k1.pc = update k.pc t pc)
    (hnew : pc.waitsOn = none) (herror : ∀ u, u ≠ t → k1.error u = k.error u) (hkept : MbKept k k1)
    (hsupply : k1.supply head ≤ k.supply head + gain)
    (hown : own = head → k1.supply head ≤ k.supply head - 1) : Moves k head gain k1 := by
  refine .go hcalls.running hsched hpc hnew herror hkept hsupply fun hwaits _ => ?_
  exact (hown (hcalls.own_eq hwaits)).trans (Nat.le_add_right _ _)

theorem Moves.refl : Moves k head 0 k := .stay rfl rfl rfl (.of_eq rfl) le_rfl

/-- A thread that was not woken with `RT_EOK` returns. -/
theorem Moves.of_error (hrunning : (k.stat t).code = .running) (herror : k.error t ≠ rtEok) :
    Moves k head 0 (k.setPc t .idle) :=
  .go hrunning rfl rfl rfl (fun _ _ => rfl) (.of_eq rfl) (supply_congr rfl rfl).le
    fun _ heok => absurd heok herror

/-- A running thread finds nothing and returns. -/
theorem Moves.of_empty (hcalls : Calls k t own)
    (hsched : k1.toSched = k.toSched) (hpc : k1.pc = update k.pc t pc)
    (hnew : pc.waitsOn = none) (herror : ∀ u, u ≠ t → k1.error u = k.error u)
    (hmailbox : k1.mailbox = k.mailbox) (hmq : k1.messageQueue = k.messageQueue)
    (hzero : own = head → k1.supply head = 0) : Moves k head 0 k1 :=
  .of_place hcalls hsched hpc hnew herror (.of_eq hmailbox) (supply_congr hmailbox hmq).le
    fun hown => (hzero hown).trans_le (Nat.zero_le _)

/-- A call that waits is traffic, when it is served with what there is for its list. -/
theorem WaitCall.traffic {o : Object T} {empty : Prop} {served : State T → Option ℤ → Prop}
    (h : WaitCall o k t own empty served k' ret) (hcalls : Calls k t own) (hwait : own.isWait)
    (hempty : empty → k.supply own = 0)
    (hserve : ¬ empty → served k' ret → Traffic k head wakes k') : Traffic k head wakes k' := by
  have hzero : ∀ k1 : State T, empty → k1.mailbox = k.mailbox → k1.messageQueue = k.messageQueue →
      own = head → k1.supply head = 0 := by
    rintro k1 hnone hmailbox hmq rfl
    rw [supply_congr hmailbox hmq, hempty hnone]
  cases h with
  | refuse hsame => exact hsame ▸ .own .refl
  | leave herror hleave => exact hleave ▸ .own (.of_error hcalls.running herror)
  | expire hnone hleave =>
    exact hleave ▸ .own (.of_empty hcalls rfl rfl rfl (fun u hu => update_of_ne hu ..) rfl rfl
      (hzero _ hnone rfl rfl))
  | block hnone hnew _ _ heq =>
    exact .block heq hcalls.running rfl rfl (fun u hu => update_of_ne hu ..) rfl hwait hnew hcalls.own_eq
      (supply_congr rfl rfl).le (hzero _ hnone rfl rfl)
  | serve hsome hserved => exact hserve hsome hserved

/-- A send. -/
theorem MbSends.traffic (h : MbSends k t id value k' ret) (hmb : (k.mailbox id).Bounded)
    (hcalls : Calls k t (.mbSend id)) : Traffic k head (some (.mbRecv id)) k' := by
  have hentry := hmb.entry
  have hmax := hmb.size
  refine WaitCall.traffic h hcalls rfl (fun hfull => by simp [supply, hfull]) ?_
  rintro hroom ⟨rfl, -⟩
  unfold mbPut
  have hlt : ((k.setPc t .idle).mailbox id).entry < rtMbEntryMax := by
    change (k.mailbox id).entry < rtMbEntryMax
    omega
  rw [if_pos hlt]
  refine .wake (.of_place hcalls rfl rfl rfl (fun _ _ => rfl) (.of_update rfl fun _ => ?_)
    (supply_put_le rfl rfl rfl rfl) ?_) rfl rfl
  · exact ⟨Nat.lt_of_le_of_ne hentry hroom, hmax⟩
  · rintro rfl
    simp only [supply, setMailbox, setPc, update_self]
    omega

/-- A send from an interrupt. -/
theorem rtMbSend_traffic (hmb : (k.mailbox id).Bounded) (value : ℕ) :
    Traffic k head (some (.mbRecv id)) (k.rtMbSend id value).1 := by
  have hentry := hmb.entry
  have hmax := hmb.size
  unfold rtMbSend
  dsimp only
  split
  · exact .own .refl
  next hroom =>
    have hlt : (k.mailbox id).entry < rtMbEntryMax := by omega
    unfold mbPut
    rw [if_pos hlt]
    refine .wake (.stay rfl rfl rfl (.of_update rfl fun _ => ?_) (supply_put_le rfl rfl rfl rfl)) rfl rfl
    exact ⟨Nat.lt_of_le_of_ne hentry hroom, hmax⟩

theorem rtMbUrgent_traffic (k : State T) (id value : ℕ) :
    Traffic k head (some (.mbRecv id)) (k.rtMbUrgent id value).1 := by
  unfold rtMbUrgent
  dsimp only
  split
  · exact .own .refl
  next hroom =>
    refine .wake (.stay rfl rfl rfl (.of_update rfl fun hmb => ?_) (supply_put_le rfl rfl rfl rfl)) rfl rfl
    exact ⟨Nat.lt_of_le_of_ne hmb.entry hroom, hmb.size⟩

/-- A receive. -/
theorem MbRecvs.traffic (h : MbRecvs k t id k' ret) (hcalls : Calls k t (.mbRecv id)) :
    Traffic k head (some (.mbSend id)) k' := by
  refine WaitCall.traffic h hcalls rfl (fun hempty => hempty) ?_
  rintro - ⟨rfl, -⟩
  refine .wake (.of_place hcalls rfl rfl rfl (fun _ _ => rfl)
    (.of_update rfl fun hmb => ?_) ?_ ?_) rfl rfl
  · exact ⟨(Nat.sub_le _ _).trans hmb.entry, hmb.size⟩
  · refine supply_setMailbox_le rfl rfl (Nat.sub_le _ _) ?_ (fun _ => Nat.zero_le _) fun hhead => (if_pos hhead).ge
    dsimp only [setPc]
    omega
  · rintro rfl
    simp [supply, setMailbox, setPc]

/-! ## Message queues -/

/-- The first section of a send or an urgent send takes a free cell. -/
theorem Moves.takeFree (h : MqOk id k queue free) (hcalls : Calls k t (.mqSend id))
    (htake : (k.messageQueue id).takeFree = some (c, mq)) (hnew : pc.waitsOn = none) :
    Moves k head 0 ((k.setMq id mq).setPc t pc) := by
  obtain ⟨hentry, hfree⟩ := h.takeFree htake
  refine .of_place hcalls rfl rfl hnew (fun _ _ => rfl) (.of_eq rfl) ?_ fun hhead => ?_
  · exact supply_setMq_le rfl rfl hentry.le (by rw [hfree]; exact Nat.sub_le _ _)
      (fun _ => le_rfl) fun _ => le_rfl
  · subst hhead
    simp [supply, setMq, setPc, hfree]

/-- The first section of a send. -/
theorem MqSends.traffic (hsends : MqSends k t id bytes prio k' ret) (h : MqOk id k queue free)
    (hcalls : Calls k t (.mqSend id)) : Traffic k head wakes k' := by
  refine WaitCall.traffic hsends hcalls rfl (fun htake => ?_) ?_
  · rw [supply, h.freeCount, h.cells.takeFree_eq_none.mp htake]
    rfl
  · rintro - ⟨c, mq, htake, rfl, -⟩
    exact .own (.takeFree h hcalls htake rfl)

/-- `rt_mq_urgent`, with its first section. -/
theorem mqUrgent_traffic (h : MqOk id k queue free) (hrunner : k.runner = some t) (hidle : k.pc t = .idle)
    (heq : k.mqUrgent id bytes = some (k', ret)) : Traffic k head wakes k' := by
  obtain ⟨hcur, hrunning⟩ := runner_eq hrunner
  unfold mqUrgent at heq
  rw [hcur] at heq
  dsimp only at heq
  split at heq
  · cases heq
  · split at heq
    · cases heq
      exact .own .refl
    · split at heq
      next cell mq htake =>
        cases heq
        exact .own (.takeFree h ⟨hrunning, .inl (by rw [hidle]; rfl)⟩ htake rfl)
      · cases heq
        exact .own .refl

/-- The end of the second section of a send: a message is counted and a receiver woken. -/
theorem mqCount_traffic (hlt : mq.entry < rtMqEntryMax)
    (hmoves : Moves k head (if .mqRecv id = head then 1 else 0)
      (k1.setMq id { mq with entry := mq.entry + 1 })) :
    Traffic k head (some (.mqRecv id)) (k1.mqCount id mq).1 := by
  unfold mqCount
  rw [if_pos hlt]
  exact .wake hmoves rfl rfl

/-- The second section of a send or an urgent send. -/
theorem mqLink_traffic {queue' : List ℕ} (h : MqOk id k queue free) (hrunning : (k.stat t).code = .running)
    (hplace : (k.pc t).waitsOn = none) (hc : (k.pc t).cellOf id = some c)
    (hcells : mq.Cells queue' free) (hentry : mq.entry = (k.messageQueue id).entry)
    (hmax : mq.maxMsgs = (k.messageQueue id).maxMsgs) :
    Traffic k head (some (.mqRecv id)) ((k.setPc t .idle).mqCount id mq).1 := by
  have hlt := h.entry_lt hc
  have hlength := h.length_le
  have hfree : mq.freeCount = (k.messageQueue id).freeCount := by
    rw [h.freeCount]
    exact hcells.unused.count_eq (by omega)
  have hnone : (k.pc t).waitsOn ≠ some head := by simp [hplace]
  refine mqCount_traffic (by omega) (.go hrunning rfl rfl rfl (fun _ _ => rfl) (.of_eq rfl) ?_
    fun hwaits => absurd hwaits hnone)
  refine supply_setMq_le rfl rfl (Nat.add_le_add_right hentry.le 1) hfree.le ?_ fun _ => Nat.zero_le _
  rintro rfl
  simp

/-- A send from an interrupt, with both sections. -/
theorem rtMqSend_traffic {r : State T × ℤ}
    (h : MqOk id k queue free) (heq : k.rtMqSend id bytes = some r) :
    Traffic k head (some (.mqRecv id)) r.1 := by
  obtain ⟨-, heq⟩ := ite_none_left_eq_some.mp heq
  split at heq
  · cases heq
    exact .own .refl
  · split at heq
    next c mq htake =>
      cases heq
      have hlength := h.length_le
      obtain ⟨hentry1, hfree1⟩ := h.takeFree htake
      obtain ⟨rest, rfl, hcells1, hsame, -⟩ := h.cells.takeFree htake
      obtain ⟨hqueue, hrest⟩ := h.cells.head_not_mem
      simp only [length_cons] at hlength
      obtain ⟨hcells, hentry, hwritten⟩ := hcells1.sendLink bytes 0 hqueue hrest
        (by rw [hsame.maxMsgs]; omega)
      have hlt := h.entry_lt_of_free (cons_ne_nil c rest)
      have hself : (k.setMq id mq).messageQueue id = mq := update_self ..
      unfold mqSendLink
      dsimp only
      rw [hself]
      generalize ((mq.setNext c none).fill c bytes).link c 0 = mq' at hcells hentry hwritten ⊢
      have hfree : mq'.freeCount ≤ (k.messageQueue id).freeCount := by
        have hcount : mq'.freeCount = rest.length := hcells.unused.count_eq (by
          rw [hwritten.maxMsgs, hsame.maxMsgs]
          omega)
        rw [hcount, h.freeCount]
        exact Nat.le_succ _
      refine mqCount_traffic (by omega) (.stay rfl rfl rfl (.of_eq rfl) ?_)
      have hmq : ((k.setMq id mq).setMq id { mq' with entry := mq'.entry + 1 }).messageQueue =
          update k.messageQueue id { mq' with entry := mq'.entry + 1 } :=
        update_idem ..
      refine supply_setMq_le rfl hmq (Nat.add_le_add_right (hentry.trans hentry1).le 1) hfree ?_
        fun _ => Nat.zero_le _
      rintro rfl
      simp
    · cases heq
      exact .own .refl

/-- The first section of a receive. -/
theorem MqRecvs.traffic (hrecvs : MqRecvs k t id size k' ret) (h : MqOk id k queue free)
    (hcalls : Calls k t (.mqRecv id)) : Traffic k head wakes k' := by
  refine WaitCall.traffic hrecvs hcalls rfl (fun hempty => hempty) ?_
  rintro - ⟨c, mq, hunlink, rfl, -⟩
  have hlength := h.length_le
  obtain ⟨rest, rfl, hcells, hsame, hentry⟩ := h.cells.unlinkFirst hunlink
  have hfree : mq.freeCount = (k.messageQueue id).freeCount := by
    rw [h.freeCount]
    exact hcells.unused.count_eq (by rw [hsame.maxMsgs]; omega)
  refine .own (.of_place hcalls rfl rfl rfl (fun _ _ => rfl) (.of_eq rfl) ?_ fun hhead => ?_)
  · exact supply_setMq_le rfl rfl (hentry.trans_le (Nat.sub_le _ _)) hfree.le
      (fun _ => le_rfl) fun _ => le_rfl
  · subst hhead
    simp [supply, setMq, setPc, hentry]

/-- The copy of a receive and its second section. -/
theorem mqRecvCopy_traffic (h : MqOk id k queue free)
    (hrunning : (k.stat t).code = .running) (hpc : k.pc t = .mqRecvCopy id c size) :
    Traffic k head (some (.mqSend id)) (k.mqRecvCopy t id c size).1 := by
  have hc : (k.pc t).cellOf id = some c := by simp [hpc, Pc.cellOf]
  obtain ⟨hcells, hsame, hentry⟩ := h.cells.putFree (h.held hc).1 (h.held hc).2
  have hlt := h.shared.length_lt hc
  simp only [length_append] at hlt
  have hfree : ((k.messageQueue id).putFree c).freeCount = (k.messageQueue id).freeCount + 1 := by
    rw [h.freeCount]
    refine hcells.unused.count_eq ?_
    rw [hsame.maxMsgs, length_cons]
    omega
  have hnone : (k.pc t).waitsOn ≠ some head := by simp [hpc, Pc.waitsOn]
  refine .wake (.go hrunning rfl rfl rfl (fun _ _ => rfl) (.of_eq rfl) ?_
    fun hwaits => absurd hwaits hnone) rfl rfl
  refine supply_setMq_le rfl rfl hentry.le hfree.le (fun _ => Nat.zero_le _) ?_
  rintro rfl
  simp

end State

end RtThread.Kernel
