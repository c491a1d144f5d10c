import Mathlib.Data.List.Forall2
import RtThread.Kernel.MqConserved

/-!
# The order in which messages are received

A log next to the kernel records the messages that were linked and not taken, in the order in which they
will be taken, and the message that each receive in progress has taken. The list of messages carries
the messages of the log, and a receive delivers what the log says it has taken.

With `RT_USING_MESSAGEQUEUE_PRIORITY` and without urgent messages the log is ordered by priority, equal
priorities by the order of their links. An urgent message is put first, but it keeps the priority that
its cell had before, and a later message of a larger priority overtakes it.
-/

namespace RtThread.Kernel

open Lib Function List TransitionSystem

/-- A message that was linked: its bytes, its priority, and how many were linked before it. -/
structure Sent where
  bytes : List ℕ
  prio : ℤ
  number : ℕ
deriving DecidableEq

/-- The first message has the larger priority, or the same one and was linked earlier. -/
def Sent.Before (m m' : Sent) : Prop := m'.prio < m.prio ∨ m.prio = m'.prio ∧ m.number < m'.number

/-- The messages in the order in which they will be taken, those that receives in progress have taken,
the number of messages linked so far, and the last urgent message while no message was taken since. -/
structure MqLog (T : Type*) where
  queued : List Sent
  taken : T → Option Sent
  links : ℕ
  urgent : Option Sent

namespace MqLog

variable {T : Type*} [DecidableEq T]

/-- The log before any message. -/
def empty (T : Type*) : MqLog T := ⟨[], fun _ => none, 0, none⟩

/-- The place of a message that is sent. -/
def enqueue (usingPriority : Bool) (m : Sent) (queued : List Sent) : List Sent :=
  if usingPriority then insertBy (fun m => -m.prio) m queued else queued ++ [m]

/-- The log after an operation. -/
def record (usingPriority : Bool) (log : MqLog T) : Option (MqOp T) → MqLog T
  | none => log
  | some (.send bytes prio) =>
    { log with
      queued := enqueue usingPriority ⟨bytes, prio, log.links⟩ log.queued
      links := log.links + 1 }
  | some (.urgent bytes prio) =>
    { log with
      queued := ⟨bytes, prio, log.links⟩ :: log.queued
      links := log.links + 1
      urgent := some ⟨bytes, prio, log.links⟩ }
  | some (.take t) =>
    { log with
      queued := log.queued.tail
      taken := update log.taken t log.queued.head?
      urgent := none }
  | some (.deliver t) => { log with taken := update log.taken t none }
  | some .reset => { log with queued := [], urgent := none }

end MqLog

namespace MessageQueue

variable {mq mq' : MessageQueue} {c : ℕ} {m : Sent}
variable {content : MqContent}

/-- The cell holds the message; its priority matters with `RT_USING_MESSAGEQUEUE_PRIORITY` only. -/
structure Carries (mq : MessageQueue) (c : ℕ) (m : Sent) : Prop where
  length : (mq.cell c).length = m.bytes.length
  bytes : (mq.cell c).bytes = m.bytes
  prio : mq.usingPriority = true → (mq.cell c).prio = m.prio

/-- A message depends on the content of its cell. -/
theorem Carries.of_content (h : mq.Carries c m) (hcontent : (mq'.cell c).content = (mq.cell c).content)
    (hmode : mq'.usingPriority = mq.usingPriority) : mq'.Carries c m := by
  refine ⟨(congrArg MqContent.length hcontent).trans h.length,
    (congrArg MqContent.bytes hcontent).trans h.bytes, fun husing => ?_⟩
  exact (congrArg MqContent.prio hcontent).trans (h.prio (hmode ▸ husing))

/-- Pointers do not matter. -/
theorem Relinked.carries (h : mq.Relinked mq') (hm : mq.Carries c m) : mq'.Carries c m :=
  hm.of_content (h.content c) h.usingPriority

/-- The other cells keep their messages. -/
theorem Written.carries {c' : ℕ} (h : mq.Written mq' c' content) (hc : c ≠ c')
    (hm : mq.Carries c m) : mq'.Carries c m := hm.of_content (h.other c hc) h.usingPriority

theorem Written.carries_self (h : mq.Written mq' c content)
    (hlength : content.length = m.bytes.length) (hbytes : content.bytes = m.bytes)
    (hprio : mq.usingPriority = true → content.prio = m.prio) : mq'.Carries c m := by
  refine ⟨(congrArg MqContent.length h.self).trans hlength,
    (congrArg MqContent.bytes h.self).trans hbytes, fun husing => ?_⟩
  exact (congrArg MqContent.prio h.self).trans (hprio (h.usingPriority ▸ husing))

/-- Messages that were linked before keep their cells. -/
theorem Written.forall₂_carries {queue : List ℕ} {queued : List Sent}
    (h : mq.Written mq' c content) (hc : c ∉ queue) (hqueued : List.Forall₂ mq.Carries queue queued) :
    List.Forall₂ mq'.Carries queue queued := by
  induction hqueued with
  | nil => exact .nil
  | @cons c' m queue queued hm hqueued ih =>
    obtain ⟨hne, hrest⟩ := not_or.mp (mt mem_cons.mpr hc)
    exact .cons (h.carries (Ne.symm hne) hm) (ih hrest)

/-- The list of messages after a send is that of the log. -/
theorem forall₂_place {queue : List ℕ} {queued : List Sent}
    (h : List.Forall₂ mq.Carries queue queued) (hm : mq.Carries c m) :
    List.Forall₂ mq.Carries (mq.place c queue) (MqLog.enqueue mq.usingPriority m queued) := by
  unfold place MqLog.enqueue
  split
  next husing =>
    exact forall₂_insertBy (fun b b' hb => by rw [hb.prio husing]) h hm
  · exact rel_append h (.cons hm .nil)

end MessageQueue

namespace State

variable {T : Type*} [DecidableEq T] {k k' : State T} {t : T} {id : ℕ} {ret : Option ℤ}
  {e : KernelEvent T} {op : Option (MqOp T)} {log : MqLog T}
variable {queued : List Sent} {s : State T × MqLog T} {usingPriority : Bool}

/-- The list of messages carries the messages of the log, and each receive in progress holds the cell of
the message that it has taken. -/
structure MqLogged (id : ℕ) (k : State T) (log : MqLog T) : Prop where
  queued : ∃ queue free, MqOk id k queue free ∧
    List.Forall₂ (k.messageQueue id).Carries queue log.queued
  taken : ∀ t c size, k.pc t = .mqRecvCopy id c size →
    ∃ m, log.taken t = some m ∧ (k.messageQueue id).Carries c m

/-- What a receive takes and delivers: the first message of the log is taken, and what was taken is
delivered, cut to the size of the buffer. -/
structure MqServes (id : ℕ) (k : State T) (log : MqLog T) (ret : Option ℤ) (k' : State T)
    (op : Option (MqOp T)) : Prop where
  take : ∀ t, op = some (.take t) → ∃ m rest, log.queued = m :: rest
  deliver : ∀ t, op = some (.deliver t) → ∃ m c size, log.taken t = some m ∧
    k.pc t = .mqRecvCopy id c size ∧ (k'.message t).1 = m.bytes.take size ∧
    ((k.messageQueue id).usingPriority = true → (k'.message t).2 = m.prio) ∧
    ret = some (min m.bytes.length size : ℕ)

/-- Every event keeps the log up to date, and the receives serve it. -/
theorem MqLogged.step (h : MqLogged id k log) (hstep : MqStep id k e ret k' op) :
    MqLogged id k' (log.record (k.messageQueue id).usingPriority op) ∧ MqServes id k log ret k' op ∧
      (k'.messageQueue id).usingPriority = (k.messageQueue id).usingPriority := by
  obtain ⟨⟨queue, free, hok, hqueued⟩, htaken⟩ := h
  obtain ⟨queue', free', hok', hmoved⟩ := hok.step hstep
  -- A cell that is written is held by no receive.
  have htakenWritten : ∀ {c : ℕ} {content : MqContent}, (∀ u size, k.pc u ≠ .mqRecvCopy id c size) →
      (k.messageQueue id).Written (k'.messageQueue id) c content →
      (∀ u c size, k'.pc u = .mqRecvCopy id c size → k.pc u = .mqRecvCopy id c size) →
      ∀ u c size, k'.pc u = .mqRecvCopy id c size →
        ∃ m, log.taken u = some m ∧ (k'.messageQueue id).Carries c m := by
    intro c content hno hwritten hcopies u c' size hu
    have hold := hcopies u c' size hu
    obtain ⟨m, hm, hc'⟩ := htaken u c' size hold
    refine ⟨m, hm, hwritten.carries (fun hcc => ?_) hc'⟩
    exact hno u size (hcc ▸ hold)
  cases hmoved with
  | stay hsame hcopies =>
    refine ⟨⟨⟨queue, free', hok', hqueued.imp fun _ _ hc => hsame.carries hc⟩,
      fun t c size ht => ?_⟩, ⟨by simp, by simp⟩, hsame.usingPriority⟩
    obtain ⟨m, hm, hc⟩ := htaken t c size (hcopies t c size ht)
    exact ⟨m, hm, hsame.carries hc⟩
  | @send c bytes prio hqueue hno hwritten hcopies =>
    have hself : (k'.messageQueue id).Carries c ⟨bytes, prio, log.links⟩ :=
      hwritten.carries_self rfl rfl fun husing => if_pos husing
    refine ⟨⟨⟨_, free', hok', ?_⟩, htakenWritten hno hwritten hcopies⟩, ⟨by simp, by simp⟩,
      hwritten.usingPriority⟩
    rw [← hwritten.usingPriority]
    exact MessageQueue.forall₂_place (hwritten.forall₂_carries hqueue hqueued) hself
  | @urgent c bytes hqueue hno hwritten hcopies =>
    have hself : (k'.messageQueue id).Carries c ⟨bytes, ((k.messageQueue id).cell c).prio, log.links⟩ :=
      hwritten.carries_self rfl rfl fun _ => rfl
    exact ⟨⟨⟨_, free', hok', .cons hself (hwritten.forall₂_carries hqueue hqueued)⟩,
      htakenWritten hno hwritten hcopies⟩, ⟨by simp, by simp⟩, hwritten.usingPriority⟩
  | @take t c size rest hfirst hsame hpc =>
    subst hfirst
    obtain ⟨m, queued, hm, hrest, hlog⟩ := forall₂_cons_left_iff.mp hqueued
    refine ⟨⟨⟨queue', free', hok', ?_⟩, fun u c' size' hu => ?_⟩, ⟨fun _ _ => ⟨m, queued, hlog⟩,
      by simp⟩, hsame.usingPriority⟩
    · rw [MqLog.record, hlog]
      exact hrest.imp fun _ _ hc => hsame.carries hc
    · rw [hpc] at hu
      by_cases hut : u = t
      · subst hut
        rw [update_self] at hu
        obtain ⟨-, rfl, -⟩ := Pc.mqRecvCopy.inj hu
        refine ⟨m, ?_, hsame.carries hm⟩
        rw [MqLog.record, hlog]
        exact update_self ..
      · rw [update_of_ne hut] at hu
        obtain ⟨m', hm', hc'⟩ := htaken u c' size' hu
        exact ⟨m', (update_of_ne hut ..).trans hm', hsame.carries hc'⟩
  | @deliver t c size hat hsame hpc hmessage hret =>
    obtain ⟨m, hm, hc⟩ := htaken t c size hat
    refine ⟨⟨⟨queue, free', hok', hqueued.imp fun _ _ hc => hsame.carries hc⟩,
      fun u c' size' hu => ?_⟩, ⟨by simp, fun u hu => ?_⟩, hsame.usingPriority⟩
    · rw [hpc] at hu
      by_cases hut : u = t
      · rw [hut, update_self] at hu
        cases hu
      · rw [update_of_ne hut] at hu
        obtain ⟨m', hm', hc'⟩ := htaken u c' size' hu
        exact ⟨m', (update_of_ne hut ..).trans hm', hsame.carries hc'⟩
    · obtain rfl : t = u := MqOp.deliver.inj (Option.some.inj hu)
      refine ⟨m, c, size, hm, hat, ?_, fun husing => ?_, ?_⟩
      · rw [hmessage, hc.length, hc.bytes, min_comm, ← take_take, take_length]
      · rw [hmessage]
        exact hc.prio husing
      · rw [hret, hc.length]
  | reset hsame hpc =>
    refine ⟨⟨⟨[], free', hok', .nil⟩, fun t c size ht => ?_⟩, ⟨by simp, by simp⟩, hsame.usingPriority⟩
    obtain ⟨m, hm, hc⟩ := htaken t c size (hpc ▸ ht)
    exact ⟨m, hm, hsame.carries hc⟩

/-- The kernel with one message queue initialised and the log of it. -/
def mqHistory (T : Type*) [DecidableEq T] (usingPriority : Bool) (id : ℕ) :
    TransitionSystem (State T × MqLog T) (KernelEvent T) :=
  (mqSystem T usingPriority id).withHistory (.empty T) fun k e k' log =>
    log.record usingPriority (mqOp id k k' e)

/-- A step of the kernel with its log. -/
theorem mqHistory_step {log' : MqLog T} (h : (mqHistory T usingPriority id).step (k, log) e (k', log')) :
    ∃ fuel ret, exec fuel k e = some (k', ret) ∧ log' = log.record usingPriority (mqOp id k k' e) :=
  have ⟨⟨fuel, ret, heq⟩, hlog⟩ := h
  ⟨fuel, ret, heq, hlog⟩

/-- The log is up to date after every step that keeps it so. -/
theorem MqLogged.history {s' : State T × MqLog T}
    (h : MqLogged id s.1 s.2 ∧ (s.1.messageQueue id).usingPriority = usingPriority)
    (hstep : (mqHistory T usingPriority id).step s e s') :
    MqLogged id s'.1 s'.2 ∧ (s'.1.messageQueue id).usingPriority = usingPriority := by
  obtain ⟨k', log'⟩ := s'
  obtain ⟨fuel, ret, heq, rfl⟩ := mqHistory_step hstep
  obtain ⟨hlogged, rfl⟩ := h
  obtain ⟨hlogged', -, hmode⟩ := hlogged.step (exec_mqStep heq)
  exact ⟨hlogged', hmode⟩

/-- The log is up to date at the beginning. -/
theorem mqLogged_init (h : (mqHistory T usingPriority id).init s) :
    MqLogged id s.1 s.2 ∧ (s.1.messageQueue id).usingPriority = usingPriority := by
  obtain ⟨k, log⟩ := s
  obtain ⟨⟨hbooted, hmq⟩, rfl⟩ := h
  obtain ⟨hok, hmode⟩ := MqInitialized.ok hmq hbooted.pc
  refine ⟨⟨⟨[], _, hok, .nil⟩, fun t c size ht => ?_⟩, hmode⟩
  rw [hbooted.pc t] at ht
  cases ht

/-- The log is up to date in every run. -/
theorem mqHistory_logged (h : (mqHistory T usingPriority id).Reachable s) :
    MqLogged id s.1 s.2 ∧ (s.1.messageQueue id).usingPriority = usingPriority :=
  h.invariant (fun _ => mqLogged_init) fun _ _ _ => MqLogged.history

/-! ## Priorities -/

/-- `rt_mq_urgent` is not called on the queue. -/
def NoUrgent (id : ℕ) (_ : State T × MqLog T) (e : KernelEvent T) : Prop :=
  ∀ bytes, e ≠ .call (.mqUrgent id bytes)

/-- The log without urgent messages: it is ordered, all its messages are numbered below the next one, and
no urgent send is in progress. -/
structure MqOrdered (id : ℕ) (k : State T) (log : MqLog T) : Prop where
  order : log.queued.Pairwise Sent.Before
  number : ∀ m ∈ log.queued, m.number < log.links
  idle : ∀ t c bytes, k.pc t ≠ .mqUrgentFill id c bytes

/-- Messages in their order are sorted by priority. -/
theorem sortedBy_of_before (h : queued.Pairwise Sent.Before) : SortedBy (fun m => -m.prio) queued := by
  refine h.imp fun {m m'} hbefore => ?_
  have hle : m'.prio ≤ m.prio := by
    rcases hbefore with hlt | ⟨heq, -⟩ <;> omega
  exact neg_le_neg hle

/-- A message that is sent gets the place of its priority, behind the older ones. -/
theorem pairwise_enqueue {m : Sent} (h : queued.Pairwise Sent.Before)
    (hnumber : ∀ m' ∈ queued, m'.number < m.number) :
    (MqLog.enqueue true m queued).Pairwise Sent.Before := by
  refine (sortedBy_of_before h).pairwise_insertBy h (fun m' hm' hlt => ?_) fun m' hm' hle => ?_
  · exact .inl (neg_lt_neg_iff.mp hlt)
  · rcases (neg_le_neg_iff.mp hle).lt_or_eq with hlt | heq
    · exact .inl hlt
    · exact .inr ⟨heq.symm, hnumber m' hm'⟩

/-- An event that is not a call of `rt_mq_urgent` begins no urgent send. -/
theorem MqStep.urgentFill (h : MqStep id k e ret k' op) (hno : ∀ bytes, e ≠ .call (.mqUrgent id bytes))
    {c : ℕ} {bytes : List ℕ} (ht : k'.pc t = .mqUrgentFill id c bytes) :
    k.pc t = .mqUrgentFill id c bytes := by
  have hupdate : ∀ {u : T} {pc : Pc}, k'.pc = update k.pc u pc →
      pc ≠ .mqUrgentFill id c bytes → k.pc t = .mqUrgentFill id c bytes := by
    intro u pc hpc hne
    rw [hpc] at ht
    by_cases htu : t = u
    · rw [htu, update_self] at ht
      exact absurd ht hne
    · rwa [update_of_ne htu] at ht
  cases h with
  | stay hmq hpc =>
    rcases hpc t with hsame | ⟨-, hnew⟩
    · rw [← hsame, ht]
    · simp [ht, Pc.cellOf] at hnew
  | hold hidle htake hcall hmq hpc =>
    refine hupdate hpc ?_
    rcases hcall with ⟨bytes', prio, rfl⟩ | ⟨bytes', -, he⟩
    · simp
    · exact absurd he (hno bytes')
  | send hat hmq hpc | urgent hat hmq hpc | take hidle hsome hunlink hmq hpc | deliver hat hmq hpc =>
    exact hupdate hpc (by simp)
  | isrSend htake hmq hpc | reset hrelease hmq hpc => rwa [hpc] at ht

/-- Every event but the urgent sends keeps the order. -/
theorem MqOrdered.step (h : MqOrdered id k log) (hstep : MqStep id k e ret k' op)
    (hno : ∀ bytes, e ≠ .call (.mqUrgent id bytes)) : MqOrdered id k' (log.record true op) := by
  have hidle : ∀ t c bytes, k'.pc t ≠ .mqUrgentFill id c bytes := fun t c bytes ht =>
    h.idle t c bytes (hstep.urgentFill hno ht)
  have hsend : ∀ bytes prio, MqOrdered id k' (log.record true (some (.send bytes prio))) := by
    intro bytes prio
    refine ⟨pairwise_enqueue h.order h.number, fun m hm => ?_, hidle⟩
    rcases mem_insertBy.mp hm with rfl | hm
    · exact Nat.lt_succ_self _
    · exact (h.number m hm).trans (Nat.lt_succ_self _)
  cases hstep with
  | stay | hold | deliver => exact ⟨h.order, h.number, hidle⟩
  | send | isrSend => exact hsend _ _
  | urgent hat => exact absurd hat (h.idle _ _ _)
  | take =>
    exact ⟨h.order.tail, fun m hm => h.number m (mem_of_mem_tail hm), hidle⟩
  | reset => exact ⟨.nil, by simp [MqLog.record], hidle⟩

/-- A receive takes the oldest message of the largest priority. -/
theorem taken_record_take (hqueued : log.queued ≠ [])
    (horder : log.queued.Pairwise Sent.Before) : ∃ m ∈ log.queued,
      (log.record usingPriority (some (.take t))).taken t = some m ∧
      ∀ m' ∈ log.queued, m' ≠ m → m.Before m' := by
  obtain ⟨m, rest, hlog⟩ := exists_cons_of_ne_nil hqueued
  rw [hlog] at horder
  refine ⟨m, by simp [hlog], by simp [MqLog.record, hlog], fun m' hm' hne => ?_⟩
  rw [hlog] at hm'
  exact (pairwise_cons.mp horder).1 m' ((mem_cons.mp hm').resolve_left hne)

/-- An event, as a function on the kernel and its log. -/
def mqNext (usingPriority : Bool) (id : ℕ) (s : State T × MqLog T) (e : KernelEvent T) :
    Option (State T × MqLog T) :=
  (exec 0 s.1 e).map fun r => (r.1, s.2.record usingPriority (mqOp id s.1 r.1 e))

/-- A computed event is a step. -/
theorem mqHistory_step_of_mqNext {s' : State T × MqLog T}
    (h : mqNext usingPriority id s e = some s') : (mqHistory T usingPriority id).step s e s' := by
  obtain ⟨⟨k', ret⟩, heq, rfl⟩ := Option.map_eq_some_iff.mp h
  exact ⟨⟨0, ret, heq⟩, rfl⟩

/-- With `RT_USING_MESSAGEQUEUE_PRIORITY`, a message that is linked while an urgent message waits does not
have a larger priority than the one that the cell of the urgent message had before. -/
def UrgentOk (usingPriority : Bool) (id : ℕ) (s : State T × MqLog T) (e : KernelEvent T) : Prop :=
  usingPriority = true → ∀ k' bytes prio m, mqOp id s.1 k' e = some (.send bytes prio) →
    s.2.urgent = some m → prio ≤ m.prio

/-- The urgent message is the first. -/
def UrgentFirst (log : MqLog T) : Prop := ∀ m, log.urgent = some m → log.queued.head? = some m

/-- A message that is sent does not overtake a first message of at least its priority. -/
theorem head?_enqueue {m first : Sent}
    (h : queued.head? = some first) (hprio : usingPriority = true → m.prio ≤ first.prio) :
    (MqLog.enqueue usingPriority m queued).head? = some first := by
  obtain ⟨rest, rfl⟩ := head?_eq_some_iff.mp h
  cases usingPriority with
  | false => rfl
  | true =>
    have hle := hprio rfl
    unfold MqLog.enqueue insertBy
    rw [if_pos rfl, if_neg (by omega)]
    rfl

/-- Every operation that meets the condition keeps the urgent message first. -/
theorem UrgentFirst.record (h : UrgentFirst log)
    (hok : usingPriority = true → ∀ bytes prio m, op = some (.send bytes prio) →
      log.urgent = some m → prio ≤ m.prio) : UrgentFirst (log.record usingPriority op) := by
  intro m hm
  match op with
  | none => exact h m hm
  | some (.send bytes prio) =>
    exact head?_enqueue (h m hm) fun husing => hok husing bytes prio m rfl hm
  | some (.urgent bytes prio) => exact hm
  | some (.take t) => cases hm
  | some (.deliver t) => exact h m hm
  | some .reset => cases hm

end State

end RtThread.Kernel
