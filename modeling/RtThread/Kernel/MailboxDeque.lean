import Mathlib.Data.Fin.VecNotation
import RtThread.Kernel.ConfinedRuns
import RtThread.Lib.Deque

/-!
# The mailbox is a bounded double-ended queue

The circular buffer of a mailbox is a ring. A send puts a value at its end, an urgent send at its
beginning, a receive takes the first value and a reset empties it; every call that returns something
else than `RT_EOK`, every call that waits and every other event of the kernel leaves the mailbox alone.
-/

namespace RtThread.Kernel

open Lib Function

namespace Mailbox

variable {mb : Mailbox}

/-- The values in the circular buffer. -/
def toList (mb : Mailbox) : List ℕ := ringList mb.msgPool mb.size mb.outOffset mb.entry

/-- The offsets and the counter are those of a ring of at most `RT_MB_ENTRY_MAX` places. -/
structure Ring (mb : Mailbox) : Prop where
  pos : 0 < mb.size
  size : mb.size ≤ rtMbEntryMax
  entry : mb.entry ≤ mb.size
  out : mb.outOffset < mb.size
  offsets : (mb.outOffset + mb.entry) % mb.size = mb.inOffset

/-- The mailbox after `rt_mb_init`. -/
structure Initialized (mb : Mailbox) (size : ℕ) : Prop where
  size : mb.size = size
  entry : mb.entry = 0
  inOffset : mb.inOffset = 0
  outOffset : mb.outOffset = 0

/-- A mailbox that was initialised is an empty ring. -/
theorem Initialized.ring {size : ℕ} (h : mb.Initialized size) (hpos : 1 ≤ size)
    (hsize : size ≤ rtMbEntryMax) : mb.Ring := by
  obtain ⟨rfl, hentry, hin, hout⟩ := h
  exact ⟨hpos, hsize, by omega, by omega, by simp [hentry, hin, hout]⟩

/-- The number of values. -/
theorem length_toList : mb.toList.length = mb.entry := length_ringList

end Mailbox

/-- The next position wraps at the size. -/
theorem State.mbNext_eq {size offset : ℕ} (h : offset < size) :
    State.mbNext size offset = (offset + 1) % size := by
  unfold State.mbNext
  split
  · obtain rfl : size = offset + 1 := by omega
    rw [Nat.mod_self]
  · rw [Nat.mod_eq_of_lt (by omega)]

namespace Mailbox

variable {mb : Mailbox}

/-- A value is put at the end. -/
theorem Ring.pushBack (h : mb.Ring) (hroom : mb.entry ≠ mb.size) (value : ℕ) :
    let mb' : Mailbox := { mb with
      msgPool := Function.update mb.msgPool mb.inOffset value
      inOffset := State.mbNext mb.size mb.inOffset
      entry := mb.entry + 1 }
    mb'.Ring ∧ (boundedDeque ℕ mb.size).step mb.toList (.pushBack value) mb'.toList := by
  have hlt : mb.entry < mb.size := lt_of_le_of_ne h.entry hroom
  have hin : mb.inOffset < mb.size := h.offsets ▸ Nat.mod_lt _ h.pos
  refine ⟨⟨h.pos, h.size, hlt, h.out, ?_⟩, by rwa [length_toList], ?_⟩
  · rw [State.mbNext_eq hin, ← h.offsets, Nat.mod_add_mod, Nat.add_assoc]
  · rw [← h.offsets]
    exact ringList_pushBack hlt

/-- A value is put at the beginning. -/
theorem Ring.pushFront (h : mb.Ring) (hroom : mb.entry ≠ mb.size) (value : ℕ) :
    let out := if 0 < mb.outOffset then mb.outOffset - 1 else mb.size - 1
    let mb' : Mailbox := { mb with
      outOffset := out
      msgPool := Function.update mb.msgPool out value
      entry := mb.entry + 1 }
    mb'.Ring ∧ (boundedDeque ℕ mb.size).step mb.toList (.pushFront value) mb'.toList := by
  have hlt : mb.entry < mb.size := lt_of_le_of_ne h.entry hroom
  have hpos := h.pos
  have hout := h.out
  have hfirst : (if 0 < mb.outOffset then mb.outOffset - 1 else mb.size - 1) < mb.size := by
    split <;> omega
  have hnext : ((if 0 < mb.outOffset then mb.outOffset - 1 else mb.size - 1) + 1) % mb.size =
      mb.outOffset := by
    split
    · rw [Nat.mod_eq_of_lt (by omega)]
      omega
    · rw [Nat.sub_add_cancel hpos, Nat.mod_self]
      omega
  refine ⟨⟨h.pos, h.size, hlt, hfirst, ?_⟩, by rwa [length_toList], ?_⟩
  · rw [Nat.add_comm mb.entry, ← Nat.add_assoc, ← Nat.mod_add_mod, hnext]
    exact h.offsets
  · exact ringList_pushFront hlt hfirst hnext

/-- The first value is taken. -/
theorem Ring.popFront (h : mb.Ring) (hsome : mb.entry ≠ 0) : let mb' : Mailbox := { mb with
      outOffset := State.mbNext mb.size mb.outOffset
      entry := mb.entry - 1 }
    mb'.Ring ∧ (boundedDeque ℕ mb.size).step mb.toList (.popFront (mb.msgPool mb.outOffset))
      mb'.toList := by
  obtain ⟨count, hcount⟩ : ∃ count, mb.entry = count + 1 := ⟨mb.entry - 1, by omega⟩
  have hentry := h.entry
  refine ⟨⟨h.pos, h.size, ?_, ?_, ?_⟩, ?_⟩
  · dsimp only
    omega
  · rw [State.mbNext_eq h.out]
    exact Nat.mod_lt _ h.pos
  · dsimp only
    rw [State.mbNext_eq h.out, Nat.mod_add_mod, ← h.offsets]
    congr 1
    omega
  · unfold toList
    rw [State.mbNext_eq h.out, hcount, ringList_succ, Nat.mod_eq_of_lt h.out]
    rfl

/-- The mailbox is emptied. -/
theorem Ring.clear (h : mb.Ring) :
    let mb' : Mailbox := { mb with entry := 0, inOffset := 0, outOffset := 0 }
    mb'.Ring ∧ (boundedDeque ℕ mb.size).step mb.toList .clear mb'.toList :=
  ⟨⟨h.pos, h.size, Nat.zero_le _, h.pos, Nat.zero_mod _⟩, rfl⟩

end Mailbox

namespace State

variable {T : Type*} [DecidableEq T] {k k' : State T} {t : T} {id : ℕ} {ret : Option ℤ}
variable {suspendFlag : SuspendFlag} {timeout : ℤ} {value : ℕ}

/-- The operation that an event makes on the mailbox, if it makes one: a send or a receive that returns
`RT_EOK`, or a reset. -/
def mbOp (id : ℕ) (k : State T) (ret : Option ℤ) (k' : State T) :
    KernelEvent T → Option (DequeOp ℕ)
  | .call (.mbSend other value _) =>
    if other = id ∧ ret = some rtEok then some (.pushBack value) else none
  | .call (.mbUrgent other value) =>
    if other = id ∧ ret = some rtEok then some (.pushFront value) else none
  | .call (.mbRecv other _) =>
    if other = id ∧ ret = some rtEok then k.caller.map fun t => .popFront (k'.mail t) else none
  | .call (.mbReset other) => if other = id then some .clear else none
  | .isr (.mbSend other value) =>
    if other = id ∧ (k.rtMbSend id value).2 = rtEok then some (.pushBack value) else none
  | .isr (.mbUrgent other value) =>
    if other = id ∧ (k.rtMbUrgent id value).2 = rtEok then some (.pushFront value) else none
  | .proceed => k.runner.bind fun t =>
    match k.pc t with
    | .mbSendWoken other value _ _ _ =>
      if other = id ∧ ret = some rtEok then some (.pushBack value) else none
    | .mbRecvWoken other _ _ _ =>
      if other = id ∧ ret = some rtEok then some (.popFront (k'.mail t)) else none
    | _ => none
  | _ => none

/-- The mailbox follows a step of the double-ended queue, or stays as it is. -/
def MbFollows (id : ℕ) (k k' : State T) : Option (DequeOp ℕ) → Prop
  | none => k'.mailbox id = k.mailbox id
  | some op => (k'.mailbox id).Ring ∧ (k'.mailbox id).size = (k.mailbox id).size ∧
    (boundedDeque ℕ (k.mailbox id).size).step (k.mailbox id).toList op (k'.mailbox id).toList

omit [DecidableEq T] in
/-- The mailbox has become one that follows the step. -/
theorem MbFollows.of_eq {mb : Mailbox} {op : DequeOp ℕ} (hmb : k'.mailbox id = mb) (hstep : mb.Ring ∧
      (boundedDeque ℕ (k.mailbox id).size).step (k.mailbox id).toList op mb.toList)
    (hsize : mb.size = (k.mailbox id).size) : MbFollows id k k' (some op) := by
  subst hmb
  exact ⟨hstep.1, hsize, hstep.2⟩

omit [DecidableEq T] in
/-- A mailbox stays a ring of its size. -/
theorem MbFollows.ring {op : Option (DequeOp ℕ)} (h : MbFollows id k k' op) (hring : (k.mailbox id).Ring) :
    (k'.mailbox id).Ring ∧ (k'.mailbox id).size = (k.mailbox id).size := by
  cases op with
  | none =>
    have hsame : k'.mailbox id = k.mailbox id := h
    rw [hsame]
    exact ⟨hring, rfl⟩
  | some op => exact ⟨h.1, h.2.1⟩

/-! ## The functions of mailboxes -/

/-- A wake-up leaves the mailboxes and what the threads have received. -/
theorem wakeFirst_mailbox (k : State T) (head : ListHead) :
    (k.wakeFirst head).mailbox = k.mailbox ∧ (k.wakeFirst head).mail = k.mail := by
  obtain ⟨s, error, heq⟩ := wakeFirst_frame k head
  rw [heq]
  exact ⟨rfl, rfl⟩

/-- A suspension leaves the mailboxes, and its call does not return `RT_EOK`. -/
theorem blockOn_mailbox {head : ListHead} {flag : IpcFlag}
    {pc : Pc} (heq : k.blockOn t head flag suspendFlag timeout pc = some (k', ret)) :
    k'.mailbox = k.mailbox ∧ ret ≠ some rtEok := by
  obtain ⟨⟨s, ok⟩, -, heq⟩ := Option.map_eq_some_iff.mp heq
  split at heq
  · cases heq
    unfold startTimerIf
    split <;> exact ⟨rfl, by simp⟩
  · cases heq
    exact ⟨rfl, by decide⟩

/-- The end of a send. -/
theorem mbPut_follows {k1 : State T} (hring : (k.mailbox id).Ring)
    (hroom : (k.mailbox id).entry ≠ (k.mailbox id).size) (value : ℕ) (hsame : k1.mailbox = k.mailbox) :
    MbFollows id k (k1.mbPut id value).1 (some (.pushBack value)) ∧ (k1.mbPut id value).2 = rtEok := by
  have hmax : (k.mailbox id).entry < rtMbEntryMax :=
    lt_of_lt_of_le (lt_of_le_of_ne hring.entry hroom) hring.size
  unfold mbPut
  rw [hsame]
  rw [if_pos hmax]
  refine ⟨?_, rfl⟩
  refine MbFollows.of_eq ?_ (hring.pushBack hroom value) rfl
  rw [(wakeFirst_mailbox _ _).1]
  exact update_self ..

/-- A call that waits is served, or leaves the mailboxes and does not return `RT_EOK`. -/
theorem WaitCall.served_or_quiet {o : Object T} {head : ListHead} {empty : Prop}
    {served : State T → Option ℤ → Prop} (h : WaitCall o k t head empty served k' ret) :
    k'.mailbox = k.mailbox ∧ ret ≠ some rtEok ∨ ¬ empty ∧ served k' ret := by
  cases h with
  | refuse hsame hcode => exact .inl ⟨by rw [hsame], by simpa using hcode⟩
  | leave herror hleave => exact .inl ⟨by rw [hleave]; rfl, by simpa using herror⟩
  | expire _ hleave hcode => exact .inl ⟨by rw [hleave]; rfl, by simpa using hcode⟩
  | block _ _ _ _ heq => exact .inl (blockOn_mailbox (k := k.setError t _) heq)
  | serve hsome hserved => exact .inr ⟨hsome, hserved⟩

/-- A send. -/
theorem MbSends.follows (h : MbSends k t id value k' ret) (hring : (k.mailbox id).Ring) :
    MbFollows id k k' (if ret = some rtEok then some (.pushBack value) else none) := by
  rcases WaitCall.served_or_quiet h with ⟨hsame, hret⟩ | ⟨hroom, rfl, rfl⟩
  · rw [if_neg hret]
    exact congrFun hsame id
  · obtain ⟨hfollows, hret⟩ := mbPut_follows hring hroom value
      (rfl : (k.setPc t .idle).mailbox = k.mailbox)
    rw [hret]
    exact hfollows

/-- A send of an interrupt. -/
theorem rtMbSend_follows (hring : (k.mailbox id).Ring) (value : ℕ) : MbFollows id k (k.rtMbSend id value).1
      (if (k.rtMbSend id value).2 = rtEok then some (.pushBack value) else none) := by
  unfold rtMbSend
  dsimp only
  split
  · rfl
  next hroom =>
    obtain ⟨hfollows, hret⟩ := mbPut_follows hring hroom value rfl
    rw [hret]
    exact hfollows

theorem rtMbUrgent_follows (hring : (k.mailbox id).Ring) (value : ℕ) :
    MbFollows id k (k.rtMbUrgent id value).1
      (if (k.rtMbUrgent id value).2 = rtEok then some (.pushFront value) else none) := by
  unfold rtMbUrgent
  dsimp only
  split
  · rfl
  next hroom =>
    refine MbFollows.of_eq ?_ (hring.pushFront hroom value) rfl
    rw [(wakeFirst_mailbox _ _).1]
    exact update_self ..

/-- A receive. -/
theorem MbRecvs.follows (h : MbRecvs k t id k' ret) (hring : (k.mailbox id).Ring) :
    MbFollows id k k' (if ret = some rtEok then some (.popFront (k'.mail t)) else none) := by
  rcases WaitCall.served_or_quiet h with ⟨hsame, hret⟩ | ⟨hsome, rfl, rfl⟩
  · rw [if_neg hret]
    exact congrFun hsame id
  · have hmail : ((k.setPc t .idle).mbGet t id).mail t =
        (k.mailbox id).msgPool (k.mailbox id).outOffset := by
      unfold mbGet
      rw [(wakeFirst_mailbox _ _).2]
      exact update_self ..
    rw [hmail]
    refine MbFollows.of_eq ?_ (hring.popFront hsome) rfl
    unfold mbGet
    rw [(wakeFirst_mailbox _ _).1]
    exact update_self ..

/-- `rt_mb_control` with `RT_IPC_CMD_RESET`. -/
theorem rtMbReset_follows (hring : (k.mailbox id).Ring) :
    MbFollows id k (k.rtMbReset id).1 (some .clear) := by
  have hresume : Confined [] none k ((k.rtSuspListResumeAll (.mbRecv id)
      rtError).rtSuspListResumeAll (.mbSend id) rtError) :=
    (((Frame.refl k).rtSuspListResumeAll _ _).rtSuspListResumeAll _ _).confined
  have hsame := hresume.mailbox id (by simp)
  refine MbFollows.of_eq ?_ hring.clear rfl
  unfold rtMbReset
  dsimp only [onSched]
  rw [hsame]
  exact update_self ..

/-! ## Runs -/

/-- Every event follows a step of the double-ended queue, or leaves the mailbox alone. -/
theorem exec_follows {fuel : ℕ} {e : KernelEvent T} (hring : (k.mailbox id).Ring)
    (heq : exec fuel k e = some (k', ret)) : MbFollows id k k' (mbOp id k ret k' e) := by
  have hother : .mailbox id ∉ k.touches e → MbFollows id k k' none :=
    fun hno => (exec_confined heq).mailbox id hno
  have hon : ∀ {other : ℕ} {done : Prop} [Decidable done] {op : Option (DequeOp ℕ)},
      k.touches e = [.mailbox other] → (other = id → MbFollows id k k' (if done then op else none)) →
      MbFollows id k k' (if other = id ∧ done then op else none) := by
    intro other done _ op htouches hop
    by_cases hid : other = id
    · simpa [hid] using hop hid
    · simpa [hid] using hother (by simpa [htouches] using Ne.symm hid)
  cases e with
  | call c =>
    obtain ⟨t, hcaller, hcall⟩ := exec_call heq
    have hcur := (runner_eq (runner_of_caller hcaller)).1
    cases c with
    | mbSend other value timeout =>
      refine hon rfl ?_
      rintro rfl
      exact (mbSendWait_sends hcur hcall).follows hring
    | mbUrgent other value =>
      cases hcall
      refine hon rfl ?_
      rintro rfl
      simpa using rtMbUrgent_follows hring value
    | mbRecv other timeout =>
      refine hon rfl ?_
      rintro rfl
      simpa [hcaller] using (mbRecv_recvs hcur hcall).follows hring
    | mbReset other =>
      by_cases hid : other = id
      · subst hid
        cases hcall
        simpa [mbOp] using rtMbReset_follows hring
      · simpa [mbOp, hid] using hother (by simpa [touches, callTouches] using Ne.symm hid)
    | exit => exact hother (by simp [touches, callTouches])
    | _ => exact hother (by simp [touches, callTouches])
  | isr c =>
    have hcall := (exec_isr heq).1
    cases c with
    | mbSend other value =>
      cases hcall
      refine hon rfl ?_
      rintro rfl
      exact rtMbSend_follows hring value
    | mbUrgent other value =>
      cases hcall
      refine hon rfl ?_
      rintro rfl
      exact rtMbUrgent_follows hring value
    | _ => exact hother (by simp [touches, isrTouches])
  | proceed =>
    obtain ⟨t, hrunner, hgo⟩ := exec_proceed heq
    unfold mbOp
    rw [hrunner, Option.bind_some]
    unfold proceed at hgo
    generalize hpc : k.pc t = pc at hgo ⊢
    cases pc with
    | mbSendWoken other value timeout suspendFlag start =>
      refine hon (by simp [touches, hrunner, hpc, Pc.object]) ?_
      rintro rfl
      exact (mbSendWoken_sends hgo).follows hring
    | mbRecvWoken other timeout suspendFlag start =>
      refine hon (by simp [touches, hrunner, hpc, Pc.object]) ?_
      rintro rfl
      exact (mbRecvWoken_recvs hgo).follows hring
    | _ => exact hother (by simp [touches, hrunner, hpc, Pc.object])
  | _ => exact hother (by simp [touches])

/-- A send that does not wait and an urgent send return `-RT_EFULL` exactly when the mailbox is full, and
leave the kernel alone then. -/
structure MbReportsFull (id : ℕ) (k : State T) : Prop where
  send : ∀ value suspendFlag k' ret, k.mbSendWait id value 0 suspendFlag = some (k', ret) →
    (ret = some (-rtEfull) ↔ (k.mailbox id).toList.length = (k.mailbox id).size) ∧
    (ret = some (-rtEfull) → k' = k)
  isrSend : ∀ value,
    ((k.rtMbSend id value).2 = -rtEfull ↔ (k.mailbox id).toList.length = (k.mailbox id).size) ∧
    ((k.rtMbSend id value).2 = -rtEfull → (k.rtMbSend id value).1 = k)
  urgent : ∀ value,
    ((k.rtMbUrgent id value).2 = -rtEfull ↔ (k.mailbox id).toList.length = (k.mailbox id).size) ∧
    ((k.rtMbUrgent id value).2 = -rtEfull → (k.rtMbUrgent id value).1 = k)

/-- A ring reports that it is full. -/
theorem mbReportsFull (hring : (k.mailbox id).Ring) : MbReportsFull id k := by
  have hne : rtEok ≠ -rtEfull := by decide
  refine ⟨fun value suspendFlag k' ret heq => ?_, fun value => ?_, fun value => ?_⟩
  · rw [Mailbox.length_toList]
    unfold mbSendWait mbSendLoop at heq
    split at heq
    · cases heq
    next thread _ =>
      by_cases hfull : (k.mailbox id).entry = (k.mailbox id).size
      · simp only [hfull, if_true] at heq
        cases heq
        simp [hfull]
      · have hret := (mbPut_follows hring hfull value
          (rfl : (k.setPc thread .idle).mailbox = k.mailbox)).2
        simp only [hfull, if_false] at heq
        cases heq
        simp [hfull, hret, hne]
  · rw [Mailbox.length_toList]
    unfold rtMbSend
    by_cases hfull : (k.mailbox id).entry = (k.mailbox id).size
    · simp [hfull]
    · have hret := (mbPut_follows hring hfull value rfl).2
      simp [hfull, hret, hne]
  · rw [Mailbox.length_toList]
    unfold rtMbUrgent
    by_cases hfull : (k.mailbox id).entry = (k.mailbox id).size
    · simp [hfull]
    · simp [hfull, hne]

/-- The kernel with one mailbox initialised. -/
def mbSystem (T : Type*) [DecidableEq T] (id size : ℕ) :
    TransitionSystem (State T) (KernelEvent T) :=
  (system T).startingIn fun k => (k.mailbox id).Initialized size

/-- The mailbox is a ring of its size in every run. -/
theorem mbSystem_ring {size : ℕ} (hpos : 1 ≤ size) (hsize : size ≤ rtMbEntryMax)
    (h : (mbSystem T id size).Reachable k) : (k.mailbox id).Ring ∧ (k.mailbox id).size = size := by
  apply h.invariant
  · intro k hk
    exact ⟨hk.2.ring hpos hsize, hk.2.size⟩
  · rintro k e k' ⟨hring, rfl⟩ ⟨fuel, ret, heq⟩
    exact (exec_follows hring heq).ring hring

end State

end RtThread.Kernel
