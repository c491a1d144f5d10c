import RtThread.Kernel.Supply

/-!
# No wake-up is lost

In every run of sends and receives of mailboxes and message queues the supply of an object is at most
the number of threads that have been woken for it, while others wait. One thing can go wrong: a send
whose first waiting receiver is just timing out wakes nobody, and the receivers behind it wait on.
-/

namespace RtThread.Kernel

open Lib Option

namespace State

variable {T : Type*} [DecidableEq T] {k k' : State T} {t : T} {head : ListHead} {ret : Option ℤ}

/-- The sends, urgent sends and receives of mailboxes and message queues, with threads that are started
and time that goes on. -/
def trafficEvent : KernelEvent T → Bool
  | .call (.mbSend _ _ _) => true
  | .call (.mbUrgent _ _) => true
  | .call (.mbRecv _ _) => true
  | .call (.mqSend _ _ _ _) => true
  | .call (.mqUrgent _ _) => true
  | .call (.mqRecv _ _ _) => true
  | .isr (.mbSend _ _) => true
  | .isr (.mbUrgent _ _) => true
  | .isr (.mqSend _ _) => true
  | .proceed => true
  | e => backgroundEvent e

/-- The mailboxes are bounded and the cells of the message queues are conserved. -/
structure TrafficOk (k : State T) : Prop extends k.IpcCalls where
  bounded : ∀ id, (k.mailbox id).Bounded
  cells : ∀ id, ∃ queue free, MqOk id k queue free

/-- Threads that are started and time do not change the supply. -/
theorem Background.supplied (h : Background k k') (hplaced : k.Placed) (hwait : head.isWait)
    (hk : k.Supplied head) : k'.Supplied head := by
  obtain ⟨n, hcount, hle⟩ := hk
  refine ⟨n, hcount.congr (woken_background hplaced (by simp [Pc.waitsOn]) h), fun hne => ?_⟩
  have hlists : k.lists head ≠ [] := by
    obtain ⟨u, hu⟩ := List.exists_mem_of_ne_nil _ hne
    rw [← Sched.waits_waiting hwait] at hu ⊢
    exact List.ne_nil_of_mem (h.mono.2.2.2 head u hu)
  have hsupply : k'.supply head = k.supply head := by cases h <;> exact supply_congr rfl rfl
  rw [hsupply]
  exact hle hlists

/-- A thread goes on in its call. -/
theorem proceed_traffic {fuel : ℕ} (h : k.TrafficOk) (hrunning : (k.stat t).code = .running)
    (heq : proceed fuel k t = some (k', ret)) : Traffic k head (k.pc t).wakesOn k' := by
  have hplace := h.place t
  unfold proceed at heq
  generalize hpc : k.pc t = pc at hplace heq ⊢
  have hcalls : ∀ {own}, pc.waitsOn = some own → Calls k t own :=
    fun hown => ⟨hrunning, .inr (by rw [hpc, hown])⟩
  cases pc with
  | idle => cases heq
  | semWoken id =>
    cases heq
    exact .own (.of_empty (hcalls rfl) rfl rfl rfl (fun _ _ => rfl) rfl rfl (by rintro rfl; rfl))
  | eventWoken id =>
    obtain rfl : _ = k' := congrArg Prod.fst (some.inj heq)
    unfold eventRecvWoken
    dsimp only
    split <;>
      exact .own (.of_empty (hcalls rfl) rfl rfl rfl (fun _ _ => rfl) rfl rfl (by rintro rfl; rfl))
  | mbSendWoken id value timeout suspendFlag start =>
    exact (mbSendWoken_sends heq).traffic (h.bounded id) (hcalls rfl)
  | mbRecvWoken id timeout suspendFlag start =>
    exact (mbRecvWoken_recvs heq).traffic (hcalls rfl)
  | mqSendWoken id bytes prio timeout suspendFlag start =>
    obtain ⟨queue, free, hok⟩ := h.cells id
    exact (mqSendWoken_sends heq).traffic hok (hcalls rfl)
  | mqSendFill id c bytes prio =>
    cases heq
    obtain ⟨queue, free, hok⟩ := h.cells id
    have hc : (k.pc t).cellOf id = some c := by simp [hpc, Pc.cellOf]
    have hlength := hok.length_le
    obtain ⟨hcells, hentry, hwritten⟩ := hok.cells.sendLink bytes prio (hok.held hc).1
      (hok.held hc).2 (by omega)
    exact mqLink_traffic hok hrunning (by rw [hpc]; rfl) hc hcells hentry hwritten.maxMsgs
  | mqUrgentFill id c bytes =>
    cases heq
    obtain ⟨queue, free, hok⟩ := h.cells id
    have hc : (k.pc t).cellOf id = some c := by simp [hpc, Pc.cellOf]
    obtain ⟨hcells, hentry, hwritten⟩ := hok.cells.urgentLink bytes (hok.held hc).1 (hok.held hc).2
    exact mqLink_traffic hok hrunning (by rw [hpc]; rfl) hc hcells hentry hwritten.maxMsgs
  | mqRecvWoken id size timeout suspendFlag start =>
    obtain ⟨queue, free, hok⟩ := h.cells id
    exact (mqRecvWoken_recvs heq).traffic hok (hcalls rfl)
  | mqRecvCopy id c size =>
    obtain rfl : _ = k' := congrArg Prod.fst (some.inj heq)
    obtain ⟨queue, free, hok⟩ := h.cells id
    exact mqRecvCopy_traffic hok hrunning hpc
  | _ => cases hplace

/-- A call of an event is traffic. -/
theorem exec_traffic {fuel : ℕ} {e : KernelEvent T} (h : k.TrafficOk) (hevent : trafficEvent e = true)
    (heq : exec fuel k e = some (k', ret)) :
    Background k k' ∨ ∀ head, Traffic k head (k.wakesOn e) k' := by
  have hbackground : backgroundEvent e = true → Background k k' ∨
      ∀ head, Traffic k head (k.wakesOn e) k' := fun hback =>
    .inl (exec_background h.queue hback heq)
  cases e with
  | call c =>
    obtain ⟨t, hcaller, hcall⟩ := exec_call heq
    have hrunner := runner_of_caller hcaller
    have hidle := (caller_eq hcaller).2.2
    obtain ⟨hcur, hrunning⟩ := runner_eq hrunner
    have hcalls : ∀ {own}, Calls k t own := ⟨hrunning, .inl (by rw [hidle]; rfl)⟩
    cases c with
    | mbSend id value timeout =>
      exact .inr fun head => (mbSendWait_sends hcur hcall).traffic (h.bounded id) hcalls
    | mbUrgent id value =>
      cases hcall
      exact .inr fun head => rtMbUrgent_traffic k id value
    | mbRecv id timeout => exact .inr fun head => (mbRecv_recvs hcur hcall).traffic hcalls
    | mqSend id bytes prio timeout =>
      obtain ⟨queue, free, hok⟩ := h.cells id
      exact .inr fun head => (mqSendWait_sends hcur hcall).traffic hok hcalls
    | mqUrgent id bytes =>
      obtain ⟨queue, free, hok⟩ := h.cells id
      exact .inr fun head => mqUrgent_traffic hok hrunner hidle hcall
    | mqRecv id size timeout =>
      obtain ⟨queue, free, hok⟩ := h.cells id
      exact .inr fun head => (mqRecv_recvs hcur hcall).traffic hok hcalls
    | _ => exact hbackground hevent
  | isr c =>
    have hcall := (exec_isr heq).1
    cases c with
    | mbSend id value =>
      cases hcall
      exact .inr fun head => rtMbSend_traffic (h.bounded id) value
    | mbUrgent id value =>
      cases hcall
      exact .inr fun head => rtMbUrgent_traffic k id value
    | mqSend id bytes =>
      obtain ⟨r, hr, rfl⟩ := map_eq_some_iff.mp hcall
      obtain ⟨queue, free, hok⟩ := h.cells id
      exact .inr fun head => rtMqSend_traffic hok hr
    | _ => exact hbackground hevent
  | proceed =>
    obtain ⟨t, hrunner, hgo⟩ := exec_proceed heq
    refine .inr fun head => ?_
    have htraffic : Traffic k head (k.pc t).wakesOn k' :=
      proceed_traffic h (runner_eq hrunner).2 hgo
    simpa [wakesOn, hrunner] using htraffic
  | _ => exact hbackground rfl

/-- Every event keeps the objects. -/
theorem TrafficOk.exec {fuel : ℕ} {e : KernelEvent T} (h : k.TrafficOk)
    (hevent : trafficEvent e = true) (heq : exec fuel k e = some (k', ret)) : k'.TrafficOk := by
  have hcells : ∀ id, ∃ queue free, MqOk id k' queue free := by
    intro id
    obtain ⟨queue, free, hok⟩ := h.cells id
    obtain ⟨queue', free', hok', -⟩ := hok.step (exec_mqStep heq)
    exact ⟨queue', free', hok'⟩
  rcases exec_traffic h hevent heq with hback | htraffic
  · refine ⟨hback.calls h.toIpcCalls, fun id => ?_, hcells⟩
    have hmailbox : k'.mailbox = k.mailbox := by cases hback <;> rfl
    rw [hmailbox]
    exact h.bounded id
  · refine ⟨?_, fun id => (htraffic .defunct).kept id (h.bounded id), hcells⟩
    by_cases hipc : ipcEvent e = true
    · exact (exec_ipcStep h.place hipc heq).calls h.toIpcCalls
    · have hback : backgroundEvent e = true := by
        cases e with
        | call c | isr c => cases c <;> first | exact hevent | exact absurd rfl hipc
        | proceed => exact absurd rfl hipc
        | _ => rfl
      exact (exec_background h.queue hback heq).calls h.toIpcCalls

/-- A wake-up finds the first waiting thread, and it is not just timing out. -/
def WakeOk (k : State T) (e : KernelEvent T) : Prop :=
  ∀ head ∈ k.wakesOn e, k.FirstCanStop head

/-- The mailboxes and the message queues have been initialised. -/
def Equipped (k : State T) : Prop :=
  (∀ id, ∃ size ≤ rtMbEntryMax, (k.mailbox id).Initialized size) ∧
    ∀ id, ∃ usingPriority, MqInitialized usingPriority (k.messageQueue id)

/-- The sends and receives of mailboxes and message queues. -/
def trafficSystem (T : Type*) [DecidableEq T] : TransitionSystem (State T) (KernelEvent T) :=
  ((system T).startingIn Equipped).guarded fun _ e => trafficEvent e = true

/-- In every run in which no wake-up finds the first waiting thread just timing out, the threads that wait
on a mailbox or a message queue have missed nothing: there are at most as many messages as receivers
that have been woken, and at most as many free slots as senders that have been woken. -/
theorem no_lost_wakeup (h : ((trafficSystem T).guarded WakeOk).Reachable k) (id : ℕ) :
    (∃ n, HasCount (k.WokenFrom (.mbRecv id)) n ∧ (k.lists (.mbRecv id) ≠ [] → (k.mailbox id).entry ≤ n)) ∧
    (∃ n, HasCount (k.WokenFrom (.mbSend id)) n ∧
      (k.lists (.mbSend id) ≠ [] → (k.mailbox id).size - (k.mailbox id).entry ≤ n)) ∧
    (∃ n, HasCount (k.WokenFrom (.mqRecv id)) n ∧
      (k.lists (.mqRecv id) ≠ [] → (k.messageQueue id).entry ≤ n)) ∧
    (∃ n, HasCount (k.WokenFrom (.mqSend id)) n ∧
      (k.lists (.mqSend id) ≠ [] → (k.messageQueue id).freeCount ≤ n)) := by
  have hinv : k.TrafficOk ∧ ∀ head, head.isWait → k.Supplied head := by
    apply h.invariant
    · rintro k ⟨hboot, hmb, hmq⟩
      refine ⟨⟨hboot.ipcCalls, fun id => ?_, fun id => ?_⟩, fun head _ => ⟨0, ?_, fun hne => ?_⟩⟩
      · obtain ⟨size, hsize, hinit⟩ := hmb id
        exact ⟨by rw [hinit.entry]; exact Nat.zero_le _, hinit.size.trans_le hsize⟩
      · obtain ⟨usingPriority, hinit⟩ := hmq id
        exact ⟨_, _, (hinit.ok hboot.pc).1⟩
      · refine HasCount.of_forall_not fun t hwoken => ?_
        cases hboot.pc t ▸ hwoken.1
      · obtain ⟨priorityMax, priority, tick, -, -, hsched⟩ := hboot.sched
        rw [hsched] at hne
        exact absurd rfl hne
    · rintro k e k' ⟨hok, hsupplied⟩ ⟨hwake, hevent, fuel, ret, heq⟩
      refine ⟨hok.exec hevent heq, fun head hwait => ?_⟩
      rcases exec_traffic hok hevent heq with hback | htraffic
      · exact hback.supplied hok.toPlaced hwait (hsupplied head hwait)
      · exact (htraffic head).supplied hok.toPlaced hwait (fun hwakes => hwake head hwakes)
          (hsupplied head hwait)
  exact ⟨hinv.2 (.mbRecv id) rfl, hinv.2 (.mbSend id) rfl, hinv.2 (.mqRecv id) rfl,
    hinv.2 (.mqSend id) rfl⟩

/-- Whether the wake-ups of an event meet the condition can be evaluated. -/
instance (k : State T) (e : KernelEvent T) : Decidable (WakeOk k e) :=
  inferInstanceAs (Decidable (∀ head ∈ k.wakesOn e, k.FirstCanStop head))

/-- The objects of the kernel at start-up have been initialised. -/
theorem equipped_bootMq (usingPriority : Bool) {n : ℕ} (priority : Fin n → ℕ) :
    Equipped (bootMq usingPriority priority) :=
  ⟨fun _ => ⟨1, by decide, rfl, rfl, rfl, rfl⟩, fun _ => ⟨usingPriority, _, _, _, _, by decide, rfl⟩⟩

/-- Two receivers wait for a message; one comes and wakes the first. -/
theorem no_lost_wakeup_mbSend : ∃ k : State (Fin 3),
    ((trafficSystem (Fin 3)).guarded WakeOk).Reachable k ∧ k.lists (.mbRecv 0) = [2] ∧
    (k.mailbox 0).entry = 1 ∧ ∃ n, HasCount (k.WokenFrom (.mbRecv 0)) n ∧
      (k.lists (.mbRecv 0) ≠ [] → (k.mailbox 0).entry ≤ n) :=
  TransitionSystem.Reachable.exists_and₂ (exists_run
    (fun k e => trafficEvent e = true ∧ WakeOk k e) 0 (bootMq true ![20, 10, 11])
    [.isr (.startup 0), .schedulerStart, .call (.startup 1), .call (.mbRecv 0 7), .call (.startup 2),
      .call (.mbRecv 0 7), .call (.mbSend 0 5 0)]
    ⟨booted_bootMq true (by decide), equipped_bootMq true _⟩
    (fun _ _ _ hok h => ⟨hok.2, hok.1, h⟩)) fun _ hreach _ _ =>
    (no_lost_wakeup hreach 0).1

/-- A lost wake-up. Two receivers wait and the timer of the first is due; an interrupt sends a message
before that thread times out, and wakes nobody. The second receiver waits on while the message is
there. -/
theorem lost_wakeup : ∃ k : State (Fin 3), (trafficSystem (Fin 3)).Reachable k ∧
    k.lists (.mbRecv 0) = [2] ∧ (k.mailbox 0).entry = 1 ∧ HasCount (k.WokenFrom (.mbRecv 0)) 0 := by
  obtain ⟨k, hreach, hlists, hentry, hnone⟩ := exists_run (M := trafficSystem (Fin 3))
    (P := fun k => k.lists (.mbRecv 0) = [2] ∧ (k.mailbox 0).entry = 1 ∧
      ∀ t, k.pc t = .idle ∨ k.waits.suspended t = true)
    (fun _ e => trafficEvent e = true) 0 (bootMq true ![20, 10, 11])
    [.isr (.startup 0), .schedulerStart, .call (.startup 1), .call (.mbRecv 0 7), .call (.startup 2),
      .call (.mbRecv 0 7), .timerDue 1, .isr (.mbSend 0 5), .timeout 1, .proceed]
    ⟨booted_bootMq true (by decide), equipped_bootMq true _⟩ (fun _ _ _ hok h => ⟨hok, h⟩)
  refine ⟨k, hreach, hlists, hentry, HasCount.of_forall_not fun t hwoken => ?_⟩
  rcases hnone t with hidle | hsusp
  · cases hidle ▸ hwoken.1
  · exact absurd (hsusp.symm.trans hwoken.2.1) (by decide)

end State

end RtThread.Kernel
