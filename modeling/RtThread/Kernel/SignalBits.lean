import RtThread.Kernel.SchedSystem

/-!
# The signal bits of `stat`

`RT_THREAD_STAT_SIGNAL`, `SIGNAL_WAIT` and `SIGNAL_PENDING` are bits 0, 1 and 2 of the field `signal`.
The operations of the scheduler write a thread's code and keep the bits beside it. Only
`rt_sched_thread_change_priority` does not: on a ready thread it stores `RT_THREAD_INIT` whole.

`rt_schedule` looks at `SIGNAL_PENDING` once its context switch returns, which is when the thread that
called it runs again. `checkSignals` is that part, up to the call of `rt_thread_handle_sig`.
-/

namespace RtThread.Kernel.Sched

open Function Option

variable {T : Type*} [DecidableEq T] {s s' : Sched T} {thread : T}

/-- `RT_THREAD_STAT_SIGNAL`, `SIGNAL_WAIT` and `SIGNAL_PENDING` of a thread. -/
def signals (s : Sched T) (thread : T) : BitVec 4 := (s.stat thread).signal &&& 7

/-- `stat |= bits`, among the signal bits. -/
def markSignal (s : Sched T) (thread : T) (bits : BitVec 4) : Sched T :=
  s.setStat thread { s.stat thread with signal := (s.stat thread).signal ||| bits }

/-- The end of `rt_schedule`: the running thread clears `SIGNAL_PENDING` and handles its signals. The
second component is the thread that calls `rt_thread_handle_sig`. -/
def checkSignals (s : Sched T) : Sched T × Option T :=
  match s.current with
  | some cur =>
    if (s.stat cur).signal &&& 4 ≠ 0 then
      (s.setStat cur { s.stat cur with signal := (s.stat cur).signal &&& ~~~4 }, some cur)
    else (s, none)
  | none => (s, none)

/-- The calls that write `stat` for the scheduler. -/
inductive StatOp (T : Type*) where
  | insertThread (thread : T)
  | threadReady (thread : T)
  /-- `_thread_set_suspend_state`. -/
  | setSuspendState (thread : T) (suspendFlag : SuspendFlag)
  | changePriority (thread : T) (priority : ℕ)
  | schedule
  /-- `rt_schedule`, from the return of its context switch. -/
  | switchReturns

/-- The effect of a call, and the thread that goes on to handle its signals. -/
def statOp (s : Sched T) : StatOp T → Option (Sched T × Option T)
  | .insertThread thread => some (s.rtSchedInsertThread thread, none)
  | .threadReady thread => some ((s.rtSchedThreadReady thread).1, none)
  | .setSuspendState thread suspendFlag => some (s.setCode thread (.suspend suspendFlag), none)
  | .changePriority thread priority => (s.rtSchedThreadChangePriority thread priority).map (·, none)
  | .schedule => some (s.rtSchedule, none)
  | .switchReturns => some s.checkSignals

/-- The steps of the scheduler, and those of `_signal_deliver`. -/
inductive SignalEvent (T : Type*) where
  | sched (event : SchedEvent T)
  /-- `_signal_deliver`, up to the `rt_thread_resume` or the `rt_schedule` that it calls first. -/
  | deliver (tid : T)
  /-- `_signal_deliver`, from the return of its `rt_thread_resume`. -/
  | resumed (tid : T)

/-- The effect of a step. The pending bit of another ready thread is set and cleared again, since that
thread's stack already leads to the handler. -/
def signalStep (s : Sched T) : SignalEvent T → Option (Sched T)
  | .sched event => s.apply event
  | .deliver tid =>
    if s.isSuspended tid then some (s.rtThreadResume tid).1
    else if s.current = some tid ∨ (s.stat tid).signal &&& 1 = 0 then some (s.markSignal tid 1)
    else some s
  | .resumed tid => some (s.markSignal tid 5)

/-- A new status with the signal bits of the old one. -/
theorem signals_setStat {stat : Stat} (h : stat.signal = (s.stat thread).signal) :
    (s.setStat thread stat).signals = s.signals :=
  (comp_update (fun stat : Stat => stat.signal &&& 7) s.stat thread stat).trans
    (update_eq_self_iff.mpr (congrArg (· &&& 7) h))

theorem signals_setCode (s : Sched T) (thread : T) (code : StatCode) :
    (s.setCode thread code).signals = s.signals := signals_setStat rfl

theorem signals_rtSchedRemoveThread (s : Sched T) (thread : T) :
    (s.rtSchedRemoveThread thread).signals = s.signals := by
  rw [rtSchedRemoveThread_eq]
  rfl

theorem signals_rtSchedInsertThread (s : Sched T) (thread : T) :
    (s.rtSchedInsertThread thread).signals = s.signals := by
  have hstat : (s.rtSchedInsertThread thread).stat = (s.setCode thread _).stat :=
    rtSchedInsertThread_stat s thread
  unfold signals
  rw [hstat]
  exact signals_setCode ..

theorem signals_rtSchedThreadReady (s : Sched T) (thread : T) :
    (s.rtSchedThreadReady thread).1.signals = s.signals := by
  unfold rtSchedThreadReady rtSchedThreadTimerStop
  split_ifs
  · dsimp only
    split
    · exact signals_rtSchedInsertThread ..
    · rfl
  · exact signals_rtSchedInsertThread ..
  · rfl

/-- A switch leaves the bits; the one that it clears is the yield bit. -/
theorem signals_switchTo (s : Sched T) (fromThread toThread : T) (needInsertFrom : Bool) :
    (s.switchTo fromThread toThread needInsertFrom).signals = s.signals := by
  refine (signals_setCode ..).trans ((signals_rtSchedRemoveThread ..).trans
    ((signals_setStat (by rfl)).trans ?_))
  cases needInsertFrom with
  | true => exact signals_rtSchedInsertThread ..
  | false => rfl

theorem signals_rtSchedule (s : Sched T) : s.rtSchedule.signals = s.signals := by
  unfold rtSchedule
  split
  · dsimp only
    split_ifs <;> simp only [signals_switchTo, signals_setCode, signals_rtSchedRemoveThread]
  · rfl

/-- After `rt_sched_thread_change_priority`: no bit of a ready thread is left. -/
theorem signals_changePriority {priority : ℕ}
    (h : s.rtSchedThreadChangePriority thread priority = some s') : s'.signals =
      if (s.stat thread).code = .ready then Function.update s.signals thread 0 else s.signals := by
  unfold rtSchedThreadChangePriority at h
  split_ifs at h with hmax hready
  · rw [if_pos hready, ← some.inj h, signals_rtSchedInsertThread, setMasks_eq]
    funext t
    unfold signals
    by_cases ht : t = thread
    · rw [ht, setStat_self, update_self]
      rfl
    · rw [setStat_of_ne _ ht, update_of_ne ht, rtSchedRemoveThread_eq]
      rfl
  · rw [if_neg hready, ← some.inj h, setMasks_eq]
    rfl

/-- Every call of the scheduler keeps the signal bits of every thread, up to the pending bit of the
thread that handles its signals, unless it changes the priority of a ready thread with such a bit. -/
theorem statOp_keeps_signals_iff (op : StatOp T) {handler : Option T}
    (h : s.statOp op = some (s', handler)) :
    (∀ t, s'.signals t = s.signals t ∨ handler = some t ∧ s'.signals t = s.signals t &&& ~~~4) ↔
      ∀ thread priority, op = .changePriority thread priority → (s.stat thread).code = .ready →
        s.signals thread = 0 := by
  cases op with
  | changePriority thread priority =>
    obtain ⟨s1, h1, heq⟩ := map_eq_some_iff.mp h
    cases heq
    rw [signals_changePriority h1]
    constructor
    · intro hkeep t p heq hready
      cases heq
      simpa [hready, eq_comm] using hkeep thread
    · intro hzero t
      split_ifs with hready
      · by_cases ht : t = thread
        · rw [ht, hzero thread priority rfl hready, update_self]
          exact .inl rfl
        · exact .inl (update_of_ne ht ..)
      · exact .inl rfl
  | insertThread thread =>
    cases h
    exact iff_of_true (fun t => .inl (congrFun (signals_rtSchedInsertThread s thread) t)) nofun
  | threadReady thread =>
    cases h
    exact iff_of_true (fun t => .inl (congrFun (signals_rtSchedThreadReady s thread) t)) nofun
  | setSuspendState thread suspendFlag =>
    cases h
    exact iff_of_true (fun t => .inl (congrFun (signals_setCode ..) t)) nofun
  | schedule =>
    cases h
    exact iff_of_true (fun t => .inl (congrFun (signals_rtSchedule s) t)) nofun
  | switchReturns =>
    refine iff_of_true (fun t => ?_) nofun
    simp only [statOp, checkSignals] at h
    split at h
    next cur hcur =>
      split_ifs at h with hpending
      · cases h
        by_cases ht : cur = t
        · refine .inr ⟨by rw [ht], ?_⟩
          rw [ht, signals, setStat_self, signals, BitVec.and_assoc, BitVec.and_assoc, BitVec.and_comm 7]
        · rw [signals, setStat_of_ne _ (Ne.symm ht)]
          exact .inl rfl
      · cases h
        exact .inl rfl
    · cases h
      exact .inl rfl

/-- Two threads; the ready one gets a signal and then another priority. -/
theorem changePriority_drops_signal : ∃ s : Sched Bool,
    (Lib.TransitionSystem.ofNext (system Bool).init signalStep).Reachable s ∧
      s.signals true = 1 ∧ (s.statOp (.changePriority true 2)).any (·.1.signals true = 0) :=
  Lib.TransitionSystem.Reachable.exists_run signalStep
    [.sched (.startup false), .sched (.startup true), .sched .schedulerStart, .deliver true]
    (.init (s := boot 3 Bool.toNat fun _ => 10) ⟨3, _, _, by decide, by decide, rfl⟩)
    (fun _ _ _ _ _ h => h)

/-- The same change leaves the bits of a ready thread without a signal. -/
theorem changePriority_keeps_signals : ∃ s s' : Sched Bool, (s.stat true).code = .ready ∧
    s.statOp (.changePriority true 2) = some (s', none) ∧
      ∀ t, s'.signals t = s.signals t ∨ none = some t ∧ s'.signals t = s.signals t &&& ~~~4 :=
  ⟨(boot 3 Bool.toNat fun _ => 10).rtSchedInsertThread true, _, rfl, rfl,
    (statOp_keeps_signals_iff (.changePriority true 2) rfl).mpr (by rintro _ _ ⟨⟩ _; rfl)⟩

end RtThread.Kernel.Sched
