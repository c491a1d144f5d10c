import RtThread.Kernel.Basic
import RtThread.Kernel.Waits

/-!
# One thread of the kernel

What the kernel knows of one thread: its status, its timer and the place in its call. The invariants
of the blocking calls are conditions on every single thread, and most steps change one thread only.
-/

namespace RtThread.Kernel.State

variable {T : Type*} {k : State T} {t : T}

/-- What the kernel knows of one thread: its status, its timer and its call. -/
structure ThreadView where
  fresh : Bool
  suspended : Bool
  ttmrSet : Bool
  timerActive : Bool
  timerFiring : Bool
  pc : Pc
  error : ℤ
  pendingObject : Option ℕ

/-- The view of one thread. -/
def view (k : State T) (t : T) : ThreadView where
  fresh := k.waits.fresh t
  suspended := k.waits.suspended t
  ttmrSet := k.waits.ttmrSet t
  timerActive := k.waits.timerActive t
  timerFiring := k.waits.timerFiring t
  pc := k.pc t
  error := k.error t
  pendingObject := k.pendingObject t

/-- Who can make a call. -/
theorem caller_eq (h : k.caller = some t) :
    k.current = some t ∧ (k.stat t).code = .running ∧ k.pc t = .idle := by
  obtain ⟨cur, hcur, heq⟩ := Option.bind_eq_some_iff.mp h
  split_ifs at heq with hok
  cases heq
  exact ⟨hcur, hok⟩

/-- Who can go on inside a call. -/
theorem runner_eq (h : k.runner = some t) : k.current = some t ∧ (k.stat t).code = .running := by
  obtain ⟨cur, hcur, heq⟩ := Option.bind_eq_some_iff.mp h
  split_ifs at heq with hok
  cases heq
  exact ⟨hcur, hok⟩

/-- A thread that can make a call runs. -/
theorem runner_of_caller (h : k.caller = some t) : k.runner = some t := by
  obtain ⟨hcur, hrunning, -⟩ := caller_eq h
  simp [runner, hcur, hrunning]

/-- A running thread is neither suspended nor fresh. -/
theorem view_of_running (h : (k.stat t).code = .running) :
    (k.view t).suspended = false ∧ (k.view t).fresh = false := by
  change k.isSuspended t = false ∧ k.isFresh t = false
  simp [Sched.isSuspended, Sched.isFresh, h]

variable [DecidableEq T]

/-- Starting a timer keeps the queue. -/
theorem startTimerIf_queue (h : k.ReadyQueue) (t : T) (timeout : ℤ) :
    (k.startTimerIf t timeout).ReadyQueue := by
  unfold startTimerIf
  split
  · exact h.congr rfl rfl
  · exact h

end RtThread.Kernel.State
