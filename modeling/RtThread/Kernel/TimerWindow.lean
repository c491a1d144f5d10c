import Mathlib.Data.Fin.VecNotation
import RtThread.Kernel.IpcSteps

/-!
# The assertion of `_thread_timeout`

The expiry of a thread timer has two steps: `rt_timer_check` deactivates the timer, and
`_thread_timeout` wakes the thread, which it asserts to be suspended. A wake-up between the two steps
fails, because the timer cannot be stopped, but it clears `sched_flag_ttmr_set`. The next wake-up
finds the flag cleared and makes the thread ready, and then the assertion fails.
-/

namespace RtThread.Kernel

open Lib

namespace Waits

variable {T : Type*} {w : Waits T} {t : T}
variable {u : T}

/-- The timer of a thread is active only while the thread is suspended, and a thread whose expiry has
begun is still suspended. -/
structure TimerOk (w : Waits T) (t : T) : Prop where
  active : w.timerActive t = true → w.ttmrSet t = true ∧ w.suspended t = true
  firing : w.timerFiring t = true → w.suspended t = true ∧ w.timerActive t = false

/-- Only the timer and the status of the thread matter. -/
theorem TimerOk.congr {w' : Waits T} (h : w.TimerOk t) (hset : w'.ttmrSet t = w.ttmrSet t)
    (hactive : w'.timerActive t = w.timerActive t) (hfiring : w'.timerFiring t = w.timerFiring t)
    (hsusp : w'.suspended t = w.suspended t) : w'.TimerOk t := by
  constructor
  · rw [hactive, hset, hsusp]
    exact h.active
  · rw [hactive, hfiring, hsusp]
    exact h.firing

/-- A thread that is not suspended has no timer. -/
theorem TimerOk.not_suspended (h : w.TimerOk t) (hsusp : w.suspended t = false) :
    w.timerActive t = false ∧ w.timerFiring t = false := by
  constructor
  · by_contra hactive
    have htrue := (h.active (Bool.eq_true_of_not_eq_false hactive)).2
    exact absurd (hsusp.symm.trans htrue) (by decide)
  · by_contra hfiring
    have htrue := (h.firing (Bool.eq_true_of_not_eq_false hfiring)).1
    exact absurd (hsusp.symm.trans htrue) (by decide)

variable [DecidableEq T]

/-- A thread that is woken, unless its expiry has begun and its timer flag is cleared. -/
theorem TimerOk.ready (h : w.TimerOk u)
    (hok : w.timerFiring t = true → w.ttmrSet t = true) : (w.ready t).TimerOk u := by
  by_cases hu : u = t
  · subst hu
    unfold Waits.ready
    rw [timerStop_eq]
    split
    next hstop =>
      have hfiring : w.timerFiring u = false := by
        by_contra hfire
        have hfire := Bool.eq_true_of_not_eq_false hfire
        simp [canStop, hok hfire, (h.firing hfire).2] at hstop
      have hactive : (!w.ttmrSet u && w.timerActive u) = false := by
        cases hact : w.timerActive u with
        | true => simp [(h.active hact).1]
        | false => simp
      constructor
      · intro hact
        simp [wake, unlink, setSuspended, hactive] at hact
      · intro hfire
        simp [wake, unlink, setSuspended, hfiring] at hfire
    next hstop =>
      simp only [canStop, Bool.or_eq_true, not_or, Bool.not_eq_true] at hstop
      constructor
      · intro hact
        simp [hstop.1] at hact
      · intro hfire
        exact ⟨(h.firing hfire).1, by simp [hstop.1]⟩
  · refine h.congr ?_ ?_ ?_ ?_ <;> unfold Waits.ready <;> rw [timerStop_eq] <;> split <;>
      simp [wake, unlink, setSuspended, hu]

/-- A running thread that is suspended. -/
theorem TimerOk.block {head : ListHead} {flag : IpcFlag} {timeout : ℤ} (h : w.TimerOk u)
    (hsusp : w.suspended t = false) : (w.block t head flag timeout).TimerOk u := by
  by_cases hu : u = t
  · subst hu
    obtain ⟨hactive, hfiring⟩ := h.not_suspended hsusp
    unfold Waits.block
    rw [timerStop_eq]
    split
    · constructor
      · simp [timerStart, link, setSuspended]
      · intro hfire
        simp [timerStart, link, setSuspended, hfiring] at hfire
    · constructor
      · intro hact
        simp [link, setSuspended, hactive] at hact
      · intro hfire
        simp [link, setSuspended, hfiring] at hfire
  · refine h.congr ?_ ?_ ?_ ?_ <;> unfold Waits.block <;> dsimp only <;> rw [timerStop_eq] <;>
      split <;> simp [timerStart, link, setSuspended, hu]

/-- A thread that is started. -/
theorem TimerOk.start (h : w.TimerOk u) (hsusp : w.suspended t = false) : (w.start t).TimerOk u := by
  by_cases hu : u = t
  · subst hu
    obtain ⟨hactive, hfiring⟩ := h.not_suspended hsusp
    constructor
    · intro hact
      simp [Waits.start, hactive] at hact
    · intro hfire
      simp [Waits.start, hfiring] at hfire
  · refine h.congr ?_ ?_ ?_ ?_ <;> simp [Waits.start, hu]

/-- A timer that is due. -/
theorem TimerOk.timerDue (h : w.TimerOk u) (hactive : w.timerActive t = true) :
    (w.timerDue t).TimerOk u := by
  by_cases hu : u = t
  · subst hu
    constructor
    · intro hact
      simp [Waits.timerDue] at hact
    · intro _
      exact ⟨(h.active hactive).2, by simp [Waits.timerDue]⟩
  · refine h.congr ?_ ?_ ?_ ?_ <;> simp [Waits.timerDue, hu]

/-- A thread that times out. -/
theorem TimerOk.expire (h : w.TimerOk u) (hfiring : w.timerFiring t = true) :
    ((w.timerFired t).wake t).TimerOk u := by
  by_cases hu : u = t
  · subst hu
    constructor
    · intro hact
      simp [timerFired, wake, unlink, setSuspended, (h.firing hfiring).2] at hact
    · intro hfire
      simp [timerFired, wake, unlink, setSuspended] at hfire
  · refine h.congr ?_ ?_ ?_ ?_ <;> simp [timerFired, wake, unlink, setSuspended, hu]

end Waits

namespace State

variable {T : Type*} [DecidableEq T] {k k' : State T} {t : T}

/-- The timed suspensions, the releases and sends, and the events of threads and time. -/
def windowEvent (e : KernelEvent T) : Bool := ipcEvent e || backgroundEvent e

/-- The first thread of this list is not one whose expiry has begun and whose timer flag a wake-up
has cleared already. -/
def FirstNotMissed (k : State T) (head : ListHead) : Prop :=
  ∀ t ∈ (k.lists head).head?, k.timerFiring t = true → k.ttmrSet t = true

/-- No second wake-up reaches a thread while it times out. -/
def NoSecondWake (k : State T) (e : KernelEvent T) : Prop :=
  ∀ head ∈ k.wakesOn e, k.FirstNotMissed head

/-- The runs of timed suspensions, releases and sends. -/
def windowSystem (T : Type*) [DecidableEq T] : TransitionSystem (State T) (KernelEvent T) :=
  (system T).guarded fun _ e => windowEvent e = true

/-- Every timer is in order. -/
structure TimersOk (k : State T) : Prop extends k.IpcCalls where
  timer : ∀ t, k.waits.TimerOk t

/-- A call keeps the timers in order. -/
theorem TimersOk.ipcStep {wakes : Option ListHead} (h : k.TimersOk) (hstep : IpcStep k wakes k')
    (hok : ∀ head ∈ wakes, k.FirstNotMissed head) : k'.TimersOk := by
  refine ⟨hstep.calls h.toIpcCalls, ?_⟩
  cases hstep with
  | own hown =>
    rw [hown.sched]
    exact h.timer
  | @wake k1 head hown hwakes hwait =>
    have hqueue : k1.ReadyQueue := hown.sched ▸ h.queue
    obtain ⟨-, heq⟩ | ⟨t, rest, hlist, -, s, -, hwaits, heq⟩ := wakeFirst_cases hqueue hwait
    · rw [heq, hown.sched]
      exact h.timer
    · rw [hown.sched] at hlist hwaits
      have hfirst : k.timerFiring t = true → k.ttmrSet t = true :=
        hok head hwakes t (by simp [hlist])
      have hsched : (k1.wakeFirst head).waits = k.waits.ready t := by
        rw [heq]
        split <;> exact hwaits
      rw [hsched]
      exact fun u => (h.timer u).ready hfirst
  | @block k1 _ t head flag suspendFlag timeout pc ret heq hown hrunning hwait _ _ _ =>
    have hqueue : k1.ReadyQueue := hown.sched ▸ h.queue
    obtain ⟨-, -, hcode⟩ | ⟨s, -, hwaits, hsusp, -, rfl⟩ := blockOn_cases hqueue hwait heq
    · rw [hown.sched] at hcode
      exact absurd hrunning hcode
    · rw [hown.sched] at hwaits hsusp
      rw [hwaits]
      exact fun u => (h.timer u).block hsusp

/-- Threads that are started and time keep the timers in order. -/
theorem TimersOk.background (h : k.TimersOk) (hstep : Background k k') : k'.TimersOk := by
  refine ⟨hstep.calls h.toIpcCalls, ?_⟩
  cases hstep with
  | unseen tick _ hwaits =>
    rw [hwaits]
    exact h.timer
  | @start s t _ hfresh hwaits =>
    have hsusp : k.waits.suspended t = false := by
      have hinit : (k.stat t).code = .init := by simpa [Sched.waits, Sched.isFresh] using hfresh
      simp [Sched.waits, Sched.isSuspended, hinit]
    rw [hwaits]
    exact fun u => (h.timer u).start hsusp
  | due _ hactive _ hwaits =>
    rw [hwaits]
    exact fun u => (h.timer u).timerDue hactive
  | expire _ hfiring _ hwaits =>
    rw [hwaits]
    exact fun u => (h.timer u).expire hfiring

omit [DecidableEq T] in
/-- No timer is active at start-up. -/
theorem Booted.timersOk (h : k.Booted) : k.TimersOk := by
  refine ⟨h.ipcCalls, fun t => ?_⟩
  obtain ⟨priorityMax, priority, tick, -, -, hsched⟩ := h.sched
  rw [hsched]
  constructor
  · intro hactive
    simp [Sched.waits, Sched.boot] at hactive
  · intro hfiring
    simp [Sched.waits, Sched.boot] at hfiring

/-- The timers are in order in every run in which no second wake-up reaches a thread while it times
out. -/
theorem timersOk_of_noSecondWake (h : ((windowSystem T).guarded NoSecondWake).Reachable k) :
    k.TimersOk := by
  apply h.invariant
  · intro k hk
    exact Booted.timersOk hk
  · rintro k e k' hk ⟨hok, hevent, fuel, ret, heq⟩
    rcases Bool.or_eq_true_iff.mp hevent with hipc | hback
    · exact hk.ipcStep (exec_ipcStep hk.place hipc heq) hok
    · exact hk.background (exec_background hk.queue hback heq)

/-- The assertion of `_thread_timeout` holds whenever the function is called, in every run in which no
second wake-up reaches a thread while it times out. -/
theorem threadTimeout_assertion (h : ((windowSystem T).guarded NoSecondWake).Reachable k)
    (hfiring : k.timerFiring t = true) : k.isSuspended t = true ∧ (k.threadTimeout t).isSome = true := by
  have hsusp : k.isSuspended t = true := (((timersOk_of_noSecondWake h).timer t).firing hfiring).1
  have hsusp' : ({ k.toSched with
      timerFiring := Function.update k.timerFiring t false }).isSuspended t = true := hsusp
  refine ⟨hsusp, ?_⟩
  simp [threadTimeout, Sched.threadTimeout, hfiring, hsusp']

/-- Whether a wake-up is a second one can be evaluated. -/
instance (k : State T) (e : KernelEvent T) : Decidable (NoSecondWake k e) :=
  inferInstanceAs (Decidable (∀ head ∈ k.wakesOn e, ∀ t ∈ (k.lists head).head?,
    k.timerFiring t = true → k.ttmrSet t = true))

/-- A release reaches a thread while it times out; the thread is still suspended. -/
theorem threadTimeout_assertion_release : ∃ k : State (Fin 2),
    ((windowSystem (Fin 2)).guarded NoSecondWake).Reachable k ∧ k.timerFiring 1 = true ∧
    k.ttmrSet 1 = false ∧ k.isSuspended 1 = true ∧ (k.threadTimeout 1).isSome = true :=
  TransitionSystem.Reachable.exists_and₂ (exists_run
    (fun k e => NoSecondWake k e ∧ windowEvent e = true) 0 (boot 32 ![20, 10] fun _ => 10)
    [.isr (.startup 0), .schedulerStart, .call (.startup 1), .call (.semTake 0 7), .timerDue 1,
      .isr (.semRelease 0)] booted_boot
    (fun _ _ _ hok h => ⟨hok.1, hok.2, h⟩)) fun _ hreach hfact _ =>
    threadTimeout_assertion hreach hfact

/-- A failed assertion. Thread 1 waits for a token and its timer is due. The first release cannot stop
the timer and clears the flag; the second finds the flag cleared and makes the thread ready. When
`_thread_timeout` is called the thread is not suspended. -/
theorem threadTimeout_assertion_fails : ∃ k : State (Fin 2), (windowSystem (Fin 2)).Reachable k ∧
    k.timerFiring 1 = true ∧ k.isSuspended 1 = false ∧ (k.threadTimeout 1).isSome = false :=
  exists_run (fun _ e => windowEvent e = true) 0 (boot 32 ![20, 10] fun _ => 10)
    [.isr (.startup 0), .schedulerStart, .call (.startup 1), .call (.semTake 0 7), .timerDue 1,
      .isr (.semRelease 0), .isr (.semRelease 0)]
    booted_boot (fun _ _ _ hok h => ⟨hok, h⟩)

end State

end RtThread.Kernel
