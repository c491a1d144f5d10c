import Mathlib.Data.Fin.VecNotation
import Mathlib.Data.Fintype.Basic
import RtThread.Kernel.ConfinedRuns

/-!
# Fixed-priority preemption

When the scheduler is not locked, `rt_schedule` leaves the CPU to a thread of the smallest priority. The
running thread has the highest priority in every run in which the calls that do not reschedule are made
only when there is no need to.
-/

namespace RtThread.Kernel.State

open Lib

variable {T : Type*} [DecidableEq T] {k : State T} {strict : Prop}

/-- The kernel in which only the scheduler chooses the thread that runs. -/
def scheduledSystem (T : Type*) [DecidableEq T] : TransitionSystem (State T) (KernelEvent T) :=
  (system T).guarded fun _ e => scheduledEvent e = true

omit [DecidableEq T] in
/-- No thread runs at start-up. -/
theorem Booted.calm (h : k.Booted) : k.Calm strict := by
  have hplaced := h.placed
  obtain ⟨priorityMax, priority, tick, -, -, hsched⟩ := h.sched
  refine ⟨⟨hplaced.queue, by rw [hsched]; rfl, ?_, by simp⟩, ?_⟩
  · intro id t ht
    rw [hsched] at ht
    simp [Sched.waits, Sched.boot] at ht
  · intro _ cur hcur
    rw [hsched] at hcur
    cases hcur

/-- The queue is in order and the scheduler is not locked between the events of any run. -/
theorem calm_of_reachable (h : (system T).Reachable k) : k.Calm False := by
  apply h.invariant
  · intro k hk
    exact Booted.calm hk
  · rintro k e k' hk ⟨fuel, ret, heq⟩
    exact (exec_stepped heq).calm False.elim hk

/-- The running thread has a priority at least as high as every ready thread, in every state of a
run in which the three calls that do not reschedule are made only when there is no need to. -/
theorem preemption (h : ((scheduledSystem T).guarded PreemptionOk).Reachable k) : k.HighestRuns := by
  have hcalm : k.Calm True := by
    apply h.invariant
    · intro k hk
      exact Booted.calm hk
    · rintro k e k' hk ⟨hok, hevent, fuel, ret, heq⟩
      exact (exec_stepped heq).calm (fun _ => ⟨hevent, hok⟩) hk
  exact hcalm.highest trivial

/-- Whether one of the three calls is made without need can be evaluated. -/
instance [Fintype T] (k : State T) (e : KernelEvent T) : Decidable (PreemptionOk k e) := by
  unfold PreemptionOk
  split
  · exact inferInstanceAs (Decidable (∀ cur ∈ k.current, (_ → ∀ t, _ → _) ∧ (_ → _)))
  · exact inferInstanceAs (Decidable (∀ cur ∈ k.current, ∀ t ∈ k.lists _, _ ≤ _))
  · exact inferInstanceAs (Decidable (∀ cur ∈ k.current, ∀ t ∈ k.lists _, _ ≤ _))
  · exact inferInstanceAs (Decidable True)

/-- The running thread changes the priority of a ready thread from 20 to 15, below its own. -/
theorem preemption_changePriority : ∃ k : State (Fin 2),
    ((scheduledSystem (Fin 2)).guarded PreemptionOk).Reachable k ∧ k.current = some 0 ∧
    (k.stat 1).code = .ready ∧ k.currentPriority 1 = 15 ∧ k.HighestRuns := by
  obtain ⟨k, hreach, hcurrent, hready, hprio⟩ := exists_run
    (M := (scheduledSystem (Fin 2)).guarded PreemptionOk) (P := fun k => k.current = some 0 ∧
      (k.stat 1).code = .ready ∧ k.currentPriority 1 = 15)
    (fun k e => PreemptionOk k e ∧ scheduledEvent e = true) 0 (boot 32 ![10, 20] fun _ => 10)
    [.isr (.startup 0), .isr (.startup 1), .schedulerStart, .call (.changePriority 1 15)]
    booted_boot (fun _ _ _ hok h => ⟨hok.1, hok.2, h⟩)
  exact ⟨k, hreach, hcurrent, hready, hprio, preemption hreach⟩

/-- A preemption that does not happen. Thread 0 runs with priority 10 and gives thread 1, which is
ready, priority 5; `rt_thread_control` returns to thread 0. -/
theorem preemption_missing : ∃ k k' : State (Fin 2), (scheduledSystem (Fin 2)).Reachable k ∧
    exec 0 k (.call (.changePriority 1 5)) = some (k', some rtEok) ∧
    k'.runner = some 0 ∧ k'.currentPriority 0 = 10 ∧ (k'.stat 1).code = .ready ∧
    k'.currentPriority 1 = 5 :=
  TransitionSystem.Reachable.exists₂ (exists_run (fun _ e => scheduledEvent e = true) 0
    (boot 32 ![10, 20] fun _ => 10) [.isr (.startup 0), .isr (.startup 1), .schedulerStart]
    booted_boot (fun _ _ _ hok h => ⟨hok, h⟩))

end RtThread.Kernel.State
