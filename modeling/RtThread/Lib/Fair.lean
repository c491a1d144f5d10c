import RtThread.Lib.Transition
import Mathlib.Order.WellFounded
import Mathlib.Order.RelClasses

/-!
# Infinite runs

A run is a sequence of states and events without an end. What must happen on it is shown by a rank
in a well-founded order: while the goal is not met no step raises the rank, and again and again
some step lowers it. Which steps those are is what a fairness assumption says.
-/

namespace RtThread.Lib

open Option

/-- The progress rule: `P` stays and the rank does not rise until the goal, and the rank falls at
some later time. -/
theorem eventually_of_rank {α : Type*} [Preorder α] [WellFoundedLT α] (rank : ℕ → α)
    {P Q : ℕ → Prop} (hkeep : ∀ n, P n → Q n ∨ P (n + 1) ∧ rank (n + 1) ≤ rank n)
    (hfall : ∀ n, P n → ∃ m, n ≤ m ∧ (P m → Q m ∨ rank (m + 1) < rank m)) {n : ℕ} (hn : P n) :
    ∃ m, n ≤ m ∧ Q m := by
  -- the way from one time to a later one, which may meet the goal
  have hwalk : ∀ d n, P n → (∃ m, n ≤ m ∧ Q m) ∨ P (n + d) ∧ rank (n + d) ≤ rank n := by
    intro d n hn
    induction d with
    | zero => exact .inr ⟨hn, le_refl _⟩
    | succ d ih =>
      obtain hgoal | ⟨hd, hle⟩ := ih
      · exact .inl hgoal
      · obtain hgoal | ⟨hnext, hstep⟩ := hkeep _ hd
        · exact .inl ⟨n + d, Nat.le_add_right n d, hgoal⟩
        · exact .inr ⟨hnext, hstep.trans hle⟩
  induction hr : rank n using WellFoundedLT.induction generalizing n with
  | ind r ih =>
    subst hr
    obtain ⟨m, hm, hfalls⟩ := hfall n hn
    obtain ⟨d, rfl⟩ := Nat.exists_eq_add_of_le hm
    obtain hgoal | ⟨hd, hle⟩ := hwalk d n hn
    · exact hgoal
    · obtain hgoal | ⟨hnext, -⟩ := hkeep _ hd
      · exact ⟨_, hm, hgoal⟩
      · obtain hgoal | hlt := hfalls hd
        · exact ⟨_, hm, hgoal⟩
        · obtain ⟨k, hk, hgoal⟩ := ih _ (hlt.trans_le hle) hnext rfl
          exact ⟨k, by omega, hgoal⟩

/-- What stays until the goal holds at every later time, or the goal is met. -/
theorem eventually_or_keeps {P Q : ℕ → Prop} (hkeep : ∀ n, P n → Q n ∨ P (n + 1)) {n m : ℕ}
    (hn : P n) (hm : n ≤ m) : (∃ k, n ≤ k ∧ k < m ∧ Q k) ∨ P m := by
  obtain ⟨d, rfl⟩ := Nat.exists_eq_add_of_le hm
  clear hm
  induction d with
  | zero => exact .inr hn
  | succ d ih =>
    obtain ⟨k, hk, hlt, hgoal⟩ | hd := ih
    · exact .inl ⟨k, hk, by omega, hgoal⟩
    · obtain hgoal | hnext := hkeep _ hd
      · exact .inl ⟨n + d, by omega, by omega, hgoal⟩
      · exact .inr hnext

namespace TransitionSystem

variable {σ ε : Type*} {M : TransitionSystem σ ε}

/-- A sequence of states and events from an initial state. -/
structure Run (M : TransitionSystem σ ε) where
  state : ℕ → σ
  event : ℕ → ε
  init : M.init (state 0)
  step : ∀ n, M.step (state n) (event n) (state (n + 1))

/-- The states of a run are reachable. -/
theorem Run.reachable (r : M.Run) (n : ℕ) : M.Reachable (r.state n) := by
  induction n with
  | zero => exact Reachable.init r.init
  | succ n ih => exact ih.step (r.step n)

/-- The states on the way through a sequence of events; the last one is repeated. -/
def pathState (next : σ → ε → Option σ) : σ → List ε → ℕ → σ
  | s, _, 0 => s
  | s, [], _ + 1 => s
  | s, e :: events, n + 1 => pathState next ((next s e).getD s) events n

section Path

variable {next : σ → ε → Option σ} {s s' : σ}

/-- Each state of the path follows from the one before it. -/
theorem next_pathState {events : List ε} {idle : ε} (hrun : runEvents next s events = some s')
    (hidle : next s' idle = some s') (n : ℕ) :
    next (pathState next s events n) (events.getD n idle) = some (pathState next s events (n + 1)) := by
  induction events generalizing s n with
  | nil =>
    cases hrun
    cases n <;> exact hidle
  | cons e events ih =>
    obtain ⟨s1, hstep, hrest⟩ := bind_eq_some_iff.mp hrun
    cases n with
    | zero =>
      simp [pathState, hstep]
    | succ n =>
      simp only [pathState, hstep, getD_some]
      exact ih hrest n

/-- From its end on the path stays. -/
theorem pathState_of_le {events : List ε} (hrun : runEvents next s events = some s') {n : ℕ}
    (hn : events.length ≤ n) : pathState next s events n = s' := by
  induction events generalizing s n with
  | nil =>
    cases hrun
    cases n <;> rfl
  | cons e events ih =>
    obtain ⟨s1, hstep, hrest⟩ := bind_eq_some_iff.mp hrun
    obtain ⟨n, rfl⟩ : ∃ k, n = k + 1 := ⟨n - 1, by simp only [List.length_cons] at hn; omega⟩
    simp only [pathState, hstep]
    exact ih hrest (by simpa using hn)

/-- The run through a sequence of events, which then stays where it is. -/
def Run.ofEvents {init : σ → Prop} (hinit : init s) {events : List ε}
    (hrun : runEvents next s events = some s') (idle : ε) (hidle : next s' idle = some s') :
    (ofNext init next).Run where
  state := pathState next s events
  event n := events.getD n idle
  init := by cases events <;> exact hinit
  step := next_pathState hrun hidle

end Path

end TransitionSystem

end RtThread.Lib
