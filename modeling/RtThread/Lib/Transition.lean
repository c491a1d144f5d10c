import Mathlib.Logic.Basic

/-!
# Transition systems and guarded runs

A system has initial states and steps labelled by events. What holds initially and is kept by
every step holds in every reachable state. A guard restricts the runs to those whose every step
meets a condition on the state and the event; it is how a property that holds only for some
environments is stated over whole runs.
-/

namespace RtThread.Lib

open Option

section Computed

variable {α β : Type*} {p : Prop} {P : α → Prop} [DecidablePred P]

/-- Whether a fact holds of a computed result can be evaluated. -/
instance decidableSome {x : Option α} : Decidable (∃ a, x = some a ∧ P a) :=
  decidable_of_iff (x.any (P ·) = true) (by simp [Option.any_eq_true])

instance decidablePair [DecidableEq β] {x : Option (α × β)} {b : β} : Decidable (∃ a, x = some (a, b) ∧ P a) :=
  decidable_of_iff (x.any (fun r => P r.1 ∧ r.2 = b) = true) (by simp [Option.any_eq_true])

instance decidableSnd [DecidableEq β] {x : Option (α × β)} {b : β} : Decidable (∃ a, x = some (a, b)) :=
  decidable_of_iff (x.any (·.2 = b) = true) (by simp [Option.any_eq_true])

instance decidableAnd {R : α → Prop} [Decidable p] [Decidable (∃ a, R a)] : Decidable (∃ a, p ∧ R a) :=
  decidable_of_iff (p ∧ ∃ a, R a) exists_and_left.symm

end Computed

/-- Initial states, and steps labelled by events. -/
structure TransitionSystem (σ ε : Type*) where
  init : σ → Prop
  step : σ → ε → σ → Prop

namespace TransitionSystem

variable {σ ε : Type*} {M : TransitionSystem σ ε}

/-- The states on the runs from an initial state. -/
inductive Reachable (M : TransitionSystem σ ε) : σ → Prop where
  | init {s : σ} : M.init s → M.Reachable s
  | step {s s' : σ} {e : ε} : M.Reachable s → M.step s e s' → M.Reachable s'

/-- The invariant rule. -/
theorem Reachable.invariant {I : σ → Prop} (hinit : ∀ s, M.init s → I s)
    (hstep : ∀ s e s', I s → M.step s e s' → I s') {s : σ} (h : M.Reachable s) : I s := by
  induction h with
  | init hs => exact hinit _ hs
  | step _ hs ih => exact hstep _ _ _ ih hs

/-- The runs whose every step is taken in a state that allows its event. -/
def guarded (M : TransitionSystem σ ε) (ok : σ → ε → Prop) : TransitionSystem σ ε where
  init := M.init
  step s e s' := ok s e ∧ M.step s e s'

/-- A guarded run is a run. -/
theorem Reachable.of_guarded {ok : σ → ε → Prop} {s : σ} (h : (M.guarded ok).Reachable s) :
    M.Reachable s := by
  induction h with
  | init hs => exact Reachable.init hs
  | step _ hs ih => exact Reachable.step ih hs.2

/-- The runs whose every step meets a condition on the states before and after it. -/
def restricted (M : TransitionSystem σ ε) (ok : σ → ε → σ → Prop) : TransitionSystem σ ε where
  init := M.init
  step s e s' := ok s e s' ∧ M.step s e s'

/-- A restricted run is a run. -/
theorem Reachable.of_restricted {ok : σ → ε → σ → Prop} {s : σ} (h : (M.restricted ok).Reachable s) :
    M.Reachable s := by
  induction h with
  | init hs => exact Reachable.init hs
  | step _ hs ih => exact Reachable.step ih hs.2

/-- The runs that start in some of the initial states. -/
def startingIn (M : TransitionSystem σ ε) (start : σ → Prop) : TransitionSystem σ ε where
  init s := M.init s ∧ start s
  step := M.step

/-- The system together with a history that each step extends. -/
def withHistory {η : Type*} (M : TransitionSystem σ ε) (first : η) (record : σ → ε → σ → η → η) :
    TransitionSystem (σ × η) ε where
  init s := M.init s.1 ∧ s.2 = first
  step s e s' := M.step s.1 e s'.1 ∧ s'.2 = record s.1 e s'.1 s.2

/-- The refinement rule: a view of the states that a step of another system follows, or that stays. -/
theorem Reachable.refine {τ δ : Type*} {N : TransitionSystem τ δ} {f : σ → τ}
    (hinit : ∀ s, M.init s → N.init (f s))
    (hstep : ∀ s e s', M.Reachable s → M.step s e s' → f s' = f s ∨ ∃ d, N.step (f s) d (f s'))
    {s : σ} (h : M.Reachable s) : N.Reachable (f s) := by
  induction h with
  | init hs => exact Reachable.init (hinit _ hs)
  | step hreach hs ih =>
    obtain hsame | ⟨d, hd⟩ := hstep _ _ _ hreach hs
    · exact hsame ▸ ih
    · exact ih.step hd

/-- A system whose steps are computed by a function; `none` is an event that cannot happen. -/
def ofNext (init : σ → Prop) (next : σ → ε → Option σ) : TransitionSystem σ ε where
  init := init
  step s e s' := next s e = some s'

/-- The state after a sequence of events. -/
def runEvents (next : σ → ε → Option σ) : σ → List ε → Option σ
  | s, [] => some s
  | s, e :: events => (next s e).bind fun s' => runEvents next s' events

/-- One sequence of events after another. -/
theorem runEvents_append (next : σ → ε → Option σ) (s : σ) (events events' : List ε) :
    runEvents next s (events ++ events') =
      (runEvents next s events).bind fun s' => runEvents next s' events' := by
  induction events generalizing s with
  | nil => rfl
  | cons e events ih =>
    simp only [List.cons_append, runEvents, bind_assoc, ih]

variable {next : σ → ε → Option σ} {events : List ε} {s s' : σ}

/-- A sequence of events leads to reachable states, when every event is a step from those. -/
theorem Reachable.runEvents_of_reachable (h : M.Reachable s)
    (hnext : ∀ s s', M.Reachable s → ∀ e ∈ events, next s e = some s' → M.step s e s')
    (hrun : TransitionSystem.runEvents next s events = some s') : M.Reachable s' := by
  induction events generalizing s with
  | nil =>
    cases hrun
    exact h
  | cons e events ih =>
    obtain ⟨s1, hstep, hrest⟩ := bind_eq_some_iff.mp hrun
    have hreach := h.step (hnext s s1 h e List.mem_cons_self hstep)
    exact ih hreach (fun s s' hs e he => hnext s s' hs e (List.mem_cons_of_mem _ he)) hrest

/-- A sequence of events leads to reachable states. -/
theorem Reachable.runEvents (h : M.Reachable s) (hnext : ∀ s s', ∀ e ∈ events, next s e = some s' → M.step s e s')
    (hrun : TransitionSystem.runEvents next s events = some s') : M.Reachable s' :=
  h.runEvents_of_reachable (fun s s' _ => hnext s s') hrun

variable {P P' Q : σ → Prop}

/-- A reachable state of which a fact holds, and what follows. -/
theorem Reachable.exists_and (h : ∃ s, M.Reachable s ∧ P s) (hQ : ∀ s, M.Reachable s → P s → Q s) :
    ∃ s, M.Reachable s ∧ P s ∧ Q s :=
  h.imp fun s hs => ⟨hs.1, hs.2, hQ s hs.1 hs.2⟩

/-- The same with two facts. -/
theorem Reachable.exists_and₂ (h : ∃ s, M.Reachable s ∧ P s ∧ P' s)
    (hQ : ∀ s, M.Reachable s → P s → P' s → Q s) : ∃ s, M.Reachable s ∧ P s ∧ P' s ∧ Q s :=
  h.imp fun s hs => ⟨hs.1, hs.2.1, hs.2.2, hQ s hs.1 hs.2.1 hs.2.2⟩

/-- A reachable state and a further object. -/
theorem Reachable.exists₂ {τ : Type*} {R : σ → τ → Prop} (h : ∃ s, M.Reachable s ∧ ∃ t, R s t) :
    ∃ s t, M.Reachable s ∧ R s t :=
  h.imp fun _ ⟨hs, t, ht⟩ => ⟨t, hs, ht⟩

variable [DecidablePred P] {ok : σ → ε → Prop} [∀ s e, Decidable (ok s e)]

/-- A computed sequence of events leads to a reachable state of which a computed fact holds. -/
theorem Reachable.exists_run (next : σ → ε → Option σ) (events : List ε) (h : M.Reachable s)
    (hnext : ∀ s s', M.Reachable s → ∀ e ∈ events, next s e = some s' → M.step s e s')
    (hrun : (TransitionSystem.runEvents next s events).any (P ·) := by decide +kernel) :
    ∃ s', M.Reachable s' ∧ P s' := by
  obtain ⟨s', hs', hfact⟩ := (any_eq_true _ _).mp hrun
  exact ⟨s', h.runEvents_of_reachable hnext hs', of_decide_eq_true hfact⟩

/-- The steps of a function that a condition allows. -/
def nextWhere (ok : σ → ε → Prop) [∀ s e, Decidable (ok s e)] (next : σ → ε → Option σ) (s : σ) (e : ε) :
    Option σ :=
  if ok s e then next s e else none

/-- A sequence of events that the condition allows is a guarded run. -/
theorem exists_runGuarded {I : σ → Prop} (events : List ε) (hinit : I s)
    (hrun : (runEvents (nextWhere ok next) s events).any (P ·) := by decide +kernel) :
    ∃ s', ((ofNext I next).guarded ok).Reachable s' ∧ P s' :=
  Reachable.exists_run _ events (.init hinit)
    (fun _ _ _ _ _ => ite_none_right_eq_some.mp) hrun

end TransitionSystem

end RtThread.Lib
