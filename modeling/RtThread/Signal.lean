import RtThread.Lib.Transition
import Mathlib.Data.List.Nodup
import Mathlib.Logic.Function.Basic

/-!
# Pending signals and their info nodes

`signal.c`. Each section under `_thread_signal_lock` is one step, and so is the allocation between the two
sections of `rt_thread_kill`; the calls of all threads interleave in any order. A node is its
`si_signo`, the only part of a `siginfo_t` in which two of them differ.
-/

namespace RtThread.Signal

open Lib TransitionSystem Function

/-- The numbers that `sig_valid` accepts. -/
abbrev Sig := Fin 32

/-- `sig_pending`, `sig_mask` and `si_list` of a thread. -/
structure Signals where
  sigPending : BitVec 32
  sigMask : BitVec 32
  siList : List Sig

/-- No two nodes have one number, and the bits set are the numbers of the nodes. -/
structure Signals.Matched (x : Signals) : Prop where
  nodup : x.siList.Nodup
  pending : ∀ sig : Sig, x.sigPending[sig.val] ↔ sig ∈ x.siList

/-- The threads. `waiting` is the set of a `rt_signal_wait` that has set `RT_THREAD_STAT_SIGNAL_WAIT`.
`kill` is the target and the signal of a `rt_thread_kill` past its check, `allocated` whether it has its
node. -/
structure State (T : Type*) where
  thread : T → Signals
  waiting : T → Option (BitVec 32)
  kill : T → Option (T × Sig)
  allocated : T → Bool

/-- The steps of `rt_thread_kill` by `self`, the sections of `rt_signal_wait`, and one turn of
`rt_thread_handle_sig`. -/
inductive Event (T : Type*) where
  | check (self tid : T) (sig : Sig)
  | alloc (self : T) (success : Bool)
  | insert (self : T)
  | wait (tid : T) (set : BitVec 32) (timeout : Int)
  | resumed (tid : T) (timedOut : Bool)
  | handle (tid : T)

namespace State

variable {T : Type*} [DecidableEq T] {s s' : State T} {self tid : T} {x : Signals} {sig : Sig}

/-- A thread's signals change. -/
def setThread (s : State T) (tid : T) (x : Signals) : State T :=
  { s with thread := Function.update s.thread tid x }

/-- A caller goes on in `rt_thread_kill`, or returns. -/
def setKill (s : State T) (self : T) (call : Option (T × Sig)) : State T :=
  { s with kill := Function.update s.kill self call, allocated := Function.update s.allocated self false }

/-- The first node with a number of the set is unlinked, and its bit cleared. -/
def unlink (s : State T) (tid : T) (set : BitVec 32) : State T :=
  let x := s.thread tid
  match x.siList.find? fun signo : Sig => set[signo.val] with
  | some signo => s.setThread tid
      { x with siList := x.siList.erase signo, sigPending := x.sigPending &&& ~~~.twoPow 32 signo }
  | none => s

/-- The effect of a step. -/
def next (s : State T) : Event T → Option (State T)
  | .check self tid sig =>
    if s.kill self ≠ none then none
    else if (s.thread tid).sigPending[sig.val] ∧ sig ∈ (s.thread tid).siList then some s
    else some (s.setKill self (some (tid, sig)))
  | .alloc self success =>
    if s.kill self = none ∨ s.allocated self then none
    else if success then some { s with allocated := Function.update s.allocated self true }
    else some (s.setKill self none)
  | .insert self =>
    if s.allocated self then (s.kill self).map fun (tid, sig) =>
      let x := s.thread tid
      (s.setKill self none).setThread tid
        { x with siList := x.siList ++ [sig], sigPending := x.sigPending ||| .twoPow 32 sig }
    else none
  | .wait tid set timeout =>
    if s.waiting tid ≠ none then none
    else if set = 0 then some s
    else if (s.thread tid).sigPending &&& set ≠ 0 then some (s.unlink tid set)
    else if timeout = 0 then some s
    else some { s with waiting := Function.update s.waiting tid (some set) }
  | .resumed tid timedOut => (s.waiting tid).map fun set =>
    let s := { s with waiting := Function.update s.waiting tid none }
    if timedOut then s else s.unlink tid set
  | .handle tid =>
    if (s.thread tid).sigPending &&& (s.thread tid).sigMask ≠ 0 ∧ s.waiting tid = none then
      some (s.unlink tid (.allOnes 32))
    else none

/-- `_thread_init`: no signal is pending. -/
def Init (s : State T) : Prop :=
  ∀ t, (s.thread t).sigPending = 0 ∧ (s.thread t).siList = [] ∧ s.waiting t = none ∧ s.kill t = none

/-- The steps of all threads in any order. -/
def system (T : Type*) [DecidableEq T] : TransitionSystem (State T) (Event T) := ofNext Init next

/-- No signal is checked for while a kill of it is between its check and its insertion. -/
def Alone (s : State T) : Event T → Prop
  | .check _ tid sig => ∀ other, s.kill other ≠ some (tid, sig)
  | _ => True

/-- The bits match, and a kill that is underway is the only one of a signal that has no node. -/
structure Sound (s : State T) : Prop where
  matched : ∀ t, (s.thread t).Matched
  fresh : ∀ {self tid sig}, s.kill self = some (tid, sig) → sig ∉ (s.thread tid).siList
  alone : ∀ {self other call}, s.kill self = some call → s.kill other = some call → other = self

/-- A thread gets no node of a signal that is underway. -/
theorem Sound.setThread (h : s.Sound) (hx : x.Matched)
    (hnew : ∀ sig ∈ x.siList, sig ∈ (s.thread tid).siList ∨ ∀ other, s.kill other ≠ some (tid, sig)) :
    (s.setThread tid x).Sound := by
  refine ⟨?_, fun {self t sig} hself => ?_, h.alone⟩
  · exact (forall_update_iff _ fun _ => Signals.Matched).mpr ⟨hx, fun t _ => h.matched t⟩
  · rcases eq_or_ne t tid with rfl | ht
    · simp only [State.setThread, update_self]
      exact fun hmem => (hnew sig hmem).elim (h.fresh hself) fun hnone => hnone self hself
    · simp only [State.setThread, update_of_ne ht]
      exact h.fresh hself

/-- A node goes, and its bit with it. -/
theorem Sound.unlink (h : s.Sound) (set : BitVec 32) : (s.unlink tid set).Sound := by
  unfold State.unlink
  dsimp only
  split
  · have hx := h.matched tid
    refine h.setThread ⟨hx.nodup.erase _, fun sig => ?_⟩ fun sig hsig => .inl (List.mem_of_mem_erase hsig)
    simp [hx.nodup.mem_erase_iff, hx.pending, ← Fin.ext_iff, and_comm]
  · exact h

/-- A caller returns, or kills by a signal that is neither pending nor underway. -/
theorem Sound.setKill (h : s.Sound) {call : Option (T × Sig)} (hnew : ∀ tid sig, call = some (tid, sig) →
      sig ∉ (s.thread tid).siList ∧ ∀ other, s.kill other ≠ some (tid, sig)) :
    (s.setKill self call).Sound := by
  have hcases {t c} (ht : (s.setKill self call).kill t = some c) :
      t = self ∧ call = some c ∨ s.kill t = some c := by
    rcases eq_or_ne t self with rfl | hne
    · exact .inl ⟨rfl, by simpa [State.setKill] using ht⟩
    · exact .inr (by simpa [State.setKill, hne] using ht)
  refine ⟨h.matched, fun hkill => ?_, fun hkill hother => ?_⟩
  · exact (hcases hkill).elim (fun hcall => (hnew _ _ hcall.2).1) h.fresh
  · obtain ⟨rfl, hcall⟩ | hold := hcases hkill <;> obtain ⟨rfl, hcall'⟩ | hold' := hcases hother
    · rfl
    · exact absurd hold' ((hnew _ _ hcall).2 _)
    · exact absurd hold ((hnew _ _ hcall').2 _)
    · exact h.alone hold hold'

/-- An insertion ends the only kill of its signal. -/
theorem Sound.insert (h : s.Sound) (hkill : s.kill self = some (tid, sig)) :
    ((s.setKill self none).setThread tid { s.thread tid with
      siList := (s.thread tid).siList ++ [sig]
      sigPending := (s.thread tid).sigPending ||| .twoPow 32 sig }).Sound := by
  have hx := h.matched tid
  refine (h.setKill (by simp)).setThread ⟨?_, fun other => ?_⟩ fun other hother => ?_
  · exact List.nodup_append_comm.mp (hx.nodup.cons (h.fresh hkill))
  · simp [hx.pending, ← Fin.ext_iff]
  · refine (List.mem_append.mp hother).imp id fun hsig t ht => ?_
    cases List.mem_singleton.mp hsig
    rcases eq_or_ne t self with rfl | hne
    · simp [State.setKill] at ht
    · exact hne (h.alone hkill (by simpa [State.setKill, hne] using ht))

/-- A step keeps the bits and the nodes together. -/
theorem Sound.next {e : Event T} (h : s.Sound) (halone : s.Alone e) (hstep : s.next e = some s') :
    s'.Sound := by
  cases e <;> simp only [State.next] at hstep
  case check self tid sig =>
    split_ifs at hstep with hidle hfound <;> cases hstep
    · exact h
    · refine h.setKill fun _ _ hcall => ?_
      cases hcall
      exact ⟨fun hmem => hfound ⟨((h.matched tid).pending sig).mpr hmem, hmem⟩, halone⟩
  case alloc self success =>
    split_ifs at hstep <;> cases hstep
    · exact { h with }
    · exact h.setKill (by simp)
  case insert self =>
    split_ifs at hstep
    obtain ⟨⟨tid, sig⟩, hkill, rfl⟩ := Option.map_eq_some_iff.mp hstep
    exact h.insert hkill
  case wait tid set timeout =>
    split_ifs at hstep <;> cases hstep
    exacts [h, h.unlink set, h, { h with }]
  case resumed tid timedOut =>
    obtain ⟨set, -, rfl⟩ := Option.map_eq_some_iff.mp hstep
    have hcleared : Sound { s with waiting := Function.update s.waiting tid none } := { h with }
    split
    exacts [hcleared, hcleared.unlink set]
  case handle tid =>
    split_ifs at hstep
    cases hstep
    exact h.unlink _

/-- While no two kills of one signal overlap, its bit is set exactly when it has one node. -/
theorem pending_iff_one_node (h : ((system T).guarded Alone).Reachable s) (tid : T) (sig : Sig) :
    (s.thread tid).sigPending[sig.val] ↔ (s.thread tid).siList.count sig = 1 := by
  have hsound : s.Sound := by
    refine h.invariant (fun s hs => ⟨fun t => ⟨?_, fun sig => ?_⟩, fun ht => ?_, fun ht => ?_⟩)
      fun s e s' hs hstep => hs.next hstep.1 hstep.2
    · simp [(hs t).2.1]
    · simp [(hs t).1, (hs t).2.1]
    · cases (hs _).2.2.2.symm.trans ht
    · cases (hs _).2.2.2.symm.trans ht
  simp [(hsound.matched tid).pending, (hsound.matched tid).nodup.count]

/-- Threads without signals. -/
def booted : State (Fin 3) := ⟨fun _ => ⟨0, 0, []⟩, fun _ => none, fun _ => none, fun _ => false⟩

/-- Thread 1 kills thread 0 by signal 10. -/
theorem pending_iff_one_node_kill : ∃ s, ((system (Fin 3)).guarded Alone).Reachable s ∧
    (s.thread 0).siList = [10] ∧ ((s.thread 0).sigPending[10] ↔ (s.thread 0).siList.count 10 = 1) := by
  have hinit : ((system (Fin 3)).guarded Alone).Reachable booted := .init fun _ => ⟨rfl, rfl, rfl, rfl⟩
  have hcheck := hinit.step ⟨by simp [Alone, booted], show next _ (.check 1 0 10) = some _ from rfl⟩
  have halloc := hcheck.step ⟨by trivial, show next _ (.alloc 1 true) = some _ from rfl⟩
  have hinsert := halloc.step ⟨by trivial, show next _ (.insert 1) = some _ from rfl⟩
  exact ⟨_, hinsert, rfl, pending_iff_one_node hinsert 0 10⟩

/-- Threads 1 and 2 both find signal 10 not pending, and both append a node. -/
theorem pending_two_nodes : ∃ s, (system (Fin 3)).Reachable s ∧
    ¬((s.thread 0).sigPending[10] ↔ (s.thread 0).siList.count 10 = 1) :=
  Reachable.exists_run next [.check 1 0 10, .check 2 0 10, .alloc 1 true, .alloc 2 true, .insert 1, .insert 2]
    (.init (s := booted) fun _ => ⟨rfl, rfl, rfl, rfl⟩) (fun _ _ _ _ _ => id) (by decide)

end State

end RtThread.Signal
