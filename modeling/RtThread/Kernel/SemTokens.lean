import Mathlib.Data.Fin.VecNotation
import RtThread.Kernel.Wakeups

/-!
# The tokens of a semaphore

A take uses up one token and a release brings one. A take that is suspended gets its token when a
release wakes it, and it will return `RT_EOK` then; so the tokens are those in the value, those of the
takes that have returned and those of the threads that have been woken and have not gone on.

A release that finds a waiting thread does not raise the value. When the thread is just timing out
it cannot be woken any more, and the token is lost.
-/

namespace RtThread.Kernel

open Lib Function Option TransitionSystem

/-- What has been counted of a semaphore: its value at the beginning, the takes and the releases that
have returned `RT_EOK`. -/
structure SemTally where
  initial : ℕ
  returned : ℕ
  released : ℕ

/-- Count a take and a release that return `RT_EOK`. -/
def SemTally.count (n : SemTally) (take release : Bool) : SemTally :=
  { n with returned := n.returned + take.toNat, released := n.released + release.toNat }

namespace State

variable {T : Type*} [DecidableEq T] {k k' : State T} {t : T} {id : ℕ}
variable {n : SemTally} {other : ℕ}

/-- The events of takes and releases, with any timeouts. -/
def semEvent : KernelEvent T → Bool
  | .call (.semTake _ _) => true
  | .call (.semRelease _) => true
  | .isr (.semRelease _) => true
  | .proceed => true
  | e => backgroundEvent e

/-- A take of the semaphore returns `RT_EOK` in this event. -/
def semTakeReturns (id : ℕ) (k : State T) (ret : Option ℤ) : KernelEvent T → Bool
  | .call (.semTake other _) => other = id ∧ ret = some rtEok
  | .proceed => k.runner.any (k.pc · = .semWoken id) ∧ ret = some rtEok
  | _ => false

/-- A release of the semaphore returns `RT_EOK` in this event. -/
def semReleaseReturns (id : ℕ) (k : State T) : KernelEvent T → Bool
  | .call (.semRelease other) => other = id ∧ (k.rtSemRelease id).2 = rtEok
  | .isr (.semRelease other) => other = id ∧ (k.rtSemRelease id).2 = rtEok
  | _ => false

/-- The takes and releases of semaphores, with a tally of one semaphore. -/
def semSystem (T : Type*) [DecidableEq T] (id : ℕ) :
    TransitionSystem (State T × SemTally) (KernelEvent T) where
  init p := p.1.Booted ∧ p.2 = ⟨(p.1.sem id).value, 0, 0⟩
  step p e p' := semEvent e = true ∧ ∃ fuel ret, exec fuel p.1 e = some (p'.1, ret) ∧
    p'.2 = p.2.count (semTakeReturns id p.1 ret e) (semReleaseReturns id p.1 e)

/-- The tokens that are left, used up and granted are those that there were and those that were
brought. -/
def TokensConserved (id : ℕ) (p : State T × SemTally) : Prop :=
  ∃ granted, HasCount (p.1.Woken (· = .semWoken id)) granted ∧
    (p.1.sem id).value + (p.2.returned + granted) = p.2.initial + p.2.released

/-- The first waiting thread is not just timing out. -/
def FirstCanStop (k : State T) (head : ListHead) : Prop :=
  ∀ t ∈ (k.lists head).head?, k.ttmrSet t = true → k.timerActive t = true

/-- The semaphore that is released in this event. -/
def releasedSem : KernelEvent T → Option ℕ
  | .call (.semRelease id) => some id
  | .isr (.semRelease id) => some id
  | _ => none

/-- No release of the semaphore finds its first waiting thread just timing out. -/
def SemReleaseOk (id : ℕ) (k : State T) (e : KernelEvent T) : Prop :=
  releasedSem e = some id → k.FirstCanStop (.sem id)

/-- The threads are in calls of semaphores or in none. -/
structure SemCalls (k : State T) : Prop extends k.Placed where
  place : ∀ t, k.pc t = .idle ∨ ∃ id, k.pc t = .semWoken id

/-- A thread goes to another place. -/
theorem SemCalls.of_update {pc : Pc} (h : k.SemCalls) (hplaced : k'.Placed)
    (hpc : k'.pc = Function.update k.pc t pc) (hnew : pc = .idle ∨ ∃ id, pc = .semWoken id) :
    k'.SemCalls := by
  refine ⟨hplaced, fun u => ?_⟩
  rw [hpc, update_apply]
  split
  · exact hnew
  · exact h.place u

omit [DecidableEq T] in
/-- A step that changes neither the value of the semaphore nor the granted takes. -/
theorem TokensConserved.congr (h : TokensConserved id (k, n)) (hsem : (k'.sem id).value = (k.sem id).value)
    (hwoken : ∀ u, k'.Woken (· = .semWoken id) u ↔ k.Woken (· = .semWoken id) u) :
    TokensConserved id (k', n.count false false) := by
  obtain ⟨granted, hcount, htokens⟩ := h
  refine ⟨granted, hcount.congr hwoken, ?_⟩
  rw [hsem]
  exact htokens

section

variable (h : k.SemCalls) (htokens : TokensConserved id (k, n))
include h htokens

/-- A take grants a token or suspends the thread. -/
theorem rtSemTake_tokens {timeout : ℤ} {ret : Option ℤ} (hcaller : k.caller = some t)
    (heq : k.rtSemTake other timeout = some (k', ret)) :
    k'.SemCalls ∧ TokensConserved id (k', n.count (other = id ∧ ret = some rtEok) false) := by
  obtain ⟨hcur, hrunning, hidle⟩ := caller_eq hcaller
  unfold rtSemTake semTake at heq
  rw [hcur] at heq
  dsimp only at heq
  split at heq
  next hpos =>
    obtain ⟨rfl, rfl⟩ : _ = k' ∧ _ = ret := Prod.mk.inj (some.inj heq)
    refine ⟨⟨h.toPlaced.congr rfl rfl, h.place⟩, ?_⟩
    obtain ⟨granted, hcount, hsum⟩ := htokens
    refine ⟨granted, hcount, ?_⟩
    by_cases hid : other = id
    · subst hid
      simp only [setSem, update_self, SemTally.count]
      simp only [true_and, decide_true, Bool.toNat_true, Bool.toNat_false]
      dsimp only at hsum
      omega
    · simp only [setSem, update_of_ne (Ne.symm hid), SemTally.count, hid]
      exact hsum
  · split at heq
    · obtain ⟨rfl, rfl⟩ : _ = k' ∧ _ = ret := Prod.mk.inj (some.inj heq)
      refine ⟨h, ?_⟩
      have hret : ¬ (other = id ∧ some (-rtEtimeout) = some rtEok) := by simp [rtEtimeout, rtEok]
      rw [decide_eq_false hret]
      exact htokens.congr rfl fun _ => Iff.rfl
    · have hplaced : (k.setError t rtEintr).Placed := h.toPlaced.congr rfl rfl
      have hplaced' := hplaced.blockOn rfl rfl hrunning heq
      have hnot : ¬ k'.Woken (· = .semWoken id) t :=
        not_woken_blockOn hplaced.queue rfl hrunning heq
      have hothers : ∀ u, u ≠ t → (k'.Woken (· = .semWoken id) u ↔
          (k.setError t rtEintr).Woken (· = .semWoken id) u) :=
        fun u hu => woken_blockOn_of_ne hplaced.queue rfl heq hu
      obtain ⟨-, -, hcode⟩ | ⟨s, -, -, -, rfl, rfl⟩ := blockOn_cases hplaced.queue rfl heq
      · exact absurd hrunning hcode
      · refine ⟨h.of_update hplaced' rfl (.inr ⟨other, rfl⟩), ?_⟩
        have hret : ¬ (other = id ∧ (none : Option ℤ) = some rtEok) := by simp
        rw [decide_eq_false hret]
        refine htokens.congr rfl fun u => ?_
        by_cases hu : u = t
        · subst hu
          exact iff_of_false hnot fun hwoken => nomatch hidle.symm.trans hwoken.1
        · rw [hothers u hu]
          exact woken_congr rfl rfl (update_of_ne hu ..)

/-- A take that was suspended returns. -/
theorem semTakeWoken_tokens (hrunning : (k.stat t).code = .running) (hpc : k.pc t = .semWoken other) :
    (k.semTakeWoken t).1.SemCalls ∧ TokensConserved id ((k.semTakeWoken t).1,
      n.count (other = id ∧ (k.semTakeWoken t).2 = some rtEok) false) := by
  obtain ⟨hsusp, hfresh⟩ := view_of_running hrunning
  have hret : (k.semTakeWoken t).2 = some rtEok ↔ k.error t = rtEok := by
    unfold semTakeWoken rtEok
    rw [some.injEq]
    split
    · split <;> omega
    · omega
  have hcalls : (k.semTakeWoken t).1.SemCalls :=
    h.of_update (h.toPlaced.setPc hsusp hfresh .idle) rfl (.inl rfl)
  have hafter : ¬ (k.semTakeWoken t).1.Woken (· = .semWoken id) t := by
    rintro ⟨hplace, -⟩
    simp [semTakeWoken, setPc] at hplace
  have hothers : ∀ u, u ≠ t → ((k.semTakeWoken t).1.Woken (· = .semWoken id) u ↔
      k.Woken (· = .semWoken id) u) := fun u hu => woken_setPc_of_ne .idle hu
  refine ⟨hcalls, ?_⟩
  by_cases hwoken : k.Woken (· = .semWoken id) t
  · obtain ⟨granted, hcount, hsum⟩ := htokens
    obtain ⟨left, rfl, hleft⟩ := hcount.lose hwoken hafter hothers
    have hid : other = id := by simpa [hpc] using hwoken.1
    refine ⟨left, hleft, ?_⟩
    rw [decide_eq_true ⟨hid, hret.mpr hwoken.2.2⟩]
    change (k.sem id).value + (n.returned + 1 + left) = n.initial + n.released
    dsimp only at hsum
    omega
  · have hnone : ¬ (other = id ∧ (k.semTakeWoken t).2 = some rtEok) := by
      rintro ⟨rfl, heok⟩
      exact hwoken ⟨hpc, hsusp, hret.mp heok⟩
    rw [decide_eq_false hnone]
    refine htokens.congr rfl fun u => ?_
    by_cases hu : u = t
    · rw [hu]
      exact iff_of_false hafter hwoken
    · exact hothers u hu

/-- A release brings a token, unless it finds the first waiting thread just timing out. -/
theorem rtSemRelease_tokens (hok : other = id → k.FirstCanStop (.sem id)) :
    (k.rtSemRelease other).1.SemCalls ∧ TokensConserved id ((k.rtSemRelease other).1,
      n.count false (other = id ∧ (k.rtSemRelease id).2 = rtEok)) := by
  by_cases hempty : k.lists (.sem other) = []
  · have hwake : ¬ k.lists (.sem other) ≠ [] := not_not.mpr hempty
    by_cases hroom : (k.sem other).value < (k.sem other).maxValue
    · have hrel : k.rtSemRelease other =
          (k.setSem other { k.sem other with value := (k.sem other).value + 1 }, rtEok) := by
        simp only [rtSemRelease, if_neg hwake, if_pos hroom]
      rw [hrel]
      refine ⟨⟨h.toPlaced.congr rfl rfl, h.place⟩, ?_⟩
      by_cases hid : other = id
      · subst hid
        obtain ⟨granted, hcount, hsum⟩ := htokens
        refine ⟨granted, hcount, ?_⟩
        rw [hrel, decide_eq_true ⟨rfl, rfl⟩]
        simp only [setSem, update_self, SemTally.count, Bool.toNat_true, Bool.toNat_false]
        dsimp only at hsum
        omega
      · rw [decide_eq_false fun hboth => hid hboth.1]
        refine htokens.congr ?_ fun _ => Iff.rfl
        simp only [setSem, update_of_ne (Ne.symm hid)]
    · have hrel : k.rtSemRelease other = (k, -rtEfull) := by
        simp only [rtSemRelease, if_neg hwake, if_neg hroom]
      have hnone : ¬ (other = id ∧ (k.rtSemRelease id).2 = rtEok) := by
        rintro ⟨rfl, heok⟩
        rw [hrel] at heok
        simp [rtEfull, rtEok] at heok
      rw [decide_eq_false hnone, hrel]
      exact ⟨h, htokens.congr rfl fun _ => Iff.rfl⟩
  · have hrel : k.rtSemRelease other = (k.wakeFirst (.sem other), rtEok) := by
      simp only [rtSemRelease, if_pos hempty]
    have hcalls : (k.wakeFirst (.sem other)).SemCalls :=
      ⟨h.toPlaced.wakeFirst rfl, by simpa using h.place⟩
    have hfirst : ∀ t, (k.lists (.sem other)).head? = some t → k.pc t = .semWoken other := by
      intro t ht
      have hwaits := h.waitsOn_of_head? rfl ht
      obtain hpc | ⟨id', hpc⟩ := h.place t <;> rw [hpc] at hwaits <;> cases hwaits
      exact hpc
    obtain ⟨granted, hcount, hsum⟩ := htokens
    rw [hrel]
    refine ⟨hcalls, ?_⟩
    obtain ⟨hcount', t, ht, -, hplace⟩ | ⟨hcount', hfail⟩ :=
      hasCount_wakeFirst h.toPlaced (show (ListHead.sem other).isWait from rfl) hcount
    · have hid : other = id := by simpa [hfirst t ht] using hplace
      subst hid
      refine ⟨granted + 1, hcount', ?_⟩
      rw [decide_eq_true ⟨rfl, congrArg Prod.snd hrel⟩]
      simp only [wakeFirst_sem, SemTally.count, Bool.toNat_true, Bool.toNat_false]
      dsimp only at hsum
      omega
    · have hid : other ≠ id := by
        rintro rfl
        obtain ⟨t, rest, hlist⟩ := List.exists_cons_of_ne_nil hempty
        have ht : (k.lists (.sem other)).head? = some t := by rw [hlist]; rfl
        rcases hfail t ht with hstop | hplace
        · have hactive := hok rfl t ht
          simp only [Waits.canStop, Bool.or_eq_false_iff, Bool.not_eq_false'] at hstop
          exact absurd ((hactive hstop.1).symm.trans hstop.2) (by decide)
        · exact hplace (hfirst t ht)
      refine ⟨granted, hcount', ?_⟩
      rw [decide_eq_false fun hboth => hid hboth.1, wakeFirst_sem]
      exact hsum

/-- One event keeps the tokens. -/
theorem exec_tokens {fuel : ℕ} {e : KernelEvent T} {ret : Option ℤ}
    (hevent : semEvent e = true) (hok : SemReleaseOk id k e)
    (heq : exec fuel k e = some (k', ret)) : k'.SemCalls ∧ TokensConserved id
      (k', n.count (semTakeReturns id k ret e) (semReleaseReturns id k e)) := by
  have hbackground : backgroundEvent e = true → semTakeReturns id k ret e = false →
      semReleaseReturns id k e = false → k'.SemCalls ∧ TokensConserved id
        (k', n.count (semTakeReturns id k ret e) (semReleaseReturns id k e)) := by
    intro hback htake hrelease
    have hstep := exec_background h.queue hback heq
    rw [htake, hrelease]
    have hsame : k'.sem = k.sem ∧ k'.pc = k.pc := by cases hstep <;> exact ⟨rfl, rfl⟩
    refine ⟨⟨h.toPlaced.background hstep, by rw [hsame.2]; exact h.place⟩, ?_⟩
    exact htokens.congr (by rw [hsame.1]) (woken_background h.toPlaced (by simp) hstep)
  cases e with
  | call c =>
    obtain ⟨t, hcaller, hcall⟩ := exec_call heq
    cases c with
    | semTake other timeout => exact rtSemTake_tokens h htokens hcaller hcall
    | semRelease other =>
      cases hcall
      exact rtSemRelease_tokens h htokens fun hid => hok (congrArg some hid)
    | _ => exact hbackground hevent rfl rfl
  | isr c =>
    cases c with
    | semRelease other =>
      obtain rfl : _ = k' := some.inj (exec_isr heq).1
      exact rtSemRelease_tokens h htokens fun hid => hok (congrArg some hid)
    | _ => exact hbackground hevent rfl rfl
  | proceed =>
    obtain ⟨t, hrunner, hgo⟩ := exec_proceed heq
    obtain ⟨-, hrunning⟩ := runner_eq hrunner
    unfold proceed at hgo
    obtain hpc | ⟨other, hpc⟩ := h.place t
    all_goals rw [hpc] at hgo
    · cases hgo
    · have hreturns : semTakeReturns id k ret .proceed = decide (other = id ∧ ret = some rtEok) := by
        simp [semTakeReturns, hrunner, hpc]
      have hstep := semTakeWoken_tokens h htokens hrunning hpc
      rw [some.inj hgo] at hstep
      rw [hreturns]
      exact hstep
  | _ => exact hbackground hevent rfl rfl

end

/-- The tokens of a semaphore are conserved in every run in which no release of it finds its first
waiting thread just timing out. -/
theorem semTokens_conserved {p : State T × SemTally}
    (h : ((semSystem T id).guarded fun p e => SemReleaseOk id p.1 e).Reachable p) :
    TokensConserved id p := by
  have hinv : p.1.SemCalls ∧ TokensConserved id p := by
    apply h.invariant
    · rintro ⟨k, n⟩ ⟨hboot, hn⟩
      obtain rfl : n = ⟨(k.sem id).value, 0, 0⟩ := hn
      refine ⟨⟨hboot.placed, fun t => .inl (hboot.pc t)⟩, 0, ?_, rfl⟩
      exact HasCount.of_forall_not fun t hwoken => nomatch (hboot.pc t).symm.trans hwoken.1
    · rintro ⟨k, n⟩ e ⟨k', n'⟩ ⟨hcalls, htokens⟩ ⟨hok, hevent, fuel, ret, heq, hn⟩
      obtain rfl : n' = _ := hn
      exact exec_tokens hcalls htokens hevent hok heq
  exact hinv.2

/-- Whether a first thread can be woken can be evaluated. -/
instance (k : State T) (head : ListHead) : Decidable (k.FirstCanStop head) :=
  inferInstanceAs (Decidable (∀ t ∈ (k.lists head).head?, k.ttmrSet t = true → k.timerActive t = true))

/-- Whether a release meets the condition can be evaluated. -/
instance (id : ℕ) (k : State T) (e : KernelEvent T) : Decidable (SemReleaseOk id k e) :=
  inferInstanceAs (Decidable (releasedSem e = some id → k.FirstCanStop (.sem id)))

/-- An event with its tally, as a function to the next state, when it meets a condition. -/
def semNextWhen (ok : State T → KernelEvent T → Prop) [∀ k e, Decidable (ok k e)] (id fuel : ℕ)
    (p : State T × SemTally) (e : KernelEvent T) : Option (State T × SemTally) :=
  if ok p.1 e ∧ semEvent e then
    (exec fuel p.1 e).map fun r =>
      (r.1, p.2.count (semTakeReturns id p.1 r.2 e) (semReleaseReturns id p.1 e))
  else none

/-- A computed step is a step of the guarded system. -/
theorem guarded_step_of_semNextWhen {ok : State T → KernelEvent T → Prop}
    [∀ k e, Decidable (ok k e)] {fuel : ℕ} {p p' : State T × SemTally} {e : KernelEvent T}
    (h : semNextWhen ok id fuel p e = some p') :
    ((semSystem T id).guarded fun p e => ok p.1 e).step p e p' := by
  obtain ⟨hok, h⟩ := ite_none_right_eq_some.mp h
  obtain ⟨⟨k, ret⟩, heq, rfl⟩ := map_eq_some_iff.mp h
  exact ⟨hok.1, hok.2, fuel, ret, heq, rfl⟩

/-- A take is suspended, gets its token from a release and returns. -/
theorem semTokens_conserved_wake : ∃ p : State (Fin 2) × SemTally,
    ((semSystem (Fin 2) 0).guarded fun p e => SemReleaseOk 0 p.1 e).Reachable p ∧
    TokensConserved 0 p ∧ p.2 = ⟨0, 1, 1⟩ := by
  obtain ⟨⟨k, n⟩, hreach, hinitial, hreturned, hreleased⟩ := Reachable.exists_run
    (M := (semSystem (Fin 2) 0).guarded fun p e => SemReleaseOk 0 p.1 e)
    (P := fun p => p.2.initial = 0 ∧ p.2.returned = 1 ∧ p.2.released = 1)
    (semNextWhen (SemReleaseOk 0) 0 0) [.isr (.startup 0), .schedulerStart, .call (.startup 1),
      .call (.semTake 0 7), .call (.semRelease 0), .proceed]
    (.init (s := (boot 32 ![20, 10] fun _ => 10, ⟨0, 0, 0⟩))
      ⟨booted_boot, rfl⟩) (fun _ _ _ _ _ => guarded_step_of_semNextWhen)
  refine ⟨(k, n), hreach, semTokens_conserved hreach, ?_⟩
  cases n
  subst hinitial hreturned hreleased
  rfl

/-- A lost token. Thread 1 waits for a token and its timer is due; an interrupt releases the semaphore
before the thread times out. The release returns `RT_EOK`, the take `-RT_ETIMEOUT`, and the value stays
0. -/
theorem semTokens_lost : ∃ p : State (Fin 2) × SemTally, (semSystem (Fin 2) 0).Reachable p ∧
    ¬ TokensConserved 0 p := by
  obtain ⟨p, hreach, hvalue, hinitial, hreturned, hreleased, hpc⟩ :=
    Reachable.exists_run (M := semSystem (Fin 2) 0)
      (P := fun p => (p.1.sem 0).value = 0 ∧ p.2.initial = 0 ∧ p.2.returned = 0 ∧ p.2.released = 1 ∧
        ∀ t, p.1.pc t = .idle) (semNextWhen (fun _ _ => True) 0 0)
      [.isr (.startup 0), .schedulerStart, .call (.startup 1), .call (.semTake 0 7), .timerDue 1,
        .isr (.semRelease 0), .timeout 1, .proceed]
      (.init (s := (boot 32 ![20, 10] fun _ => 10, ⟨0, 0, 0⟩))
        ⟨booted_boot, rfl⟩)
      (fun _ _ _ _ _ h => (guarded_step_of_semNextWhen h).2)
  refine ⟨p, hreach, ?_⟩
  rintro ⟨granted, hcount, hsum⟩
  have hnone : HasCount (p.1.Woken (· = .semWoken 0)) 0 := by
    refine HasCount.of_forall_not fun t hwoken => ?_
    cases (hpc t).symm.trans hwoken.1
  rw [hcount.unique hnone, hvalue, hreturned, hreleased] at hsum
  cases hsum

end State

end RtThread.Kernel
