import RtThread.Kernel.Holds
import RtThread.Kernel.Preemption

/-!
# Closed threads and mutexes

`_thread_exit` gives no mutex back. `_thread_detach` calls `rt_mutex_release` once for each mutex that
the thread holds, and that call acts for the thread that makes it. So a thread keeps its mutexes when
it returns from its entry, when it is detached by another thread, and when it detaches itself while it
holds a mutex more than once. In all other cases a closed thread owns nothing.
-/

namespace RtThread.Kernel.State

open Lib Function Option Sched TransitionSystem

variable {T : Type*} [DecidableEq T] {k k' : State T} {t : T} {ret : Option ℤ}
variable {fuel n : ℕ}

/-- Every owner has the mutex in its list and is not closed. -/
structure OwnersAlive (k : State T) : Prop where
  listed : k.holds.Listed
  alive : ∀ id t, k.holds.owner id = some t → (k.stat t).code ≠ .close

/-- When no thread is closed, ownership passes to threads that are not. -/
theorem OwnersAlive.passed (h : k.OwnersAlive) (hclosed : Sched.ClosesNone k.toSched k'.toSched)
    (hpass : Holds.Passed (fun u => (k.stat u).code ≠ .close) k.holds k'.holds) : k'.OwnersAlive := by
  refine ⟨h.listed.passed hpass, fun id u hu hclose => ?_⟩
  rcases hpass.owner hu with hsame | halive
  · exact h.alive id u hsame (hclosed u hclose)
  · exact halive (hclosed u hclose)

/-- Ownership passes to threads that are not closed, in every event but the end of a thread. -/
theorem exec_passed {e : KernelEvent T} (h : k.ReadyQueue)
    (hdetach : ∀ u, e ≠ .call (.detach u)) (heq : exec fuel k e = some (k', ret)) :
    Holds.Passed (fun u => (k.stat u).code ≠ .close) k.holds k'.holds := by
  have hquiet : .mutexes ∉ k.touches e →
      Holds.Passed (fun u => (k.stat u).code ≠ .close) k.holds k'.holds := by
    intro hno
    obtain ⟨hmutex, htaken, -⟩ := (exec_confined heq).mutexes hno
    rw [holds_congr hmutex htaken]
    exact .same
  have hsuspended : ∀ u, (k.seat u).suspended = true → (k.stat u).code ≠ .close := by
    intro u hsusp hclose
    have hcode : k.isSuspended u = true := hsusp
    simp [isSuspended, hclose] at hcode
  cases e with
  | call c =>
    obtain ⟨t, hcaller, hcall⟩ := exec_call heq
    have hrunner := runner_of_caller hcaller
    obtain ⟨hcur, hrunning⟩ := runner_eq hrunner
    cases c with
    | mutexTake id timeout =>
      exact (rtMutexTake_takeStep h hrunner hcall).passed (by simp [hrunning])
    | mutexRelease id =>
      exact (rtMutexRelease_releaseStep h hcur (view_of_running hrunning).1 hcall).passed hsuspended
    | mutexSetprioceiling id priority =>
      rw [(rtMutexSetprioceiling_mutexMove h hcall).holds]
      exact .same
    | detach u => exact absurd rfl (hdetach u)
    | _ => exact hquiet (by simp [touches, callTouches])
  | proceed =>
    obtain ⟨t, hrunner, hgo⟩ := exec_proceed heq
    unfold proceed at hgo
    generalize hpc : k.pc t = pc at hgo
    cases pc with
    | idle => cases hgo
    | resched | mutexResched | mutexClear =>
      cases hgo
      exact .same
    | mutexWoken id =>
      rw [(mutexTakeWoken_wokenStep h hgo).holds]
      exact .same
    | _ => exact hquiet (by simp [touches, hrunner, hpc, Pc.object])
  | isr c => exact hquiet (by cases c <;> simp [touches, isrTouches])
  | _ => exact hquiet (by simp [touches])

/-! ## The mutexes of a thread that is being closed -/

/-- A thread is being closed: it owns mutexes that are still to be released, each taken once. -/
structure Dying (t : T) (ids : List ℕ) (k : State T) : Prop where
  listed : k.holds.Listed
  alive : ∀ id u, k.holds.owner id = some u → u ≠ t → (k.stat u).code ≠ .close
  mine : ∀ id, k.holds.owner id = some t → id ∈ ids ∧ k.holds.hold id = 1

/-- One release by a thread that is closing itself. -/
theorem Dying.mutexReleaseNested {id : ℕ} {ids : List ℕ} (h : Dying t (id :: ids) k)
    (hsound : Sound (n + 1) (some t) k) (hcur : k.current = some t)
    (heq : k.mutexReleaseNested id = some k') : Dying t ids k' := by
  have hrelease : Locked [.mutexes] none none k k' := mutexReleaseNested_locked (.head _) heq
  have hclosed : Sched.ClosesNone k.toSched k'.toSched :=
    fun u hu => hrelease.frame.confined.closed u (by simp) hu
  obtain ⟨⟨k1, ret⟩, hk1, heq⟩ := map_eq_some_iff.mp heq
  have hnot : (k.seat t).suspended = false := by
    change k.isSuspended t = false
    simp [isSuspended, (hsound.closing t rfl).1]
  have hstep := rtMutexRelease_releaseStep hsound.queue hcur hnot hk1
  have hpass := hstep.passed (p := fun u => u ≠ t ∧ (k.stat u).code ≠ .close) (by
    intro u hsusp
    constructor
    · rintro rfl
      rw [hsusp] at hnot
      cases hnot
    · intro hclose
      have hcode : k.isSuspended u = true := hsusp
      simp [isSuspended, hclose] at hcode)
  have hholds : k'.holds = k1.holds := by
    rw [hcur] at heq
    obtain rfl := heq
    rfl
  rw [← hholds] at hpass
  have hrest : ∀ id', k'.holds.owner id' = some t → id' ≠ id ∧ k'.holds.hold id' = k.holds.hold id' := by
    intro id' hid'
    rw [hholds] at hid' ⊢
    cases hstep with
    | refused hother _ _ hmove =>
      rw [hmove.holds] at hid' ⊢
      refine ⟨?_, rfl⟩
      rintro rfl
      exact hother hid'
    | drop hmine hmore hmove =>
      have hone := (h.mine id hmine).2
      rw [hone] at hmore
      exact absurd rfl hmore
    | free hmine hlast hret hmove =>
      rw [hmove.holds] at hid' ⊢
      have hne : id' ≠ id := by
        rintro rfl
        simp [Holds.free] at hid'
      exact ⟨hne, update_of_ne hne ..⟩
    | hand hmine hlast hfrom hsusp hnext hmove =>
      rw [hmove.holds] at hid' ⊢
      have hne : id' ≠ id := by
        rintro rfl
        simp only [Holds.own, update_self, some.injEq] at hid'
        exact hnext hid'
      simp [Holds.own, Holds.free, hne]
  refine ⟨h.listed.passed hpass, ?_, ?_⟩
  · intro id' u hu hut hclose
    rcases hpass.owner hu with hsame | ⟨-, halive⟩
    · exact h.alive id' u hsame hut (hclosed u hclose)
    · exact halive (hclosed u hclose)
  · intro id' hid'
    obtain ⟨hne, hhold⟩ := hrest id' hid'
    obtain ⟨hmem, hone⟩ := h.mine id' ((hpass.owner hid').resolve_right fun hother => hother.1 rfl)
    exact ⟨(List.mem_cons.mp hmem).resolve_left hne, hhold.trans hone⟩

/-- The release of all mutexes of a thread that is closing itself. -/
theorem Dying.releaseTaken {ids : List ℕ} (h : Dying t ids k)
    (hsound : Sound (n + 1) (some t) k) (hcur : ids ≠ [] → k.current = some t)
    (heq : State.releaseTaken ids k = some k') : Dying t [] k' := by
  induction ids generalizing k with
  | nil =>
    cases heq
    exact h
  | cons id ids ih =>
    obtain ⟨k1, hk1, heq⟩ := bind_eq_some_iff.mp heq
    have hcur := hcur (by simp)
    have hrelease : Locked [.mutexes] none (some t) k k1 := mutexReleaseNested_locked (.head _) hk1
    obtain ⟨hsound1, hcur1⟩ := hrelease.sound hsound
    exact ih (h.mutexReleaseNested hsound hcur hk1) hsound1 (fun _ => hcur1.trans hcur) heq

/-- Passing priorities on leaves the owners. -/
theorem passesOn_holds : PassesOn (T := T) (fun _ => True) fun k k' => k'.holds = k.holds where
  keeps _ := trivial
  refl _ := rfl
  trans h h' := h'.trans h
  setMutex _ id priority := by
    rw [holds_setMutex]
    exact congr (congrArg₂ Holds.mk (update_eq_self ..) (update_eq_self ..)) rfl
  requeue _ _ _ := rfl
  changePriority _ _ heq := by
    obtain ⟨s, -, rfl⟩ := map_eq_some_iff.mp heq
    rfl

/-- `rt_mutex_drop_thread` leaves the owners. -/
theorem rtMutexDropThread_holds {id : ℕ} (heq : rtMutexDropThread fuel k id t = some k') :
    k'.holds = k.holds := by
  unfold rtMutexDropThread at heq
  split_ifs at heq
  obtain ⟨k1, hk1, rfl⟩ := map_eq_some_iff.mp heq
  have hgive := passesOn_holds.giveUp trivial hk1
  exact hgive

theorem Dying.threadDetachFromMutex (h : Dying t (k.takenObjectList t) k)
    (hsound : Sound (n + 1) (some t) k) (hcur : k.takenObjectList t ≠ [] → k.current = some t)
    (heq : State.threadDetachFromMutex fuel k t = some k') : Dying t [] k' := by
  obtain ⟨k1, hk1, heq⟩ := bind_eq_some_iff.mp heq
  split at hk1
  · obtain ⟨k2, hk2, rfl⟩ := map_eq_some_iff.mp hk1
    have hdrop : Locked [.mutexes] none (some t) k k2 := rtMutexDropThread_locked (.head _) hk2
    obtain ⟨hsound2, hcur2⟩ := hdrop.sound hsound
    have hclosed : Sched.ClosesNone k.toSched k2.toSched :=
      fun u hu => hdrop.frame.confined.closed u (by simp) hu
    have hholds : k2.holds = k.holds := rtMutexDropThread_holds hk2
    have htaken : k2.takenObjectList = k.takenObjectList := congrArg Holds.taken hholds
    have hdying : Dying t (k2.takenObjectList t) (k2.setPendingObject t none) := by
      have hsame : (k2.setPendingObject t none).holds = k.holds := hholds
      refine ⟨hsame ▸ h.listed, ?_, ?_⟩
      · rw [hsame]
        exact fun id u hu hut hclose => h.alive id u hu hut (hclosed u hclose)
      · rw [hsame, htaken]
        exact h.mine
    refine hdying.releaseTaken (hsound2.congr rfl rfl) ?_ heq
    rw [htaken]
    exact fun hne => hcur2.trans (hcur hne)
  · cases hk1
    exact h.releaseTaken hsound hcur heq

/-! ## Runs -/

/-- A thread ends without mutexes; one that detaches itself may hold mutexes, each once. -/
def CloseOk (k : State T) : KernelEvent T → Prop
  | .call .exit => ∀ t ∈ k.current, k.takenObjectList t = []
  | .call (.detach t) =>
    if k.current = some t then ∀ id ∈ k.takenObjectList t, (k.mutex id).hold = 1
    else k.takenObjectList t = []
  | _ => True

/-- `_thread_exit` of a thread without mutexes. -/
theorem OwnersAlive.threadExit (h : k.OwnersAlive)
    (hok : CloseOk k (.call .exit)) (heq : exec fuel k (.call .exit) = some (k', ret)) :
    k'.OwnersAlive := by
  have hconf := exec_confined heq
  obtain ⟨hmutex, htaken, -⟩ := hconf.mutexes (by simp [touches, callTouches])
  have hholds : k'.holds = k.holds := holds_congr hmutex htaken
  refine ⟨hholds ▸ h.listed, fun id u hu hclose => ?_⟩
  rw [hholds] at hu
  by_cases hcur : k.current = some u
  · have hmem : id ∈ k.takenObjectList u := h.listed id u hu
    rw [hok u hcur] at hmem
    cases hmem
  · refine h.alive id u hu (hconf.closed u ?_ hclose)
    simpa [touches, callTouches] using hcur

theorem OwnersAlive.threadDetach (h : k.OwnersAlive) (hsound : Sound 0 none k)
    (hok : CloseOk k (.call (.detach t))) (heq : State.threadDetach fuel k t = some (k', ret)) :
    k'.OwnersAlive := by
  have htame : Tame [.mutexes, .thread t] none True k k' := threadDetach_tame heq
  have hsched := hsound.rtEnterCritical.threadDetachSched t
  have hclosed : Sched.Frame (· = t) (k.onSched (·.rtEnterCritical)).toSched _ :=
    frame_threadDetachSched _ rfl
  have hcurrent : ((k.onSched (·.rtEnterCritical)).threadDetachSched t).1.current = k.current := by
    unfold threadDetachSched
    split
    · rfl
    · split
      · rfl
      · rw [rtSchedRemoveThread_eq]
        rfl
  have hfalse : ((k.onSched (·.rtEnterCritical)).threadDetachSched t).2 = false →
      (k.stat t).code = .close := by
    unfold threadDetachSched
    split
    next hclose =>
      exact fun _ => hclose
    · exact fun htrue => by cases htrue
  unfold State.threadDetach at heq
  generalize (k.onSched (·.rtEnterCritical)).threadDetachSched t = r at heq hsched hclosed hcurrent hfalse
  dsimp only at heq
  split at heq
  next htrue =>
    rw [if_pos htrue] at hsched
    obtain ⟨k1, hk1, ⟨⟩⟩ := map_eq_some_iff.mp heq
    have hdying : Dying t (k.takenObjectList t) { k with toSched := r.1 } := by
      refine ⟨h.listed, fun id u hu hut hclose => ?_, fun id hid => ?_⟩
      · exact h.alive id u hu (hclosed.closes u hut hclose)
      · have hmem : id ∈ k.takenObjectList t := h.listed id t hid
        refine ⟨hmem, ?_⟩
        unfold CloseOk at hok
        dsimp only at hok
        split at hok
        · exact hok id hmem
        · rw [hok] at hmem
          cases hmem
    have hself : k.takenObjectList t ≠ [] → r.1.current = some t := by
      intro hne
      rw [hcurrent]
      unfold CloseOk at hok
      dsimp only at hok
      split at hok
      · assumption
      · exact absurd hok hne
    have hdead := hdying.threadDetachFromMutex hsched hself hk1
    refine ⟨hdead.listed, fun id u hu hclose => ?_⟩
    have hut : u ≠ t := by
      rintro rfl
      exact absurd (hdead.mine id hu).1 List.not_mem_nil
    have hexit : Sched.Frame (fun _ => False) (k1.rtThreadDefunctEnqueue t) _ :=
      frame_rtExitCritical _
    exact hdead.alive id u hu hut (hexit.closes u (fun hno => hno) hclose)
  next htrue =>
    cases heq
    refine ⟨h.listed, fun id u hu hclose => h.alive id u hu ?_⟩
    by_cases hut : u = t
    · rw [hut]
      exact hfalse (Bool.eq_false_of_not_eq_true htrue)
    · exact htame.frame.confined.closed u (by simp [hut]) hclose

/-- One event of a run in which threads end without mutexes. -/
theorem OwnersAlive.exec {e : KernelEvent T} (h : k.OwnersAlive) (hcalm : k.Calm False)
    (hok : CloseOk k e) (heq : exec fuel k e = some (k', ret)) : k'.OwnersAlive := by
  by_cases hexit : e = .call .exit
  · subst hexit
    exact h.threadExit hok heq
  by_cases hdetach : ∃ t, e = .call (.detach t)
  · obtain ⟨t, rfl⟩ := hdetach
    obtain ⟨caller, -, hcall⟩ := exec_call heq
    exact h.threadDetach hcalm.toSound hok hcall
  rw [not_exists] at hdetach
  refine h.passed (fun u hclose => (exec_confined heq).closed u ?_ hclose)
    (exec_passed hcalm.queue hdetach heq)
  cases e with
  | call c =>
    cases c with
    | exit => exact absurd rfl hexit
    | detach t => exact absurd rfl (hdetach t)
    | _ => simp [touches, callTouches]
  | proceed =>
    simp only [touches, List.mem_flatMap, not_exists, not_and]
    intro t _
    cases k.pc t <;> simp [Pc.object]
  | isr c => cases c <;> simp [touches, isrTouches]
  | _ => simp [touches]

/-- A closed thread owns no mutex and waits for none, in every state of a run in which threads end as
`CloseOk` says. -/
theorem closed_owns_nothing (h : ((system T).guarded CloseOk).Reachable k)
    (hclosed : (k.stat t).code = .close) (id : ℕ) :
    (k.mutex id).owner ≠ some t ∧ t ∉ k.lists (.mutex id) := by
  have hcalm := calm_of_reachable h.of_guarded
  have hinv : k.Calm False ∧ k.OwnersAlive := by
    apply h.invariant
    · intro k hk
      refine ⟨Booted.calm hk, fun id u hu => ?_, fun id u hu => ?_⟩ <;>
      · change (k.mutex id).owner = some u at hu
        rw [hk.mutex] at hu
        cases hu
    · rintro k e k' ⟨hcalm, halive⟩ ⟨hok, fuel, ret, heq⟩
      exact ⟨(exec_stepped heq).calm False.elim hcalm, halive.exec hcalm hok heq⟩
  refine ⟨fun howner => hinv.2.alive id t howner hclosed, fun hmem => ?_⟩
  have hsusp := (hcalm.queue.queue.wait t (.mutex id) rfl hmem).2
  simp [isSuspended, hclosed] at hsusp

/-- Whether a thread may end can be evaluated. -/
instance (k : State T) : (e : KernelEvent T) → Decidable (CloseOk k e)
  | .call .exit => inferInstanceAs (Decidable (∀ t ∈ k.current, k.takenObjectList t = []))
  | .call (.detach t) => inferInstanceAs (Decidable (if k.current = some t then _ else _))
  | .call (.startup _) | .call (.resume _) | .call .yield | .call (.changePriority _ _)
  | .call (.mutexTake _ _) | .call (.mutexRelease _) | .call (.mutexSetprioceiling _ _)
  | .call (.semTake _ _) | .call (.semRelease _) | .call (.semDetach _)
  | .call (.eventSend _ _) | .call (.eventRecv _ _ _ _) | .call (.eventDetach _) | .call (.eventReset _)
  | .call (.mbSend _ _ _) | .call (.mbUrgent _ _) | .call (.mbRecv _ _) | .call (.mbReset _)
  | .call (.mqSend _ _ _ _) | .call (.mqUrgent _ _) | .call (.mqRecv _ _ _) | .call (.mqReset _)
  | .proceed | .isr _ | .timerDue _ | .timeout _ | .tick | .schedulerStart | .dispatch _ => .isTrue trivial

/-- A thread takes a mutex and detaches itself. -/
theorem closed_owns_nothing_detach : ∃ k : State (Fin 2),
    ((system (Fin 2)).guarded CloseOk).Reachable k ∧ (k.stat 1).code = .close ∧
    k.takenObjectList 1 = [] ∧ (k.mutex 0).owner ≠ some 1 ∧ 1 ∉ k.lists (.mutex 0) :=
  Reachable.exists_and₂ (exists_run
    CloseOk 0 (boot 32 ![20, 10] fun _ => 10) [.isr (.startup 0), .schedulerStart,
      .call (.startup 1), .call (.mutexTake 0 7), .call (.detach 1)]
    booted_boot (fun _ _ _ hok h => ⟨hok, h⟩)) fun _ hreach hfact _ =>
    closed_owns_nothing hreach hfact 0

/-- A thread takes a mutex, and after some last events it is closed and owns the mutex. -/
def LeavesOwner (last : List (KernelEvent (Fin 2))) : Prop := ∃ k : State (Fin 2),
  (system (Fin 2)).Reachable k ∧
  TransitionSystem.runEvents (nextWhen (fun _ _ => True) 0) (boot 32 ![20, 10] fun _ => 10)
    ([.isr (.startup 0), .schedulerStart, .call (.startup 1), .call (.mutexTake 0 7)] ++ last) =
      some k ∧
  (k.stat 1).code = .close ∧ (k.mutex 0).owner = some 1

/-- What a run leaves can be evaluated. -/
theorem LeavesOwner.of_run {last : List (KernelEvent (Fin 2))}
    (h : (TransitionSystem.runEvents (nextWhen (fun _ _ => True) 0) (boot 32 ![20, 10] fun _ => 10)
      ([.isr (.startup 0), .schedulerStart, .call (.startup 1), .call (.mutexTake 0 7)] ++ last)).map
      (fun k => ((k.stat 1).code, (k.mutex 0).owner)) = some (.close, some 1)) : LeavesOwner last := by
  obtain ⟨k, hk, hfacts⟩ := map_eq_some_iff.mp h
  obtain ⟨hclosed, howner⟩ := Prod.mk.inj hfacts
  refine ⟨k, ?_, hk, hclosed, howner⟩
  exact Reachable.runEvents (.init booted_boot)
    (fun _ _ _ _ hstep => (guarded_step_of_nextWhen hstep).2) hk

/-- A closed thread that owns a mutex: it has taken the mutex and returned from its entry, or has taken
it twice and detached itself, or has been detached by another thread while it waited for a semaphore. -/
theorem dead_owner : LeavesOwner [.call .exit] ∧ LeavesOwner [.call (.mutexTake 0 7), .call (.detach 1)] ∧
    LeavesOwner [.call (.semTake 0 (-1)), .call (.detach 1)] :=
  ⟨.of_run (by decide +kernel), .of_run (by decide +kernel), .of_run (by decide +kernel)⟩

end RtThread.Kernel.State
