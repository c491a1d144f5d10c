import RtThread.Workqueue.Steps
import Mathlib.Data.Prod.Lex
import Mathlib.Data.List.Basic

/-!
# Accepted work runs

An accepted item waits: it is queued, or its timer has been started. It stays so until the worker
starts it or it is cancelled, unless its timer handler runs while it is executing; then the handler
drops it. On a fair run a waiting item reaches the work list by the steps of its timer, and its
turn by the steps of the worker, as long as it is not overtaken or submitted again for ever.
-/

namespace RtThread.Workqueue

open Lib TransitionSystem List State

variable {W T : Type*} [DecidableEq W]

/-- An item that is queued or whose timer has been started. -/
def Waiting (s : State W T) (w : W) : Prop := w ∈ s.workList ∨ (s.work w).timer ≠ .idle

/-- The worker takes the item to execute it. -/
def Starts (s : State W T) (e : Event W T) (w : W) : Prop :=
  e = .worker ∧ s.worker = .check ∧ s.workList.head? = some w

/-- A submission of the item that returns `RT_EOK`. -/
def Accepted (s : State W T) (e : Event W T) (w : W) : Prop :=
  (∃ ticks, e = .submit w ticks ∧ (s.workqueueSubmitWork w ticks).2 = .eok) ∨ e = .urgent w

/-- A call that puts a waiting item back: its own new submission, or an urgent one. -/
def Overtaken (s : State W T) (e : Event W T) (w : W) : Prop :=
  Waiting s w ∧ ((∃ ticks, e = .submit w ticks) ∨ ∃ v, e = .urgent v)

/-- The section under the lock of a timer handler does not run while its item is executing. -/
def HandledIdle (s : State W T) (e : Event W T) : Prop :=
  ∀ w, e = .timer w → (s.work w).timer = .entered → s.workCurrent ≠ some w

/-- A worker that is not suspended is scheduled, and work functions return; a timer that has been
started goes on, unless its item is cancelled or submitted again. -/
structure Fair [DecidableEq T] (r : (system W T).Run) : Prop where
  worker : ∀ n, (r.state n).worker ≠ .suspended → ∃ m, n ≤ m ∧ r.event m = .worker
  timer : ∀ n w, ((r.state n).work w).timer ≠ .idle →
    ∃ m, n ≤ m ∧ (r.event m = .timer w ∨ r.event m = .cancel w ∨ ∃ ticks, r.event m = .submit w ticks)

/-- What holds of the worker in every state: an item is current only while its function runs, and a
worker that sleeps has nothing to do. -/
structure Attended (s : State W T) : Prop where
  current : s.worker ≠ .running → s.workCurrent = none
  asleep : s.worker = .suspended → s.workList = []

/-- No thread is in a synchronous cancel. -/
def Quiet (s : State W T) : Prop := s.waiters = [] ∧ ∀ t, s.caller t = .idle

/-- The steps of its timer that an item has still to wait for. -/
def timerRank (s : State W T) (w : W) : ℕ :=
  match (s.work w).timer with
  | .idle => 0
  | .entered => 1
  | .expired => 2
  | .active => 3

/-- The steps of the worker before it looks at the work list again. -/
def workerRank (s : State W T) : ℕ :=
  match s.worker with
  | .check | .suspended => 0
  | .completing => if s.sem = 0 then 3 else 1
  | .releasing => 2
  | .running => 4

/-- The rank of a queued item: its timer may still move it to the end of the list. -/
def queueRank (s : State W T) (w : W) : ℕ ×ₗ ℕ :=
  toLex (timerRank s w, 5 * s.workList.idxOf w + workerRank s)

/-- Taking out another item does not move an item back. -/
theorem idxOf_erase_le {l : List W} {v w : W} (hvw : v ≠ w) : (l.erase v).idxOf w ≤ l.idxOf w := by
  induction l with
  | nil => exact le_refl _
  | cons u l ih =>
    by_cases huw : u = w
    · subst huw
      rw [erase_cons_tail (by simpa using hvw.symm)]
      simp
    · rw [idxOf_cons_ne _ huw]
      by_cases huv : u = v
      · simp [huv]
      · rw [erase_cons_tail (by simpa using huv), idxOf_cons_ne _ huw]
        omega

section Moves

variable {s : State W T} {v w : W} {x : Work}

/-- The timer of an item that is not written. -/
theorem timerRank_relink (hvw : v ≠ w) (p : Place) : timerRank (s.relink v x p) w = timerRank s w := by
  simp [timerRank, hvw.symm]

/-- The timer of an item that is not written. -/
theorem timerRank_setWork (hvw : v ≠ w) : timerRank (s.setWork v x) w = timerRank s w := by
  simp [timerRank, setWork, hvw.symm]

/-- The worker is left alone when it does not sleep. -/
theorem worker_relink (hawake : s.worker ≠ .suspended) (p : Place) :
    (s.relink v x p).worker = s.worker := by
  cases p <;> simp [relink, resumeWorker, setWork, rtListRemove, hawake]

/-- A queued item stays queued when another is moved. -/
theorem mem_relink (hvw : v ≠ w) (hw : w ∈ s.workList) (p : Place) : w ∈ (s.relink v x p).workList := by
  have hmem := (mem_erase_of_ne hvw.symm).mpr hw
  cases p <;> simp [relink, resumeWorker, setWork, rtListRemove, hmem]

/-- A queued item is not moved back when another is moved, unless to the front. -/
theorem idxOf_relink_le (hvw : v ≠ w) (hw : w ∈ s.workList) {p : Place} (hp : p ≠ .front) :
    (s.relink v x p).workList.idxOf w ≤ s.workList.idxOf w := by
  have hmem := (mem_erase_of_ne hvw.symm).mpr hw
  have hle := idxOf_erase_le (l := s.workList) hvw
  cases p with
  | front => exact absurd rfl hp
  | back =>
    simpa [relink, resumeWorker, setWork, idxOf_append_of_mem hmem] using hle
  | unlinked => exact hle
  | delayed => exact hle

/-- Moving another item does not raise the rank of a queued one. -/
theorem queueRank_relink_le (hvw : v ≠ w) (hw : w ∈ s.workList) (hawake : s.worker ≠ .suspended)
    {p : Place} (hp : p ≠ .front) : queueRank (s.relink v x p) w ≤ queueRank s w := by
  have hidx := idxOf_relink_le (x := x) hvw hw hp
  have hworker : workerRank (s.relink v x p) = workerRank s := by
    simp [workerRank, worker_relink hawake]
  rw [queueRank, queueRank, Prod.Lex.toLex_le_toLex, timerRank_relink hvw]
  exact .inr ⟨rfl, by dsimp only; omega⟩

/-- A step of its timer lowers the rank of a queued item. -/
theorem queueRank_lt_of_timer {s' : State W T} (h : timerRank s' w < timerRank s w) :
    queueRank s' w < queueRank s w := by
  rw [queueRank, queueRank, Prod.Lex.toLex_lt_toLex]
  exact .inl h

end Moves

section Steps

variable [DecidableEq T] {s s' : State W T} {e : Event W T} {w : W}

/-- Every step keeps the conditions on the worker. -/
theorem Attended.step (h : Attended s) (hstep : Step s e s') : Attended s' := by
  have hmove : ∀ v x p, Attended (s.relink v x p) := by
    intro v x p
    by_cases hsleep : s.worker = .suspended
    · have hnone := h.current (by simp [hsleep])
      have hempty := h.asleep hsleep
      cases p <;> constructor <;>
        simp [relink, resumeWorker, setWork, rtListRemove, hsleep, hnone, hempty]
    · constructor
      · simpa [worker_relink hsleep] using h.current
      · simp [worker_relink hsleep, hsleep]
  cases hstep with
  | submitNow | submitDelayed | urgent | cancel | handle | drop => exact hmove _ _ _
  | cancelled t w => exact ⟨(hmove _ _ _).current, (hmove _ _ _).asleep⟩
  | sleep hworker hlist => exact ⟨fun _ => h.current (by simp [hworker]), fun _ => hlist⟩
  | take => constructor <;> simp [setWork]
  | finish => exact ⟨fun _ => rfl, by simp⟩
  | trytakeFailed hworker | trytaken hworker | release hworker | wake t rest hworker =>
    exact ⟨fun _ => h.current (by simp [hworker]), by simp⟩
  | _ => exact ⟨h.current, h.asleep⟩

/-- Without a synchronous cancel no thread comes into one. -/
theorem Quiet.step (h : Quiet s) (hsync : ∀ t w, e ≠ .cancelSync t w) (hstep : Step s e s') :
    Quiet s' := by
  cases hstep with
  | look t w => exact absurd rfl (hsync t w)
  | taken t w hcaller | wait t w hcaller | cancelled t w hcaller => simp [h.2 t] at hcaller
  | wake t rest _ hwaiters => simp [h.1] at hwaiters
  | submitNow | submitDelayed | urgent | cancel | handle | drop => exact h
  | _ => exact h

/-- A waiting item waits until it is started or cancelled, if its handler does not run while it is
executing. -/
theorem Waiting.step (h : Waiting s w) (hquiet : Quiet s) (hidle : HandledIdle s e)
    (hstart : ¬ Starts s e w) (hcancel : e ≠ .cancel w) (hstep : Step s e s') : Waiting s' w := by
  have hmove : ∀ {v x} p, v ≠ w → Waiting (s.relink v x p) w := by
    intro v x p hvw
    exact h.imp (mem_relink hvw · p) (by simp [hvw.symm])
  have hqueued : ∀ x, Waiting (s.relink w x .back) w := fun x =>
    .inl (by simp [relink, resumeWorker, setWork])
  cases hstep with
  | submitNow v | handle v =>
    by_cases hvw : v = w
    · exact hvw ▸ hqueued _
    · exact hmove _ hvw
  | submitDelayed v =>
    by_cases hvw : v = w
    · exact .inr (by simpa [hvw] using s.timer_delayedItem w)
    · exact hmove _ hvw
  | urgent v =>
    by_cases hvw : v = w
    · exact .inl (by simp [hvw, relink, resumeWorker, setWork])
    · exact hmove _ hvw
  | cancel v => exact hmove _ fun hvw => hcancel (by rw [hvw])
  | expire v | enter v =>
    by_cases hvw : v = w
    · exact .inr (by simp [hvw, setWork])
    · exact h.imp id (by simp [setWork, Ne.symm hvw])
  | drop v htimer hcur => exact absurd hcur (hidle v rfl htimer)
  | take v rest hworker hlist =>
    have hvw : v ≠ w := fun hvw => hstart ⟨rfl, hworker, by simp [hlist, hvw]⟩
    refine h.imp (fun hmem => ?_) (by simp [setWork, hvw.symm])
    simpa [setWork, hlist, hvw.symm] using hmem
  | cancelled t v hcaller => simp [hquiet.2 t] at hcaller
  | _ => exact h

/-- What happens to the timer of an item that is not submitted again or cancelled: its own steps move
it on, and no others touch it. -/
theorem timerRank_step (hquiet : Quiet s) (hsubmit : ∀ ticks, e ≠ .submit w ticks)
    (hcancel : e ≠ .cancel w) (hstep : Step s e s') :
    timerRank s' w = timerRank s w ∧ e ≠ .timer w ∨ timerRank s' w < timerRank s w := by
  cases hstep with
  | submitNow v =>
    have hvw : v ≠ w := fun hvw => hsubmit 0 (by rw [hvw])
    exact .inl ⟨timerRank_relink hvw _, by simp⟩
  | submitDelayed v ticks =>
    have hvw : v ≠ w := fun hvw => hsubmit ticks (by rw [hvw])
    exact .inl ⟨timerRank_relink hvw _, by simp⟩
  | urgent v => exact .inl ⟨by simp [timerRank], by simp⟩
  | cancel v =>
    have hvw : v ≠ w := fun hvw => hcancel (by rw [hvw])
    exact .inl ⟨timerRank_relink hvw _, by simp⟩
  | expire v htimer | enter v htimer =>
    by_cases hvw : v = w
    · subst hvw
      exact .inr (by simp [timerRank, setWork, htimer])
    · exact .inl ⟨timerRank_setWork hvw, by simpa using hvw⟩
  | handle v htimer | drop v htimer =>
    by_cases hvw : v = w
    · subst hvw
      exact .inr (by simp [timerRank, htimer])
    · exact .inl ⟨timerRank_relink hvw _, by simpa using hvw⟩
  | take v =>
    refine .inl ⟨?_, by simp⟩
    by_cases hvw : v = w
    · subst hvw
      simp [timerRank, setWork]
    · exact timerRank_setWork hvw
  | cancelled t v hcaller => simp [hquiet.2 t] at hcaller
  | _ => exact .inl ⟨rfl, by simp⟩

/-- A queued item comes closer to its turn by every step of the worker, and no other step puts it
back. -/
theorem queueRank_step (hattended : Attended s) (hquiet : Quiet s) (hidle : HandledIdle s e)
    (hw : w ∈ s.workList) (hsubmit : ∀ ticks, e ≠ .submit w ticks) (hurgent : ∀ v, e ≠ .urgent v)
    (hcancel : e ≠ .cancel w) (hstart : ¬ Starts s e w) (hstep : Step s e s') :
    w ∈ s'.workList ∧ queueRank s' w ≤ queueRank s w ∧ (e = .worker → queueRank s' w < queueRank s w) := by
  have hawake : s.worker ≠ .suspended := fun hsleep => by simp [hattended.asleep hsleep] at hw
  -- a worker step that leaves the list and the item's timer
  have hloop : ∀ s' : State W T, s'.workList = s.workList → timerRank s' w = timerRank s w →
      workerRank s' < workerRank s → w ∈ s'.workList ∧ queueRank s' w ≤ queueRank s w ∧
        ((.worker : Event W T) = .worker → queueRank s' w < queueRank s w) := by
    intro s' hlist htimer hlt
    have hrank : queueRank s' w < queueRank s w := by
      rw [queueRank, queueRank, Prod.Lex.toLex_lt_toLex, hlist, htimer]
      exact .inr ⟨rfl, by dsimp only; omega⟩
    exact ⟨hlist ▸ hw, hrank.le, fun _ => hrank⟩
  have htimers := timerRank_step hquiet hsubmit hcancel hstep
  cases hstep with
  | submitNow v =>
    have hvw : v ≠ w := fun hvw => hsubmit 0 (by rw [hvw])
    exact ⟨mem_relink hvw hw _, queueRank_relink_le hvw hw hawake (by simp), by simp⟩
  | submitDelayed v ticks =>
    have hvw : v ≠ w := fun hvw => hsubmit ticks (by rw [hvw])
    exact ⟨mem_relink hvw hw _, queueRank_relink_le hvw hw hawake (by simp), by simp⟩
  | urgent v => exact absurd rfl (hurgent v)
  | cancel v =>
    have hvw : v ≠ w := fun hvw => hcancel (by rw [hvw])
    exact ⟨mem_relink hvw hw _, queueRank_relink_le hvw hw hawake (by simp), by simp⟩
  | expire v htimer | enter v htimer =>
    refine ⟨hw, ?_, by simp⟩
    obtain ⟨hsame, -⟩ | hlt := htimers
    · rw [queueRank, hsame]
      exact le_refl _
    · exact (queueRank_lt_of_timer hlt).le
  | handle v htimer =>
    by_cases hvw : v = w
    · subst hvw
      obtain ⟨-, hne⟩ | hlt := htimers
      · exact absurd rfl hne
      · exact ⟨by simp [relink, resumeWorker, setWork], (queueRank_lt_of_timer hlt).le, by simp⟩
    · exact ⟨mem_relink hvw hw _, queueRank_relink_le hvw hw hawake (by simp), by simp⟩
  | drop v htimer hcur => exact absurd hcur (hidle v rfl htimer)
  | sleep _ hlist => simp [hlist] at hw
  | take v rest hworker hlist =>
    have hvw : v ≠ w := fun hvw => hstart ⟨rfl, hworker, by simp [hlist, hvw]⟩
    have hrest : w ∈ rest := by simpa [hlist, hvw.symm] using hw
    have hidx : s.workList.idxOf w = rest.idxOf w + 1 := by rw [hlist, idxOf_cons_ne _ hvw]
    have hrank : ∀ s' : State W T, s'.workList = rest → s'.worker = .running →
        timerRank s' w = timerRank s w → queueRank s' w < queueRank s w := by
      intro s' hlist' hworker' htimer'
      rw [queueRank, queueRank, Prod.Lex.toLex_lt_toLex, htimer', hlist']
      exact .inr ⟨rfl, by simp only [workerRank, hworker']; omega⟩
    obtain ⟨hsame, -⟩ | hlt := htimers
    · exact ⟨hrest, (hrank _ rfl rfl hsame).le, fun _ => hrank _ rfl rfl hsame⟩
    · exact ⟨hrest, (queueRank_lt_of_timer hlt).le, fun _ => queueRank_lt_of_timer hlt⟩
  | finish hworker =>
    refine hloop _ rfl rfl ?_
    simp only [workerRank, hworker]
    split <;> omega
  | trytakeFailed hworker hsem | trytaken hworker hsem =>
    exact hloop _ rfl rfl (by simp [workerRank, hworker, hsem])
  | release hworker => exact hloop _ rfl rfl (by simp [workerRank, hworker])
  | wake t rest _ hwaiters => simp [hquiet.1] at hwaiters
  | taken t v hcaller | cancelled t v hcaller => simp [hquiet.2 t] at hcaller
  | _ => exact ⟨hw, le_refl _, by simp⟩

/-- An accepted submission leaves the item waiting. -/
theorem Accepted.waiting (h : Accepted s e w) (hstep : Step s e s') : Waiting s' w := by
  obtain ⟨ticks, rfl, -⟩ | rfl := h
  · cases hstep with
    | submitNow => exact .inl (by simp [relink, resumeWorker, setWork])
    | submitDelayed => exact .inr (by simpa using s.timer_delayedItem w)
  · cases hstep
    exact .inl (by simp [relink, resumeWorker, setWork])

end Steps

section Runs

variable [DecidableEq T]

/-- The conditions on the worker hold in every reachable state. -/
theorem attended_of_reachable {s : State W T} (h : (system W T).Reachable s) : Attended s := by
  refine h.invariant ?_ fun s e s' hs hstep => hs.step (Step.of_next hstep)
  rintro _ rfl
  exact ⟨fun _ => rfl, fun _ => rfl⟩

variable {r : (system W T).Run}

/-- A run without a synchronous cancel is quiet. -/
theorem quiet_of_run (hsync : ∀ n t w, r.event n ≠ .cancelSync t w) (n : ℕ) : Quiet (r.state n) := by
  induction n with
  | zero =>
    rw [r.init]
    exact ⟨rfl, fun _ => rfl⟩
  | succ n ih => exact ih.step (hsync n) (Step.of_next (r.step n))

/-- The item is started or cancelled. -/
def Served (r : (system W T).Run) (w : W) (n : ℕ) : Prop :=
  Starts (r.state n) (r.event n) w ∨ r.event n = .cancel w

section Fairness

variable (hfair : Fair r) (hsync : ∀ n t w, r.event n ≠ .cancelSync t w)
  (hidle : ∀ n, HandledIdle (r.state n) (r.event n)) {w : W}

include hsync hidle

/-- A waiting item is served or goes on waiting. -/
theorem waiting_next {n : ℕ} (hwait : Waiting (r.state n) w) :
    Served r w n ∨ Waiting (r.state (n + 1)) w := by
  by_cases hserved : Served r w n
  · exact .inl hserved
  · obtain ⟨hstart, hcancel⟩ := not_or.mp hserved
    exact .inr (hwait.step (quiet_of_run hsync n) (hidle n) hstart hcancel (Step.of_next (r.step n)))

variable {bound : ℕ} (hbound : ∀ n, bound ≤ n → ¬ Overtaken (r.state n) (r.event n) w)

include hfair hbound

/-- The timer of a waiting item that is not submitted again brings it into the work list. -/
theorem waiting_queued {n : ℕ} (hn : bound ≤ n) (hwait : Waiting (r.state n) w) :
    ∃ m, n ≤ m ∧ (Served r w m ∨ w ∈ (r.state m).workList) := by
  have hstep : ∀ m, bound ≤ m → Waiting (r.state m) w → r.event m ≠ .cancel w →
      timerRank (r.state (m + 1)) w = timerRank (r.state m) w ∧ r.event m ≠ .timer w ∨
        timerRank (r.state (m + 1)) w < timerRank (r.state m) w := by
    intro m hm hwait hcancel
    have hsubmit : ∀ ticks, r.event m ≠ .submit w ticks := fun ticks he =>
      hbound m hm ⟨hwait, .inl ⟨ticks, he⟩⟩
    exact timerRank_step (quiet_of_run hsync m) hsubmit hcancel (Step.of_next (r.step m))
  refine eventually_of_rank (P := fun m => bound ≤ m ∧ Waiting (r.state m) w)
    (fun m => timerRank (r.state m) w) ?_ ?_ ⟨hn, hwait⟩
  · rintro m ⟨hm, hwait⟩
    by_cases hcancel : r.event m = .cancel w
    · exact .inl (.inl (.inr hcancel))
    · obtain hserved | hnext := waiting_next hsync hidle hwait
      · exact .inl (.inl hserved)
      · have hrank := hstep m hm hwait hcancel
        exact .inr ⟨⟨by omega, hnext⟩, by omega⟩
  · rintro m ⟨hm, hmem | htimer⟩
    · exact ⟨m, le_refl m, fun _ => .inl (.inr hmem)⟩
    · obtain ⟨k, hk, hevent⟩ := hfair.timer m w htimer
      refine ⟨k, hk, fun ⟨hbk, hwait⟩ => ?_⟩
      obtain hevent | hevent | ⟨ticks, hevent⟩ := hevent
      · have hrank := hstep k hbk hwait (by simp [hevent])
        exact .inr (hrank.resolve_left fun hsame => hsame.2 hevent)
      · exact .inl (.inl (.inr hevent))
      · exact absurd ⟨hwait, .inl ⟨ticks, hevent⟩⟩ (hbound k hbk)

/-- The worker comes to a queued item that is not overtaken. -/
theorem queued_served {n : ℕ} (hn : bound ≤ n) (hmem : w ∈ (r.state n).workList) :
    ∃ m, n ≤ m ∧ Served r w m := by
  have hattended : ∀ m, Attended (r.state m) := fun m => attended_of_reachable (r.reachable m)
  have hcloser : ∀ m, bound ≤ m → w ∈ (r.state m).workList → Served r w m ∨
      w ∈ (r.state (m + 1)).workList ∧ queueRank (r.state (m + 1)) w ≤ queueRank (r.state m) w ∧
        (r.event m = .worker → queueRank (r.state (m + 1)) w < queueRank (r.state m) w) := by
    intro m hm hmem
    by_cases hserved : Served r w m
    · exact .inl hserved
    · obtain ⟨hstart, hcancel⟩ := not_or.mp hserved
      have hsubmit : ∀ ticks, r.event m ≠ .submit w ticks := fun ticks he =>
        hbound m hm ⟨.inl hmem, .inl ⟨ticks, he⟩⟩
      have hurgent : ∀ v, r.event m ≠ .urgent v := fun v he =>
        hbound m hm ⟨.inl hmem, .inr ⟨v, he⟩⟩
      exact .inr (queueRank_step (hattended m) (quiet_of_run hsync m) (hidle m) hmem hsubmit hurgent
        hcancel hstart (Step.of_next (r.step m)))
  refine eventually_of_rank (P := fun m => bound ≤ m ∧ w ∈ (r.state m).workList)
    (fun m => queueRank (r.state m) w) ?_ ?_ ⟨hn, hmem⟩
  · rintro m ⟨hm, hmem⟩
    exact (hcloser m hm hmem).imp_right fun hnext => ⟨⟨by omega, hnext.1⟩, hnext.2.1⟩
  · rintro m ⟨hm, hmem⟩
    have hawake : (r.state m).worker ≠ .suspended := fun hsleep => by
      simp [(hattended m).asleep hsleep] at hmem
    obtain ⟨k, hk, hevent⟩ := hfair.worker m hawake
    exact ⟨k, hk, fun ⟨hbk, hmem⟩ => (hcloser k hbk hmem).imp_right fun hnext => hnext.2.2 hevent⟩

end Fairness

/-- Every accepted item runs. On a fair run of submissions, urgent submissions, cancels, timers and
the worker, on which no timer handler finds its item executing, an item that is overtaken or
submitted again only finitely often while it waits is started after each accepted submission, or it
is cancelled. -/
theorem accepted_starts (hfair : Fair r) (hsync : ∀ n t w, r.event n ≠ .cancelSync t w)
    (hidle : ∀ n, HandledIdle (r.state n) (r.event n)) {w : W}
    (hfinite : ∃ bound, ∀ n, bound ≤ n → ¬ Overtaken (r.state n) (r.event n) w) {n : ℕ}
    (haccepted : Accepted (r.state n) (r.event n) w) :
    ∃ m, n < m ∧ (Starts (r.state m) (r.event m) w ∨ r.event m = .cancel w) := by
  obtain ⟨bound, hbound⟩ := hfinite
  have hfirst : Waiting (r.state (n + 1)) w := haccepted.waiting (Step.of_next (r.step n))
  obtain ⟨m, hm, -, hserved⟩ | hlate :=
    eventually_or_keeps (P := fun m => Waiting (r.state m) w) (fun m => waiting_next hsync hidle) hfirst
      (Nat.le_add_right (n + 1) bound)
  · exact ⟨m, hm, hserved⟩
  · obtain ⟨m, hm, hserved | hmem⟩ :=
      waiting_queued hfair hsync hidle hbound (Nat.le_add_left _ _) hlate
    · exact ⟨m, by omega, hserved⟩
    · obtain ⟨k, hk, hserved⟩ := queued_served hfair hsync hidle hbound (by omega) hmem
      exact ⟨k, by omega, hserved⟩

/-- The states of the run through some events of one item and one caller. -/
abbrev stateAt (events : List (Event Unit Unit)) : ℕ → State Unit Unit := pathState next created events

/-- A run that ends with the worker asleep is fair when every timer that is started goes on. -/
theorem fair_runThrough (events : List (Event Unit Unit)) (pc : Caller Unit)
    (hend : (runEvents next created events).any
      fun s => s.worker = .suspended ∧ (s.work ()).timer = .idle ∧ s.caller () = pc)
    (hlast : events.getLast? = some .worker)
    (htimers : ∀ n < events.length, ((stateAt events n).work ()).timer ≠ .idle →
      ∃ m < events.length, n ≤ m ∧ events.getD m .other = .timer ()) :
    ∃ s', s'.caller () = pc ∧ ∃ hrun : runEvents next created events = some s', Fair (runThrough hrun) := by
  obtain ⟨s', hrun, hfacts⟩ := (Option.any_eq_true _ _).mp hend
  obtain ⟨hsleep, hidle, hpc⟩ := of_decide_eq_true hfacts
  refine ⟨s', hpc, hrun, ?_, ?_⟩
  · intro n hawake
    by_cases hn : n < events.length
    · refine ⟨events.length - 1, by omega, ?_⟩
      rw [getLast?_eq_getElem?] at hlast
      simp [runThrough, Run.ofEvents, hlast]
    · rw [(runThrough_of_le hrun (by omega)).1] at hawake
      exact absurd hsleep hawake
  · intro n _ hstarted
    by_cases hn : n < events.length
    · obtain ⟨m, -, hnm, hevent⟩ := htimers n hn hstarted
      exact ⟨m, hnm, .inl hevent⟩
    · rw [(runThrough_of_le hrun (by omega)).1] at hstarted
      exact absurd hidle hstarted

/-- The events of a work item that is submitted, executed and completed, up to the worker's sleep. -/
def oneItem : List (Event Unit Unit) :=
  [.submit () 0, .worker, .worker, .worker, .worker, .worker, .worker]

/-- A fair run on which an item is submitted and started. -/
theorem accepted_starts_one_item : ∃ r : (system Unit Unit).Run, Fair r ∧
    Accepted (r.state 0) (r.event 0) () ∧
      ∃ m, 0 < m ∧ (Starts (r.state m) (r.event m) () ∨ r.event m = .cancel ()) := by
  obtain ⟨s', -, hs', hfair⟩ := fair_runThrough oneItem .idle (by decide +kernel) rfl (by decide +kernel)
  have hlater : ∀ n, 1 ≤ n → (runThrough hs').event n = .worker ∨ (runThrough hs').event n = .other := by
    intro n hn
    by_cases hlt : n < 7
    · have hfirst : ∀ n < 7, 1 ≤ n → oneItem.getD n .other = .worker := by decide +kernel
      exact .inl (hfirst n hlt hn)
    · exact .inr (runThrough_of_le hs' (Nat.le_of_not_lt hlt)).2
  have hevent : ∀ n, (runThrough hs').event n = .submit () 0 ∨ (runThrough hs').event n = .worker ∨
      (runThrough hs').event n = .other := by
    intro n
    obtain rfl | hn := Nat.eq_zero_or_pos n
    · exact .inl rfl
    · exact .inr (hlater n hn)
  have haccepted : Accepted ((runThrough hs').state 0) ((runThrough hs').event 0) () :=
    .inl ⟨0, rfl, rfl⟩
  refine ⟨runThrough hs', hfair, haccepted,
    accepted_starts hfair (fun n t w he => ?_) (fun n w he => ?_) ⟨1, ?_⟩ haccepted⟩
  · simpa [he] using hevent n
  · simpa [he] using hevent n
  · rintro n hn ⟨-, ⟨ticks, he⟩ | ⟨v, he⟩⟩ <;> simpa [he] using hlater n hn

/-- The events of an item that is submitted again, with a delay, while it is executing: the delay
expires before the work function returns. -/
def expiresExecuting : List (Event Unit Unit) :=
  [.submit () 0, .worker, .submit () 5, .timer (), .timer (), .timer (), .worker, .worker, .worker,
    .worker, .worker]

/-- The handler drops the item that is executing: its second submission is accepted, no other call
follows, and the item is never started again. -/
theorem accepted_dropped : ∃ r : (system Unit Unit).Run, Fair r ∧ Accepted (r.state 2) (r.event 2) () ∧
      ∀ m, 2 < m → (r.event m = .timer () ∨ r.event m = .worker ∨ r.event m = .other) ∧
        ¬ Starts (r.state m) (r.event m) () := by
  obtain ⟨s', -, hs', hfair⟩ :=
    fair_runThrough expiresExecuting .idle (by decide +kernel) rfl (by decide +kernel)
  have haccepted : ((stateAt expiresExecuting 2).workqueueSubmitWork () 5).2 = .eok := by decide +kernel
  refine ⟨runThrough hs', hfair, .inl ⟨5, rfl, haccepted⟩, fun m hm => ?_⟩
  by_cases hn : m < 11
  · have hfirst : ∀ m < 11, 2 < m → (expiresExecuting.getD m .other = .timer () ∨
        expiresExecuting.getD m .other = .worker) ∧ ((stateAt expiresExecuting m).worker ≠ .check ∨
          (stateAt expiresExecuting m).workList.head? = none) := by
      decide +kernel
    obtain ⟨hevent, hbusy⟩ := hfirst m hn hm
    refine ⟨hevent.imp_right .inl, fun ⟨_, hcheck, hhead⟩ => ?_⟩
    obtain hbusy | hempty := hbusy
    · exact hbusy hcheck
    · exact absurd (hempty.symm.trans hhead) (by simp)
  · have hother := (runThrough_of_le hs' (Nat.le_of_not_lt hn)).2
    exact ⟨.inr (.inr hother), fun hstart => by simp [hother, Starts] at hstart⟩

end Runs

end RtThread.Workqueue
