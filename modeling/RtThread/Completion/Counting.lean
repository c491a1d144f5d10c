import Mathlib.Data.Fin.VecNotation
import Mathlib.Data.Fintype.Basic
import RtThread.Completion.Basic
import RtThread.Kernel.Waits

/-!
# Waits and dones

Each done that is not rejected is for one wait. The flag of a completion is the done that no wait has
taken yet: this holds as long as a done finds its waiter still asleep, is not switched away from before
it writes the word, and no other wait takes the flag while the woken waiter has not run.
-/

namespace RtThread.Completion

open Kernel Lib Function Option Sched Waits TransitionSystem

variable {T : Type*}

/-- For each completion, the waits that returned `RT_EOK` and the dones that were not rejected. -/
structure Tally where
  oks : ℕ → ℕ
  dones : ℕ → ℕ

/-- The thread of a done is still asleep and its timer has not expired. -/
def State.Asleep (s : State T) (thread : T) : Prop :=
  s.isSuspended thread = true ∧ (s.ttmrSet thread = true → s.timerActive thread = true)

variable [DecidableEq T]

/-- The counts after an event with the return of a call; a done counts when it is made. -/
def Tally.record (tally : Tally) (s : State T) (e : Event T) (ret : Option Return) : Tally where
  oks := match ret with
    | some (.wait id ret) =>
      if ret = rtEok then update tally.oks id (tally.oks id + 1) else tally.oks
    | _ => tally.oks
  dones := match e with
    | .done id | .isrDone id =>
      if (s.word id).flag then tally.dones else update tally.dones id (tally.dones id + 1)
    | _ => tally.dones

/-- The completions with their counts. -/
def system (T : Type*) [DecidableEq T] : TransitionSystem (State T × Tally) (Event T) where
  init s := s.1.Booted ∧ s.2 = ⟨fun _ => 0, fun _ => 0⟩
  step s e s' := ∃ ret, s.1.exec e = some (s'.1, ret) ∧ s'.2 = s.2.record s.1 e ret

/-- A done finds its waiter asleep, and a done by a thread is not preempted by it before it has written
the word; a wait does not take the flag that a woken waiter has not seen yet. -/
def Orderly (s : State T) : Event T → Prop
  | .done id => (s.word id).flag = false → ∀ w, (s.word id).thread = some w →
      s.Asleep w ∧ (s.toSched.rtThreadResume w).1.current = s.current
  | .isrDone id => (s.word id).flag = false → ∀ w, (s.word id).thread = some w → s.Asleep w
  | .wait id _ => (s.word id).flag = true → ∀ t, s.pc t ≠ .waitWoken id
  | _ => True

/-- Nobody is inside a call. -/
def State.Quiescent (s : State T) : Prop := ∀ t, s.pc t = .idle

/-- A thread after the `rt_schedule` of its wait: asleep, timed out, or woken by a done. -/
inductive Fate (s : State T) (id : ℕ) (t : T) : Prop where
  | asleep : s.word id = ⟨some t, false⟩ → s.isSuspended t = true → s.error t = rtEok → Fate s id t
  | timedOut : s.word id = ⟨some t, false⟩ → s.isSuspended t = false → s.error t = -rtEtimeout →
      Fate s id t
  | woken : s.word id = .completed → s.isSuspended t = false → s.error t = rtEok → Fate s id t

/-- What holds on orderly runs. -/
structure Tracked (s : State T) (tally : Tally) : Prop where
  queue : s.ReadyQueue
  started : ∀ t, s.pc t ≠ .idle → s.isFresh t = false
  undisturbed : ∀ t id error, s.pc t ≠ .doneResumed id error
  inside : ∀ t id, s.pc t = .waitWoken id → Fate s id t
  registered : ∀ id t, (s.word id).thread = some t → s.pc t = .waitWoken id
  alone : ∀ id t u, s.pc t = .waitWoken id → s.pc u = .waitWoken id → t = u
  count : ∀ id, tally.dones id = tally.oks id + if (s.word id).flag then 1 else 0

section Frames

omit [DecidableEq T]

variable {s s' : State T} {tally tally' : Tally}

/-- The fate of a thread depends on its word, its status and its error. -/
theorem Fate.congr {id : ℕ} {t : T} (h : Fate s id t) (hword : s'.word id = s.word id)
    (hsusp : s'.isSuspended t = s.isSuspended t) (herror : s'.error t = s.error t) : Fate s' id t := by
  cases h with
  | asleep h1 h2 h3 => exact .asleep (hword.trans h1) (hsusp.trans h2) (herror.trans h3)
  | timedOut h1 h2 h3 => exact .timedOut (hword.trans h1) (hsusp.trans h2) (herror.trans h3)
  | woken h1 h2 h3 => exact .woken (hword.trans h1) (hsusp.trans h2) (herror.trans h3)

/-- What the scheduler and the timers do to one thread that is started: nothing, or it times out. -/
def Passes (s s' : State T) (t : T) : Prop :=
  s'.isFresh t = false ∧
    (s'.isSuspended t = s.isSuspended t ∧ s'.error t = s.error t ∨
      s.isSuspended t = true ∧ s'.isSuspended t = false ∧ s'.error t = -rtEtimeout)

/-- An event of the scheduler and the timers. -/
structure Background (s s' : State T) : Prop where
  queue : s'.ReadyQueue
  pc : s'.pc = s.pc
  word : s'.word = s.word
  passes : ∀ t, s.isFresh t = false → Passes s s' t

/-- An event that the waiting threads do not see. -/
theorem Background.unseen (hqueue : s'.ReadyQueue) (hwaits : s'.toSched.waits = s.toSched.waits)
    (hpc : s'.pc = s.pc) (hword : s'.word = s.word) (herror : s'.error = s.error) : Background s s' := by
  refine ⟨hqueue, hpc, hword, fun t hfresh => ⟨?_, .inl ⟨?_, by rw [herror]⟩⟩⟩
  · exact (congrFun (congrArg fresh hwaits) t).trans hfresh
  · exact congrFun (congrArg suspended hwaits) t

/-- A function of the scheduler that the waiting threads do not see. -/
theorem Background.onSched {f : Sched T → Sched T} (hqueue : (f s.toSched).ReadyQueue)
    (hwaits : (f s.toSched).waits = s.toSched.waits) : Background s (s.onSched f) :=
  .unseen hqueue hwaits rfl rfl rfl

/-- Such events keep everything: a thread that times out keeps its place in the word. -/
theorem Tracked.background (h : Tracked s tally) (hb : Background s s') : Tracked s' tally where
  queue := hb.queue
  started t ht := (hb.passes t (h.started t (hb.pc ▸ ht))).1
  undisturbed t id error := hb.pc ▸ h.undisturbed t id error
  inside t id ht := by
    rw [hb.pc] at ht
    have hword : s'.word id = s.word id := by rw [hb.word]
    obtain ⟨-, ⟨hsusp, herror⟩ | ⟨hwas, hsusp, herror⟩⟩ := hb.passes t (h.started t (by simp [ht]))
    · exact (h.inside t id ht).congr hword hsusp herror
    · cases h.inside t id ht with
      | asleep hasleep => exact .timedOut (hword.trans hasleep) hsusp herror
      | timedOut _ hnot | woken _ hnot => simp [hwas] at hnot
  registered id t ht := by
    rw [hb.word] at ht
    rw [hb.pc]
    exact h.registered id t ht
  alone id t u ht hu := h.alone id t u (hb.pc ▸ ht) (hb.pc ▸ hu)
  count id := by
    rw [hb.word]
    exact h.count id

/-- A call that writes the word of one completion, for at most one thread; every other thread is left
alone, and none of them is at that completion. -/
structure Writes (s s' : State T) (id : ℕ) (x : Word T) (mine : Option T) : Prop where
  queue : s'.ReadyQueue
  word : s'.word = update s.word id x
  others : ∀ u, mine ≠ some u → s'.pc u = s.pc u ∧ s'.isFresh u = s.isFresh u ∧
    s'.isSuspended u = s.isSuspended u ∧ s'.error u = s.error u
  free : ∀ u, mine ≠ some u → s.pc u ≠ .waitWoken id
  before : ∀ u, mine = some u → s.pc u = .idle ∨ s.pc u = .waitWoken id
  after : ∀ u, mine = some u → s'.pc u = .idle ∨
    s'.pc u = .waitWoken id ∧ s'.isFresh u = false ∧ Fate s' id u
  thread : ∀ u, x.thread = some u → mine = some u ∧ s'.pc u = .waitWoken id

/-- Such a call keeps everything when it keeps the count of its completion. -/
theorem Tracked.writes (h : Tracked s tally) {id : ℕ} {x : Word T} {mine : Option T}
    (hw : Writes s s' id x mine) (hcount : tally'.dones id = tally'.oks id + if x.flag then 1 else 0)
    (hrest : ∀ id', id' ≠ id → tally'.dones id' = tally.dones id' ∧ tally'.oks id' = tally.oks id') :
    Tracked s' tally' := by
  have hword : ∀ id', id' ≠ id → s'.word id' = s.word id' := fun id' hne => by
    rw [hw.word, update_of_ne hne]
  -- a thread in a call of another completion is not the thread of this one
  have helse : ∀ {id' u}, s'.pc u = .waitWoken id' → mine = some u → id' = id := by
    intro id' u hu hmine
    obtain hidle | ⟨hat, -⟩ := hw.after u hmine
    · simp [hidle] at hu
    · simpa [hat] using hu.symm
  refine ⟨hw.queue, fun u hu => ?_, fun u id' error hu => ?_, fun u id' hu => ?_, fun id' u hu => ?_,
    fun id' u v hu hv => ?_, fun id' => ?_⟩
  · by_cases hmine : mine = some u
    · exact ((hw.after u hmine).resolve_left hu).2.1
    · obtain ⟨hpc, hfresh, -⟩ := hw.others u hmine
      exact hfresh.trans (h.started u (hpc ▸ hu))
  · by_cases hmine : mine = some u
    · obtain hidle | ⟨hat, -⟩ := hw.after u hmine
      · simp [hidle] at hu
      · simp [hat] at hu
    · exact h.undisturbed u id' error ((hw.others u hmine).1 ▸ hu)
  · by_cases hmine : mine = some u
    · obtain rfl := helse hu hmine
      obtain hidle | ⟨-, -, hfate⟩ := hw.after u hmine
      · simp [hidle] at hu
      · exact hfate
    · obtain ⟨hpc, -, hsusp, herror⟩ := hw.others u hmine
      rw [hpc] at hu
      have hne : id' ≠ id := fun heq => hw.free u hmine (heq ▸ hu)
      exact (h.inside u id' hu).congr (hword id' hne) hsusp herror
  · by_cases hid : id' = id
    · subst hid
      rw [hw.word, update_self] at hu
      exact (hw.thread u hu).2
    · rw [hword id' hid] at hu
      have hat := h.registered id' u hu
      by_cases hmine : mine = some u
      · obtain hidle | hmineAt := hw.before u hmine
        · simp [hidle] at hat
        · exact absurd (by simpa [hmineAt] using hat.symm) hid
      · rw [(hw.others u hmine).1, hat]
  · by_cases hu' : mine = some u
    · obtain rfl := helse hu hu'
      by_cases hv' : mine = some v
      · exact mem_unique hu' hv'
      · exact absurd ((hw.others v hv').1 ▸ hv) (hw.free v hv')
    · by_cases hv' : mine = some v
      · obtain rfl := helse hv hv'
        exact absurd ((hw.others u hu').1 ▸ hu) (hw.free u hu')
      · exact h.alone id' u v ((hw.others u hu').1 ▸ hu) ((hw.others v hv').1 ▸ hv)
  · by_cases hid : id' = id
    · subst hid
      rw [hw.word, update_self]
      exact hcount
    · rw [hword id' hid, (hrest id' hid).1, (hrest id' hid).2]
      exact h.count id'

/-- At a clear word nobody is inside a wait. -/
theorem Tracked.nobody {id : ℕ} (h : Tracked s tally) (hflag : (s.word id).flag = false)
    (hthread : (s.word id).thread = none) (u : T) : s.pc u ≠ .waitWoken id := by
  intro hu
  cases h.inside u id hu with
  | asleep hword | timedOut hword => simp [hword] at hthread
  | woken hword => simp [hword, Word.completed] at hflag

end Frames

section Calls

variable {s s' : State T} {tally : Tally} {t : T} {id : ℕ} {ret : Option Return}

omit [DecidableEq T] in
/-- Who can make a call. -/
theorem State.caller_eq (h : s.caller = some t) :
    s.current = some t ∧ (s.stat t).code = .running ∧ s.pc t = .idle := by
  obtain ⟨u, hu, hidle⟩ := bind_eq_some_iff.mp h
  obtain ⟨v, hcur, hrunning⟩ := bind_eq_some_iff.mp hu
  simp only [ite_none_right_eq_some, some.injEq] at hidle hrunning
  obtain ⟨hidle, rfl⟩ := hidle
  obtain ⟨hrunning, rfl⟩ := hrunning
  exact ⟨hcur, hrunning, hidle⟩

omit [DecidableEq T] in
/-- Who can go on inside a call. -/
theorem State.runner_eq (h : s.runner = some t) : s.current = some t ∧ (s.stat t).code = .running := by
  obtain ⟨v, hcur, hrunning⟩ := bind_eq_some_iff.mp h
  simp only [ite_none_right_eq_some, some.injEq] at hrunning
  obtain ⟨hrunning, rfl⟩ := hrunning
  exact ⟨hcur, hrunning⟩

/-- The scheduler after the suspension of a running thread, its timer and the `rt_schedule`. -/
theorem sched_suspended {sched sched' : Sched T} {ok : Bool} (hqueue : sched.ReadyQueue)
    (hrunning : (sched.stat t).code = .running) (timeout : ℤ)
    (heq : sched.rtThreadSuspendToList t none .fifo .uninterruptible = some (sched', ok)) :
    ok = true ∧ (if 0 < timeout then sched'.rtTimerStart t else sched').rtSchedule.ReadyQueue ∧
      (if 0 < timeout then sched'.rtTimerStart t else sched').rtSchedule.isFresh =
        update sched.isFresh t false ∧
      (if 0 < timeout then sched'.rtTimerStart t else sched').rtSchedule.isSuspended =
        update sched.isSuspended t true := by
  obtain ⟨rfl, hwaits⟩ := hqueue.waits_rtThreadSuspend hrunning heq
  rw [timerStop_eq] at hwaits
  have hqueue' : sched'.ReadyQueue := hqueue.rtThreadSuspendToList (by simp) heq
  have hqueue'' : (if 0 < timeout then sched'.rtTimerStart t else sched').ReadyQueue := by
    split
    · exact hqueue'.congr rfl rfl
    · exact hqueue'
  have hfinal := hqueue''.waits_rtSchedule
  refine ⟨rfl, hqueue''.rtSchedule, ?_, ?_⟩
  · refine (congrArg fresh hfinal).trans (Eq.trans ?_ (congrArg fresh hwaits))
    split <;> rfl
  · refine (congrArg suspended hfinal).trans (Eq.trans ?_ (congrArg suspended hwaits))
    split <;> rfl

/-- A call of `rt_completion_wait` by a running thread. -/
theorem Tracked.rtCompletionWait (h : Tracked s tally) (hrunning : (s.stat t).code = .running)
    (hidle : s.pc t = .idle) {timeout : ℤ} (hok : Orderly s (.wait id timeout))
    (heq : s.rtCompletionWait t id timeout = some (s', ret)) :
    Tracked s' (tally.record s (.wait id timeout) ret) := by
  unfold State.rtCompletionWait at heq
  split at heq
  · -- the flag is taken
    rename_i hflag
    cases heq
    have hcount := h.count id
    rw [if_pos hflag] at hcount
    have hwrites : Writes s (s.setWord id .clear) id .clear none :=
      ⟨h.queue, rfl, fun _ _ => ⟨rfl, rfl, rfl, rfl⟩, fun u _ => hok hflag u, by simp, by simp,
        by simp [Word.clear]⟩
    refine h.writes hwrites ?_ fun id' hne => ?_
    · simp [Tally.record, Word.clear, hcount]
    · simp [Tally.record, hne]
  next hflag =>
    obtain ⟨hthread, heq⟩ := ite_none_left_eq_some.mp heq
    split at heq
    · cases heq
      exact h
    · obtain ⟨⟨sched, ok⟩, hsuspend, heq⟩ := map_eq_some_iff.mp heq
      have hword : (s.word id).thread = none := by simpa using hthread
      have hclear := h.nobody (by simpa using hflag) hword
      obtain ⟨rfl, hqueue, hfresh', hsusp⟩ := sched_suspended h.queue hrunning timeout hsuspend
      obtain ⟨hs', rfl⟩ := Prod.mk.inj heq
      obtain ⟨hsched, hpc, hword', herror⟩ :
          s'.toSched = (if 0 < timeout then sched.rtTimerStart t else sched).rtSchedule ∧
          s'.pc = update s.pc t (.waitWoken id) ∧ s'.word = update s.word id ⟨some t, false⟩ ∧
          s'.error = update s.error t rtEok := by
        rw [← hs']
        split <;> exact ⟨rfl, rfl, rfl, rfl⟩
      have hwrites : Writes s s' id ⟨some t, false⟩ (some t) := by
        refine ⟨hsched ▸ hqueue, hword', fun u hu => ?_, fun u _ => hclear u, ?_, ?_, ?_⟩
        · have hne : u ≠ t := fun hut => hu (by rw [hut])
          rw [hpc, herror, hsched, hfresh', hsusp]
          simp [hne]
        · rintro u ⟨⟩
          exact .inl hidle
        · rintro u ⟨⟩
          refine .inr ⟨by simp [hpc], by rw [hsched, hfresh']; simp, .asleep ?_ ?_ ?_⟩
          · simp [hword']
          · rw [hsched, hsusp]
            simp
          · simp [herror]
        · rintro u ⟨⟩
          exact ⟨rfl, by simp [hpc]⟩
      have hcount := h.count id
      refine h.writes hwrites ?_ fun id' hne => ⟨rfl, rfl⟩
      simpa [Tally.record, hflag] using hcount

/-- A resumption of a thread that is asleep: it is woken and nothing else changes. -/
theorem sched_resumed {sched : Sched T} {w : T} (hqueue : sched.ReadyQueue)
    (hsusp : sched.isSuspended w = true) (htimer : sched.ttmrSet w = true → sched.timerActive w = true) :
    (sched.rtThreadResume w).1.ReadyQueue ∧
      (sched.rtThreadResume w).1.isFresh = update sched.isFresh w false ∧
      (sched.rtThreadResume w).1.isSuspended = update sched.isSuspended w false := by
  have hwaits := hqueue.waits_rtThreadResume w
  have hstop : sched.waits.canStop w = true := by
    by_cases hset : sched.ttmrSet w = true
    · simp [canStop, waits, htimer hset]
    · simp [canStop, waits, hset]
  rw [(waits_rtSchedThreadReady _ _).2, if_pos (show sched.waits.suspended w = true from hsusp),
    if_pos hstop, timerStop_eq] at hwaits
  exact ⟨hqueue.rtThreadResume w, congrArg fresh hwaits, congrArg suspended hwaits⟩

/-- The state after the `rt_thread_resume` of a done. -/
def State.resumed (s : State T) (id : ℕ) : State T :=
  match (s.word id).thread with
  | none => s
  | some w => s.onSched fun sched => (sched.rtThreadResume w).1

/-- A done that is not rejected and not preempted writes the word in the same step. -/
theorem State.completionDone_eq {caller : Option T} (hflag : (s.word id).flag = false)
    (hstays : ∀ t w, caller = some t → (s.word id).thread = some w →
      (s.toSched.rtThreadResume w).1.current = some t) :
    ∃ v, s.completionDone caller id = ((s.resumed id).setWord id .completed, some (.done id v)) := by
  unfold State.completionDone State.resumed
  cases hthread : (s.word id).thread with
  | none => exact ⟨-rtEempty, by simp [hflag]⟩
  | some w =>
    cases caller with
    | none => simp [hflag]
    | some t =>
      have hcurrent : (s.onSched fun sched => (sched.rtThreadResume w).1).current = some t :=
        hstays t w rfl hthread
      simp [hflag, hcurrent]

/-- Such a done. -/
theorem Tracked.completed (h : Tracked s tally) (hflag : (s.word id).flag = false)
    (hasleep : ∀ w, (s.word id).thread = some w → s.Asleep w) :
    Tracked ((s.resumed id).setWord id .completed)
      ⟨tally.oks, update tally.dones id (tally.dones id + 1)⟩ := by
  have hcount := h.count id
  simp only [hflag, if_false] at hcount
  unfold State.resumed
  cases hthread : (s.word id).thread with
  | none =>
    have hwrites : Writes s (s.setWord id .completed) id .completed none :=
      ⟨h.queue, rfl, fun u _ => ⟨rfl, rfl, rfl, rfl⟩, fun u _ => h.nobody hflag hthread u, by simp,
        by simp, by simp [Word.completed]⟩
    exact h.writes hwrites (by simp [Word.completed, hcount]) fun id' hne => by simp [hne]
  | some w =>
    obtain ⟨hsusp, htimer⟩ := hasleep w hthread
    obtain ⟨hqueue, hfresh', hsusp'⟩ := sched_resumed h.queue hsusp htimer
    have hat := h.registered id w hthread
    have herror : s.error w = rtEok := by
      cases h.inside w id hat with
      | asleep _ _ herror => exact herror
      | timedOut _ hnot | woken _ hnot => simp [hsusp] at hnot
    have hwrites : Writes s ((s.onSched fun sched => (sched.rtThreadResume w).1).setWord id .completed)
        id .completed (some w) := by
      refine ⟨hqueue, rfl, fun u hu => ?_, fun u hu hother => ?_, ?_, ?_, by simp [Word.completed]⟩
      · have hne : u ≠ w := fun huw => hu (by rw [huw])
        exact ⟨rfl, by simp [State.setWord, State.onSched, hfresh', hne],
          by simp [State.setWord, State.onSched, hsusp', hne], rfl⟩
      · exact hu (by rw [h.alone id u w hother hat])
      · rintro u ⟨⟩
        exact .inr hat
      · rintro u ⟨⟩
        exact .inr ⟨hat, by simp [State.setWord, State.onSched, hfresh'],
          .woken (by simp [State.setWord]) (by simp [State.setWord, State.onSched, hsusp']) herror⟩
    exact h.writes hwrites (by simp [Word.completed, hcount]) fun id' hne => by simp [hne]

/-- A call of `_completion_done` by a running thread or an interrupt. -/
theorem Tracked.completionDone (h : Tracked s tally) {caller : Option T} {e : Event T}
    (hevent : e = .done id ∨ e = .isrDone id)
    (hasleep : (s.word id).flag = false → ∀ w, (s.word id).thread = some w → s.Asleep w)
    (hstays : (s.word id).flag = false → ∀ t w, caller = some t → (s.word id).thread = some w →
      (s.toSched.rtThreadResume w).1.current = some t)
    (heq : s.completionDone caller id = (s', ret)) : Tracked s' (tally.record s e ret) := by
  cases hflag : (s.word id).flag with
  | true =>
    have hrejected : s.completionDone caller id = (s, some (.done id (-rtEbusy))) := by
      simp [State.completionDone, hflag]
    obtain ⟨rfl, rfl⟩ := Prod.mk.inj (hrejected.symm.trans heq)
    have hsame : tally.record s e (some (.done id (-rtEbusy))) = tally := by
      obtain rfl | rfl := hevent <;> simp [Tally.record, hflag]
    rwa [hsame]
  | false =>
    obtain ⟨v, hdone⟩ := State.completionDone_eq hflag (hstays hflag)
    obtain ⟨rfl, rfl⟩ := Prod.mk.inj (hdone.symm.trans heq)
    have htally : tally.record s e (some (.done id v)) =
        ⟨tally.oks, update tally.dones id (tally.dones id + 1)⟩ := by
      obtain rfl | rfl := hevent <;> simp [Tally.record, hflag]
    rw [htally]
    exact h.completed hflag (hasleep hflag)

/-- The end of a wait. -/
theorem Tracked.proceed (h : Tracked s tally) (hrunning : (s.stat t).code = .running)
    (heq : s.proceed t = some (s', ret)) : Tracked s' (tally.record s .proceed ret) := by
  have hnot : s.isSuspended t = false := by simp [isSuspended, hrunning]
  cases hpc : s.pc t with
  | idle => simp [State.proceed, hpc] at heq
  | doneResumed id error => exact absurd hpc (h.undisturbed t id error)
  | waitWoken id =>
    simp only [State.proceed, hpc] at heq
    cases heq
    have hwrites : Writes s ((s.setWord id .clear).setPc t .idle) id .clear (some t) := by
      refine ⟨h.queue, rfl, fun u hu => ?_, fun u hu hother => ?_, ?_, ?_, by simp [Word.clear]⟩
      · have hne : u ≠ t := fun hut => hu (by rw [hut])
        exact ⟨by simp [State.setPc, State.setWord, hne], rfl, rfl, rfl⟩
      · exact hu (by rw [h.alone id u t hother hpc])
      · rintro u ⟨⟩
        exact .inr hpc
      · rintro u ⟨⟩
        exact .inl (by simp [State.setPc])
    have hcount := h.count id
    refine h.writes hwrites ?_ fun id' hne => ?_
    · cases h.inside t id hpc with
      | asleep _ hsusp => simp [hsusp] at hnot
      | timedOut hword _ herror =>
        simpa [Tally.record, Word.clear, herror, hword, rtEtimeout, rtEok] using hcount
      | woken hword _ herror => simpa [Tally.record, Word.clear, herror, hword, Word.completed] using hcount
    · by_cases hret : s.error t = rtEok <;> simp [Tally.record, hret, hne]

/-- The events of the scheduler and the timers. -/
def Event.isBackground : Event T → Bool
  | .wait _ _ | .done _ | .isrDone _ | .proceed => false
  | _ => true

/-- They are no calls of a completion. -/
theorem background_of_exec (tally : Tally) {e : Event T} (hqueue : s.ReadyQueue)
    (hevent : e.isBackground = true) (heq : s.exec e = some (s', ret)) :
    Background s s' ∧ tally.record s e ret = tally := by
  cases e with
  | wait | done | isrDone | proceed => cases hevent
  | startup u =>
    obtain ⟨sched, hstart, ⟨⟩⟩ := map_eq_some_iff.mp heq
    obtain ⟨hfresh, hwaits⟩ := hqueue.waits_rtThreadStartup hstart
    refine ⟨⟨hqueue.rtThreadStartup hstart, rfl, rfl, fun t ht => ?_⟩, rfl⟩
    have hne : t ≠ u := fun htu => by simp [← htu, waits, ht] at hfresh
    refine ⟨?_, .inl ⟨?_, rfl⟩⟩
    · exact (congrFun (congrArg fresh hwaits) t).trans (by
        simpa [start, waits, hne] using ht)
    · exact (congrFun (congrArg suspended hwaits) t).trans (by simp [start, hne, waits])
  | yield =>
    obtain ⟨t, -, ⟨⟩⟩ := map_eq_some_iff.mp heq
    exact ⟨.onSched (hqueue.rtThreadYield t) (hqueue.waits_rtThreadYield t), rfl⟩
  | timerDue u =>
    obtain ⟨sched, hdue, ⟨⟩⟩ := map_eq_some_iff.mp heq
    obtain ⟨-, -, hwaits⟩ := waits_timerDue hdue
    refine ⟨⟨hqueue.timerDue hdue, rfl, rfl, fun t ht => ⟨?_, .inl ⟨?_, rfl⟩⟩⟩, rfl⟩
    · exact (congrFun (congrArg fresh hwaits) t).trans ht
    · exact congrFun (congrArg suspended hwaits) t
  | timeout u =>
    obtain ⟨s1, htimeout, ⟨⟩⟩ := map_eq_some_iff.mp heq
    obtain ⟨sched, hsched, rfl⟩ := map_eq_some_iff.mp htimeout
    obtain ⟨-, hsusp, hwaits⟩ := hqueue.waits_threadTimeout hsched
    refine ⟨⟨hqueue.threadTimeout hsched, rfl, rfl, fun t ht => ⟨?_, ?_⟩⟩, rfl⟩
    · refine (congrFun (congrArg fresh hwaits) t).trans ?_
      by_cases htu : t = u
      · simp [htu, wake, setSuspended]
      · simpa [htu, wake, setSuspended, unlink, timerFired, waits] using ht
    · have hafter := congrFun (congrArg suspended hwaits) t
      by_cases htu : t = u
      · subst htu
        exact .inr ⟨hsusp, hafter.trans (by simp [wake, setSuspended]), by simp⟩
      · exact .inl ⟨hafter.trans (by
          simp [htu, wake, setSuspended, unlink, timerFired, waits]), by simp [htu]⟩
  | tick =>
    obtain ⟨t, -, heq⟩ := map_eq_some_iff.mp heq
    rw [Prod.mk.injEq] at heq
    rw [← heq.1, ← heq.2]
    exact ⟨.onSched (hqueue.rtSchedTickIncrease t) (hqueue.waits_rtSchedTickIncrease t), rfl⟩
  | schedulerStart =>
    simp only [State.exec, ite_none_right_eq_some] at heq
    obtain ⟨sched, hstart, ⟨⟩⟩ := map_eq_some_iff.mp heq.2
    exact ⟨.unseen (hqueue.rtSystemSchedulerStart hstart) (hqueue.waits_rtSystemSchedulerStart hstart)
      rfl rfl rfl, rfl⟩
  | dispatch u =>
    obtain ⟨cur, hcur, heq⟩ := bind_eq_some_iff.mp heq
    simp only [ite_none_right_eq_some] at heq
    obtain ⟨hready, ⟨⟩⟩ := heq
    exact ⟨.onSched (hqueue.switchTo hcur (by simp) hready.1)
      (hqueue.waits_switchTo (by simp) hready.1), rfl⟩

/-- Every orderly step keeps the counts. -/
theorem Tracked.step {e : Event T} (h : Tracked s tally) (hok : Orderly s e)
    (heq : s.exec e = some (s', ret)) : Tracked s' (tally.record s e ret) := by
  by_cases hevent : e.isBackground = true
  · obtain ⟨hb, hsame⟩ := background_of_exec tally h.queue hevent heq
    rw [hsame]
    exact h.background hb
  · cases e with
    | wait id timeout =>
      obtain ⟨t, hcaller, heq⟩ := bind_eq_some_iff.mp heq
      obtain ⟨-, hrunning, hidle⟩ := State.caller_eq hcaller
      exact h.rtCompletionWait hrunning hidle hok heq
    | done id =>
      obtain ⟨t, hcaller, heq⟩ := map_eq_some_iff.mp heq
      obtain ⟨hcur, -, -⟩ := State.caller_eq hcaller
      refine h.completionDone (.inl rfl) (fun hflag w hw => (hok hflag w hw).1)
        (fun hflag u w hu hw => ?_) heq
      rw [(hok hflag w hw).2, hcur, hu]
    | isrDone id =>
      exact h.completionDone (.inr rfl) hok (by simp) (some.inj heq)
    | proceed =>
      obtain ⟨t, hrunner, heq⟩ := bind_eq_some_iff.mp heq
      exact h.proceed (State.runner_eq hrunner).2 heq
    | _ => exact absurd rfl hevent

end Calls

/-- A completion is neither lost nor duplicated. On every orderly run the waits that returned `RT_EOK`
are at most the dones that were not rejected, and when nobody is inside a call there are as many, but
for the one that the flag still stands for. -/
theorem completions_counted {s : State T × Tally}
    (h : ((system T).guarded fun s e => Orderly s.1 e).Reachable s) (id : ℕ) : s.2.oks id ≤ s.2.dones id ∧
      (s.1.Quiescent → s.2.dones id = s.2.oks id + if (s.1.word id).flag then 1 else 0) := by
  have htracked : Tracked s.1 s.2 := by
    refine h.invariant (I := fun s => Tracked s.1 s.2) ?_ ?_
    · rintro ⟨s, tally⟩ ⟨⟨priorityMax, priority, tick, hmax, hprio, rfl⟩, rfl⟩
      exact ⟨readyQueue_boot tick hmax hprio, by simp [State.boot], by simp [State.boot],
        by simp [State.boot], by simp [State.boot, Word.clear], by simp [State.boot],
        by simp [State.boot, Word.clear]⟩
    · rintro ⟨s, tally⟩ e ⟨s', tally'⟩ hs ⟨hok, ret, hexec, rfl⟩
      exact hs.step hok hexec
  exact ⟨by rw [htracked.count id]; omega, fun _ => htracked.count id⟩

omit [DecidableEq T] in
/-- Whether a thread is still asleep can be evaluated. -/
instance (s : State T) (t : T) : Decidable (s.Asleep t) :=
  inferInstanceAs (Decidable (s.isSuspended t = true ∧ (s.ttmrSet t = true → s.timerActive t = true)))

/-- Whether an event is orderly can be evaluated. -/
instance [Fintype T] (s : State T) : (e : Event T) → Decidable (Orderly s e)
  | .done id => inferInstanceAs (Decidable ((s.word id).flag = false → ∀ w,
      (s.word id).thread = some w →
        s.Asleep w ∧ (s.toSched.rtThreadResume w).1.current = s.current))
  | .isrDone id => inferInstanceAs (Decidable ((s.word id).flag = false → ∀ w,
      (s.word id).thread = some w → s.Asleep w))
  | .wait id _ => inferInstanceAs (Decidable ((s.word id).flag = true → ∀ t, s.pc t ≠ .waitWoken id))
  | .startup _ | .yield | .proceed | .timerDue _ | .timeout _ | .tick | .schedulerStart | .dispatch _ =>
    inferInstanceAs (Decidable True)

/-- The next state with the counts, when the event meets a condition. -/
def nextWhen (ok : State T → Event T → Bool) (s : State T × Tally) (e : Event T) :
    Option (State T × Tally) :=
  if ok s.1 e then (s.1.exec e).map fun r => (r.1, s.2.record s.1 e r.2) else none

/-- Such a step is a step of the system. -/
theorem system_step_of_nextWhen {ok : State T → Event T → Bool} {s s' : State T × Tally} {e : Event T}
    (h : nextWhen ok s e = some s') : ok s.1 e = true ∧ (system T).step s e s' := by
  simp only [nextWhen, ite_none_right_eq_some] at h
  obtain ⟨⟨s1, ret⟩, hexec, rfl⟩ := map_eq_some_iff.mp h.2
  exact ⟨h.1, ret, hexec, rfl⟩

/-- Two threads with their priorities, before they are started. -/
def bootTwo (priority : Fin 2 → ℕ) : State (Fin 2) × Tally :=
  (.boot 32 priority fun _ => 10, ⟨fun _ => 0, fun _ => 0⟩)

/-- A thread waits and is woken by an interrupt; it returns `RT_EOK`. -/
theorem completions_counted_woken : ∃ s : State (Fin 2) × Tally,
    ((system (Fin 2)).guarded fun s e => Orderly s.1 e).Reachable s ∧ s.2.oks 0 = 1 ∧
      s.2.oks 0 ≤ s.2.dones 0 :=
  Reachable.exists_and (Reachable.exists_run
    (nextWhen fun s e => decide (Orderly s e))
    [.startup 0, .schedulerStart, .startup 1, .wait 0 5, .isrDone 0, .proceed]
    (.init (s := bootTwo ![20, 10]) ⟨⟨32, ![20, 10], fun _ => 10, by decide, by decide, rfl⟩, rfl⟩)
    (fun _ _ _ _ _ h => (system_step_of_nextWhen h).imp_left of_decide_eq_true)) fun _ hreach _ =>
    (completions_counted hreach 0).1

/-- A completion that is lost, and one that is taken twice. In the first run the timer of the waiter has
expired when the done comes; the waiter times out and clears the flag. In the second the done wakes the
waiter, and before it runs the other thread takes the flag; both return `RT_EOK`. -/
theorem completion_lost_or_doubled :
    (∃ s : State (Fin 2) × Tally, (system (Fin 2)).Reachable s ∧ s.1.Quiescent ∧
      s.2.dones 0 ≠ s.2.oks 0 + if (s.1.word 0).flag then 1 else 0) ∧
    ∃ s : State (Fin 2) × Tally, (system (Fin 2)).Reachable s ∧ ¬ s.2.oks 0 ≤ s.2.dones 0 := by
  have hinit : ∀ {priority : Fin 2 → ℕ}, (∀ t, priority t < 32) →
      (system (Fin 2)).Reachable (bootTwo priority) := fun hprio =>
    .init ⟨⟨32, _, fun _ => 10, by decide, hprio, rfl⟩, rfl⟩
  constructor
  · exact (hinit (by decide)).exists_run (s := bootTwo ![20, 10])
      (P := fun s => (∀ t, s.1.pc t = .idle) ∧ s.2.dones 0 ≠ s.2.oks 0 + if (s.1.word 0).flag then 1 else 0)
      (nextWhen fun _ _ => true) [.startup 0, .schedulerStart, .startup 1, .wait 0 5, .timerDue 1,
        .isrDone 0, .timeout 1, .proceed]
      (fun _ _ _ _ _ h => (system_step_of_nextWhen h).2)
  · exact (hinit (by decide)).exists_run (s := bootTwo ![10, 10]) (nextWhen fun _ _ => true)
      [.startup 0, .startup 1, .schedulerStart, .wait 0 (-1), .isrDone 0, .wait 0 0, .yield, .proceed]
      (fun _ _ _ _ _ h => (system_step_of_nextWhen h).2)

end RtThread.Completion
