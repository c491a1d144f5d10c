import RtThread.Kernel.Wakeups

/-!
# Threads that are resumed

What a wake-up does to the wait of each thread: the thread is resumed with an error code, or its wait
goes on as before.
-/

namespace RtThread.Kernel

open Function Waits

/-- An attempt to wake a thread leaves the timers of the others. -/
theorem Waits.ready_canStop_of_ne {T : Type*} [DecidableEq T] {t u : T} (w : Waits T) (h : u ≠ t) :
    (w.ready t).canStop u = w.canStop u := by
  unfold ready canStop
  rw [timerStop_eq]
  split <;> simp [wake, unlink, setSuspended, h]

namespace State

variable {T : Type*} {k k' k'' : State T} {t u : T}
variable {error : ℤ}

theorem Unmoved.trans (h : Unmoved k k' t) (h' : Unmoved k' k'' t) : Unmoved k k'' t :=
  ⟨h'.suspended.trans h.suspended, h'.error.trans h.error,
    fun head hmem => h'.waiting head (h.waiting head hmem)⟩

/-- A thread is resumed by the second of two steps. -/
theorem Unmoved.resumed (h : Unmoved k k' t) (h' : Resumed error k' k'' t) : Resumed error k k'' t :=
  ⟨h.suspended.symm.trans h'.before, h'.suspended, h'.error⟩

/-- A thread is resumed by the first of two steps. -/
theorem Resumed.unmoved (h : Resumed error k k' t) (h' : Unmoved k' k'' t) : Resumed error k k'' t :=
  ⟨h.before, h'.suspended.trans h.suspended, h'.error.trans h.error⟩

/-- Every thread is resumed with the error code, or waits on. -/
structure Resumes (error : ℤ) (k k' : State T) : Prop where
  placed : k'.Placed
  thread : ∀ u, Unmoved k k' u ∨ Resumed error k k' u

theorem Resumes.trans (h : Resumes error k k') (h' : Resumes error k' k'') : Resumes error k k'' := by
  refine ⟨h'.placed, fun u => ?_⟩
  rcases h.thread u with hfirst | hfirst
  · exact (h'.thread u).imp hfirst.trans hfirst.resumed
  · rcases h'.thread u with hrest | hrest
    · exact .inr (hfirst.unmoved hrest)
    · exact absurd (hfirst.suspended.symm.trans hrest.before) (by decide)

variable [DecidableEq T]

/-- An attempt to wake a thread leaves the wait of the others. -/
theorem unmoved_of_ready (hwaits : k'.waits = k.waits.ready t) (hne : u ≠ t)
    (herror : k'.error u = k.error u) : Unmoved k k' u := by
  refine ⟨?_, herror, fun head hmem => ?_⟩
  · rw [hwaits, ready_suspended]
    split
    · exact update_of_ne hne ..
    · rfl
  · rw [hwaits, ready_waiting]
    split
    · exact List.mem_filter.mpr ⟨hmem, by simpa using hne⟩
    · exact hmem

/-- A thread whose timer can be stopped is woken. -/
theorem resumed_of_ready (hwaits : k'.waits = k.waits.ready t)
    (hsusp : k.waits.suspended t = true) (hstop : k.waits.canStop t = true)
    (herror : k'.error t = error) : Resumed error k k' t := by
  refine ⟨hsusp, ?_, herror⟩
  rw [hwaits, ready_suspended, if_pos hstop, update_self]

/-- A thread whose timer cannot be stopped waits on. -/
theorem unmoved_of_not_canStop (hwaits : k'.waits = k.waits.ready t)
    (hstop : k.waits.canStop t = false) (herror : k'.error u = k.error u) : Unmoved k k' u := by
  refine ⟨?_, herror, fun head hmem => ?_⟩
  · rw [hwaits, ready_suspended, hstop, if_neg (by decide)]
  · rw [hwaits, ready_waiting, hstop]
    exact hmem

/-- `rt_susp_list_dequeue` resumes a thread or leaves its wait. -/
theorem rtSuspListDequeue_resumes {head : ListHead} {threadError : ℤ} (h : k.Placed)
    (hwait : head.isWait) (herror : 0 ≤ threadError) :
    Resumes threadError k (k.rtSuspListDequeue head threadError).1 := by
  cases hlist : k.lists head with
  | nil =>
    have hsame : k.rtSuspListDequeue head threadError = (k, none) := by
      unfold rtSuspListDequeue
      rw [hlist]
    rw [hsame]
    exact ⟨h, fun u => .inl (.of_waits rfl rfl)⟩
  | cons t rest =>
    obtain ⟨s, hqueue, hwaits, heq⟩ := rtSuspListDequeue_cons h.queue hwait hlist herror
    have hplaced := h.ready hqueue hwaits
    rw [heq]
    cases hstop : k.waits.canStop t with
    | true =>
      refine ⟨hplaced.congr rfl rfl, fun u => ?_⟩
      by_cases hu : u = t
      · subst hu
        have hsusp := (h.queue.queue.wait u head hwait (hlist ▸ List.mem_cons_self)).2
        exact .inr (resumed_of_ready hwaits hsusp hstop (update_self ..))
      · exact .inl (unmoved_of_ready hwaits hu (update_of_ne hu ..))
    | false => exact ⟨hplaced, fun u => .inl (unmoved_of_not_canStop hwaits hstop rfl)⟩

/-- `rt_susp_list_resume_all` resumes threads or leaves their waits. -/
theorem rtSuspListResumeAll_resumes {head : ListHead} {threadError : ℤ} (h : k.Placed)
    (hwait : head.isWait) (herror : 0 ≤ threadError) :
    Resumes threadError k (k.rtSuspListResumeAll head threadError) :=
  rtSuspListResumeAll_induction ⟨h, fun _ => .inl (.of_waits rfl rfl)⟩
    fun _ hk => hk.trans (rtSuspListDequeue_resumes hk.placed hwait herror)

end State

end RtThread.Kernel
