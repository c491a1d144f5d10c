import RtThread.Lib.Transition
import RtThread.RingBuffer.Refinement

/-!
# What a write to a pipe returns

`pipe_fops_write` of `rt-thread/components/drivers/ipc/pipe.c`, with and without `O_NONBLOCK`, among other
writes and the `rt_ringbuffer_get` of reads. A section under the mutex is one step, and a wait may end at any
time, by a signal or not. A signal makes the call return `-EINTR`, also when some of its bytes are already in
the ring buffer.
-/

namespace RtThread.Pipe.Written

open Lib TransitionSystem RingBuffer Function

/-- A write of `buf` that has counted `ret` bytes, and by how much it has lengthened the data. -/
structure Write where
  nonblock : Bool
  buf : List UInt8
  ret : ℕ
  appended : ℕ
  waits : Bool

/-- What a write returns. -/
inductive Ret where
  | len (n : ℕ)
  | eagain
  | eintr
  deriving DecidableEq

/-- The pipe with the writes in progress, and what the last write of each thread returned and appended. -/
structure State (T : Type*) where
  fifo : RingBuffer
  call : T → Option Write
  result : T → Option (Ret × ℕ)

/-- One event: some read gets up to `count` bytes, or a thread calls `pipe_fops_write`, puts bytes under the
mutex or ends its wait on `writer_queue`. -/
inductive Event (T : Type*) where
  | get (count : ℕ)
  | write (thread : T) (nonblock : Bool) (buf : List UInt8)
  | put (thread : T)
  | wake (thread : T) (signal : Bool)

variable {T : Type*} [DecidableEq T]

/-- The write of a thread goes on. -/
def State.goto (s : State T) (t : T) (w : Write) : State T := { s with call := update s.call t (some w) }

/-- The write of a thread returns. -/
def State.returns (s : State T) (t : T) (ret : Ret) (appended : ℕ) : State T :=
  { s with call := update s.call t none, result := update s.result t (some (ret, appended)) }

/-- The state after an event; there is none after an `int` has overflowed. -/
def next (s : State T) : Event T → Option (State T)
  | .get count => some { s with fifo := (s.fifo.rtRingbufferGet (toUint32 count)).1 }
  | .write t nonblock buf =>
    if s.call t ≠ none then none
    else some (if buf.length = 0 then s.returns t (.len 0) 0 else s.goto t ⟨nonblock, buf, 0, 0, false⟩)
  | .put t => (s.call t).bind fun w =>
    let r := s.fifo.rtRingbufferPut ((w.buf.drop w.ret).take (toUint32 (w.buf.length - w.ret)))
    let ret := w.ret + r.2
    let appended := w.appended + (r.1.rtRingbufferDataLen - s.fifo.rtRingbufferDataLen)
    let s := { s with fifo := r.1 }
    if w.waits ∨ 2 ^ 31 ≤ ret then none
    else if ret = w.buf.length then some (s.returns t (.len ret) appended)
    else if w.nonblock then some (s.returns t (if ret = 0 then .eagain else .len ret) appended)
    else some (s.goto t { w with ret, appended, waits := true })
  | .wake t signal => (s.call t).bind fun w =>
    if w.waits then some (if signal then s.returns t .eintr w.appended else s.goto t { w with waits := false })
    else none

/-- A pipe with any contents, before the first write. -/
def Opened (s : State T) : Prop :=
  (∃ count, s.fifo.Holds count) ∧ (∀ t, s.call t = none) ∧ ∀ t, s.result t = none

/-- A pipe with the writes and reads of any threads. -/
def system (T : Type*) [DecidableEq T] : TransitionSystem (State T) (Event T) := ofNext Opened next

/-- A write reports what it has appended: the number of bytes, or an error and none. -/
def Ret.Reports : Ret → ℕ → Prop
  | .len n, appended => appended = n
  | _, appended => appended = 0

/-- Every write in progress has counted what it has appended, and every one that has returned reports it. -/
structure Sound (s : State T) : Prop where
  fifo : ∃ queue, s.fifo.Denotes queue
  call : ∀ t, ∀ w ∈ s.call t, w.appended = w.ret
  result : ∀ t, ∀ r ∈ s.result t, r.1.Reports r.2

variable {s s' : State T} {t : T}

/-- A write goes on. -/
theorem Sound.goto (h : Sound s) {w : Write} (hw : w.appended = w.ret) : Sound (s.goto t w) :=
  { h with
    call := (forall_update_iff s.call fun _ o => ∀ w ∈ o, w.appended = w.ret).mpr
      ⟨by rintro _ ⟨⟩; exact hw, fun u _ => h.call u⟩ }

/-- A write returns. -/
theorem Sound.returns (h : Sound s) {ret : Ret} {n : ℕ} (hret : ret.Reports n) : Sound (s.returns t ret n) :=
  { h with
    call := (forall_update_iff s.call fun _ o => ∀ w ∈ o, w.appended = w.ret).mpr
      ⟨nofun, fun u _ => h.call u⟩
    result := (forall_update_iff s.result fun _ o => ∀ r ∈ o, r.1.Reports r.2).mpr
      ⟨by rintro _ ⟨⟩; exact hret, fun u _ => h.result u⟩ }

/-- No signal ends the wait of a write that has appended bytes. -/
def undisturbed (s : State T) : Event T → Bool
  | .wake t true => (s.call t).all (·.ret = 0)
  | _ => true

/-- One step. -/
theorem Sound.next {e : Event T} (h : Sound s) (hok : undisturbed s e = true)
    (hnext : Written.next s e = some s') : Sound s' := by
  obtain ⟨queue, hqueue⟩ := h.fifo
  cases e with
  | get count =>
    cases hnext
    exact { h with fifo := ⟨_, (hqueue.get _).1⟩ }
  | write t nonblock buf =>
    simp only [Written.next] at hnext
    split_ifs at hnext <;> cases hnext
    exacts [h.returns rfl, h.goto rfl]
  | put t =>
    obtain ⟨w, hw, hput⟩ := Option.bind_eq_some_iff.mp hnext
    dsimp only at hput
    generalize (w.buf.drop w.ret).take _ = data at hput
    obtain ⟨hput', hlen⟩ := hqueue.put data
    have hgrown : (s.fifo.rtRingbufferPut data).1.rtRingbufferDataLen - s.fifo.rtRingbufferDataLen
        = (s.fifo.rtRingbufferPut data).2 := by
      rw [hput'.holds.dataLen_eq, hqueue.holds.dataLen_eq, hlen, List.length_append, List.length_take,
        Nat.add_sub_cancel_left, Nat.min_comm]
    have hfifo : Sound { s with fifo := (s.fifo.rtRingbufferPut data).1 } := { h with fifo := ⟨_, hput'⟩ }
    rw [hgrown, h.call t w hw] at hput
    split_ifs at hput with _ _ _ hzero <;> cases hput
    exacts [hfifo.returns rfl, hfifo.returns hzero, hfifo.returns rfl, hfifo.goto rfl]
  | wake t signal =>
    obtain ⟨w, hw, hwake⟩ := Option.bind_eq_some_iff.mp hnext
    have hcall := h.call t w hw
    split_ifs at hwake with _ hsignal <;> cases hwake
    · have hzero : w.ret = 0 := by simpa [undisturbed, hsignal, hw] using hok
      exact h.returns (hcall.trans hzero)
    · exact h.goto hcall

/-- In every run in which no signal ends the wait of a write that has appended bytes, every write returns the
number of bytes that it has appended, or an error if it has appended none. -/
theorem write_reports_appended (h : ((system T).guarded fun s e => undisturbed s e = true).Reachable s)
    {ret : Ret} {n : ℕ} (hresult : s.result t = some (ret, n)) : ret.Reports n := by
  have hsound : Sound s := by
    refine h.invariant ?_ fun s e s' hs hstep => hs.next (And.left hstep) (And.right hstep)
    rintro s ⟨⟨count, hholds⟩, hcall, hresult⟩
    exact ⟨⟨_, hholds.denotes⟩, by simp [hcall], by simp [hresult]⟩
  exact hsound.result t _ hresult

/-- A pipe of four bytes. -/
def ofFour : State (Fin 1) := ⟨emptyOfFour, fun _ => none, fun _ => none⟩

/-- The pipe of four bytes is open. -/
theorem opened_ofFour : Opened ofFour :=
  ⟨⟨0, by decide, by decide, by decide, by decide⟩, fun _ => rfl, fun _ => rfl⟩

/-- A write of six bytes with `O_NONBLOCK` appends four and returns four. -/
theorem write_reports_appended_nonblock : ∃ s : State (Fin 1),
    ((system (Fin 1)).guarded fun s e => undisturbed s e = true).Reachable s ∧
      s.result 0 = some (.len 4, 4) ∧ (Ret.len 4).Reports 4 :=
  (exists_runGuarded [.write 0 true [1, 2, 3, 4, 5, 6], .put 0] opened_ofFour).imp
    fun _ ⟨hreach, hresult⟩ => ⟨hreach, hresult, write_reports_appended hreach hresult⟩

/-- A signal ends the wait of a write of six bytes after four have been appended. -/
theorem write_interrupted :
    ∃ s, (system (Fin 1)).Reachable s ∧ s.result 0 = some (.eintr, 4) ∧ ¬ Ret.eintr.Reports 4 :=
  (Reachable.exists_run next [.write 0 false [1, 2, 3, 4, 5, 6], .put 0, .wake 0 true]
    (.init opened_ofFour) (fun _ _ _ _ _ h => h)).imp
    fun _ ⟨hreach, hresult⟩ => ⟨hreach, hresult, nofun⟩

end RtThread.Pipe.Written
