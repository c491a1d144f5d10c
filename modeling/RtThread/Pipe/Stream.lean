import RtThread.Pipe.Wakeups

/-!
# The byte stream of a pipe

The locked sections of `pipe_fops_read` and `pipe_fops_write` among all other steps of the threads, and with
signals: bytes are read in the order in which they are written, and none is lost or read twice.
-/

namespace RtThread.Pipe

open Lib TransitionSystem RingBuffer

variable {T : Type*} [DecidableEq T]

/-- The bytes that an event writes, as many as `rt_ringbuffer_put` reports, and those that it reads. Only a
locked section moves bytes. -/
def moved (s : State T) : Event T → List UInt8 × List UInt8
  | .proceed t =>
    match s.pc t with
    | .holding (.read count) => ([], (s.fifo.rtRingbufferGet (toUint32 count)).2.1)
    | .holding (.write buf ret) =>
      ((buf.drop ret).take (s.fifo.rtRingbufferPut ((buf.drop ret).take (toUint32 (buf.length - ret)))).2, [])
    | _ => ([], [])
  | _ => ([], [])

/-- The bytes that a run writes and those that it reads. -/
def stream : State T → List (Event T) → List UInt8 × List UInt8
  | _, [] => ([], [])
  | s, e :: events => (next s e).elim ([], []) fun s' =>
    ((moved s e).1 ++ (stream s' events).1, (moved s e).2 ++ (stream s' events).2)

variable {s s' : State T} {t : T} {queue : List UInt8}

/-- Outside the locked sections no byte moves. -/
theorem fifo_of_next {e : Event T} (hpc : ∀ t call, e = .proceed t → s.pc t ≠ .holding call)
    (hnext : next s e = some s') : s'.fifo = s.fifo ∧ moved s e = ([], []) := by
  cases e with
  | proceed t =>
    simp only [next, State.threadNext] at hnext
    split at hnext <;>
      grind [moved, State.goto, State.returns, State.setQueue, State.rtWqueueWakeup, State.rtWqueueWait]
  | _ => grind [next, moved, State.goto, State.returns]

/-- One event moves bytes through the queue. -/
theorem next_moved {e : Event T} (h : s.fifo.Denotes queue) (hnext : next s e = some s') :
    ∃ queue', s'.fifo.Denotes queue' ∧ queue ++ (moved s e).1 = (moved s e).2 ++ queue' := by
  by_cases hpc : ∀ t call, e = .proceed t → s.pc t ≠ .holding call
  · obtain ⟨hfifo, hmoved⟩ := fifo_of_next hpc hnext
    exact ⟨queue, hfifo ▸ h, by simp [hmoved]⟩
  push Not at hpc
  obtain ⟨t, call, rfl, hpc⟩ := hpc
  obtain rfl : s.transfer t call = s' := by simpa [next, State.threadNext, hpc] using hnext
  cases call with
  | read count =>
    obtain ⟨hget, htaken, -⟩ := h.get (toUint32 count)
    exact ⟨_, hget, by simp [moved, hpc, htaken]⟩
  | write buf ret =>
    obtain ⟨hput, hlen⟩ := h.put ((buf.drop ret).take (toUint32 (buf.length - ret)))
    refine ⟨_, hput, ?_⟩
    simp only [moved, hpc, hlen, List.nil_append, List.take_take, List.length_take]
    congr 1
    exact List.take_eq_take_iff.mpr (by omega)

/-- In every run, whatever the threads and the signals do, the first contents and the written bytes are the bytes
that were read and those that the ring buffer holds, in order. -/
theorem stream_in_order {events : List (Event T)} (h : s.fifo.Denotes queue)
    (hrun : runEvents next s events = some s') : ∃ queue', s'.fifo.Denotes queue' ∧
      queue ++ (stream s events).1 = (stream s events).2 ++ queue' := by
  induction events generalizing s queue with
  | nil =>
    cases hrun
    exact ⟨queue, h, by simp [stream]⟩
  | cons e events ih =>
    obtain ⟨s₁, hnext, hrest⟩ := Option.bind_eq_some_iff.mp hrun
    obtain ⟨queue₁, hqueue₁, hmoved⟩ := next_moved h hnext
    obtain ⟨queue', hqueue', hstream⟩ := ih hqueue₁ hrest
    refine ⟨queue', hqueue', ?_⟩
    simp only [stream, hnext, Option.elim_some]
    rw [← List.append_assoc, hmoved, List.append_assoc, hstream, List.append_assoc]

/-- A read of two bytes waits for a write of three. -/
theorem stream_in_order_read : ∃ (events : List (Event (Fin 2))) (s' : State (Fin 2)),
    runEvents next ofFour events = some s' ∧ stream ofFour events = ([1, 2, 3], [1, 2]) ∧
    ∃ queue', s'.fifo.Denotes queue' ∧ [] ++ (stream ofFour events).1 = (stream ofFour events).2 ++ queue' := by
  let events : List (Event (Fin 2)) := [.read 0 2] ++ untilAsleep 0 ++ [.write 1 [1, 2, 3]] ++
    List.replicate 6 (.proceed 1) ++ List.replicate 4 (.proceed 0)
  have hempty : RingBuffer.Denotes emptyOfFour [] := ⟨⟨by decide, by decide, by decide, by decide⟩, by decide⟩
  obtain ⟨s', hrun⟩ : ∃ s', runEvents next ofFour events = some s' :=
    Option.isSome_iff_exists.mp (by decide +kernel)
  exact ⟨events, s', hrun, by decide +kernel, stream_in_order hempty hrun⟩

end RtThread.Pipe
