import RtThread.RingBuffer.Queue

/-!
# The ring buffer refines a bounded byte queue

The calls on a ring buffer form a system; what each call does to the denoted list, and what it
returns, is the specification of a byte queue with room for `buffer_size` bytes. `rt_ringbuffer_peek`
hands out a pointer, so what it exposes is the longest prefix that lies in consecutive addresses.
-/

namespace RtThread.RingBuffer

open Lib List Option

variable {rb : RingBuffer} {queue : List UInt8} {count : ℕ}

/-- `rt_ringbuffer_putchar` is `rt_ringbuffer_put` of one byte. -/
theorem Holds.putchar_eq (h : rb.Holds count) (ch : UInt8) :
    rb.rtRingbufferPutchar ch = rb.rtRingbufferPut [ch] := by
  have hsize := h.size_lt
  have hlt := h.write_lt
  have hroom := room_eq hsize hlt
  rw [h.put_eq]
  simp only [rtRingbufferPutchar, h.spaceLen_eq]
  split_ifs with hfull hlast
  · rfl
  all_goals
    rw [take_of_length_le (by rw [length_singleton]; omega)]
    simp only [copyIn, length_singleton]
  · have hwrap : rb.room rb.writeIndex = 1 := by omega
    simp [hwrap, toIndex]
  · rw [if_pos (by omega)]

/-- `rt_ringbuffer_putchar_force` is `rt_ringbuffer_put_force` of one byte. -/
theorem Holds.putcharForce_eq (h : rb.Holds count) (ch : UInt8) :
    rb.rtRingbufferPutcharForce ch = rb.rtRingbufferPutForce [ch] := by
  have hsize := h.size_lt
  have hlt := h.write_lt
  have hcount := h.count_le
  have hroom := room_eq hsize hlt
  have hfull : rb.rtRingbufferStatus = .full ↔ 1 > rb.bufferSize - count := by
    rw [h.status_eq]
    split_ifs <;> simp <;> omega
  rw [h.putForce_eq (keepLast_of_le (by simp; omega)) rfl]
  simp only [rtRingbufferPutcharForce, copyIn, hfull]
  by_cases hlast : rb.writeIndex + 1 = rb.bufferSize
  · have hwrap : rb.room rb.writeIndex = 1 := by omega
    rw [if_pos hlast]
    simp [hwrap, toIndex]
  · have hin : rb.room rb.writeIndex > 1 := by omega
    rw [if_neg hlast]
    simp [hin]

/-- `rt_ringbuffer_getchar` is `rt_ringbuffer_get` of one byte. -/
theorem Holds.getchar_eq (h : rb.Holds count) : rb.rtRingbufferGetchar =
    ((rb.rtRingbufferGet 1).1, (rb.rtRingbufferGet 1).2.1.head?, (rb.rtRingbufferGet 1).2.2) := by
  have hsize := h.size_lt
  have hlt := h.read_lt
  have hroom := room_eq hsize hlt
  simp only [rtRingbufferGetchar, rtRingbufferGet, h.dataLen_eq]
  by_cases hempty : count = 0
  · simp [hempty]
  have hone : (if count < 1 then count else 1) = 1 := if_neg (by omega)
  rw [if_neg hempty, if_neg hempty, hone]
  by_cases hlast : rb.readIndex + 1 = rb.bufferSize
  · have hwrap : rb.room rb.readIndex = 1 := by omega
    rw [if_pos hlast]
    simp [hwrap, toIndex, ByteMemory.read]
  · have hin : rb.room rb.readIndex > 1 := by omega
    rw [if_neg hlast]
    simp [hin, ByteMemory.read]

/-- The address of the `i`-th byte. -/
def address (rb : RingBuffer) (i : ℕ) : ℕ := rb.bufferPtr + (rb.readIndex + i) % rb.bufferSize

/-- The first `n` bytes lie in consecutive addresses. -/
def Contiguous (rb : RingBuffer) (n : ℕ) : Prop := ∀ i < n, rb.address i = rb.address 0 + i

/-- The bytes up to the end of the buffer are contiguous, and no more. -/
theorem Holds.contiguous_iff (h : rb.Holds count) {n : ℕ} :
    rb.Contiguous n ↔ n ≤ rb.bufferSize - rb.readIndex := by
  have hread := h.read_lt
  unfold Contiguous address
  rw [Nat.add_zero, Nat.mod_eq_of_lt hread]
  refine ⟨fun hall => ?_, fun hle i hi => ?_⟩
  · by_contra hlt
    have hwrap := hall (rb.bufferSize - rb.readIndex) (by omega)
    rw [Nat.add_sub_cancel' hread.le, Nat.mod_self] at hwrap
    omega
  · rw [Nat.mod_eq_of_lt (by omega), Nat.add_assoc]

/-- `rt_ringbuffer_peek` removes the bytes up to the end of the buffer, and points to them. -/
theorem Denotes.peek (h : rb.Denotes queue) :
    ∃ n ≤ queue.length, (∀ j ≤ queue.length, rb.Contiguous j ↔ j ≤ n) ∧
      rb.rtRingbufferPeek.1.Denotes (queue.drop n) ∧ rb.rtRingbufferPeek.2.2 = n ∧
      (rb.rtRingbufferPeek.2.1.map fun ptr => rb.mem.read ptr n).getD [] = queue.take n := by
  have hsize := h.holds.size_lt
  have hread := h.holds.read_lt
  have hroom : unsignedSub 64 rb.bufferSize rb.readIndex = rb.bufferSize - rb.readIndex :=
    unsignedSub_of_le hread.le (by omega)
  refine ⟨min queue.length (rb.bufferSize - rb.readIndex), Nat.min_le_left _ _, fun j hj => ?_, ?_⟩
  · rw [h.holds.contiguous_iff]
    omega
  simp only [rtRingbufferPeek, h.holds.dataLen_eq, hroom]
  by_cases hempty : queue.length = 0
  · obtain rfl := length_eq_zero_iff.mp hempty
    simpa using h
  split_ifs with hin
  · rw [Nat.min_eq_left hin.le]
    have hindex : toIndex (rb.readIndex + queue.length) = rb.readIndex + queue.length :=
      toIndex_eq hsize (by omega)
    refine ⟨h.advance le_rfl (.inl ⟨by omega, rfl, hindex⟩), rfl, ?_⟩
    rw [map_some, getD_some, read_eq_ringList (by omega), h.ringList_take le_rfl]
  · have hle : rb.bufferSize - rb.readIndex ≤ queue.length := by omega
    rw [Nat.min_eq_right hle]
    refine ⟨h.advance hle (.inr ⟨by omega, rfl, by omega⟩), rfl, ?_⟩
    rw [map_some, getD_some, read_eq_ringList (by omega), h.ringList_take hle]

/-- A call on a ring buffer. -/
inductive Op where
  | put (data : List UInt8)
  | putForce (data : List UInt8)
  | putchar (ch : UInt8)
  | putcharForce (ch : UInt8)
  | get (length : ℕ)
  | getchar
  | peek
  | reset

/-- The bytes that a call hands out and the size that it returns. -/
structure Result where
  bytes : List UInt8
  size : ℕ
  deriving DecidableEq

/-- One call; the bytes of `rt_ringbuffer_peek` are those at the pointer. -/
def exec (rb : RingBuffer) : Op → RingBuffer × Result
  | .put data => ((rb.rtRingbufferPut data).1, ⟨[], (rb.rtRingbufferPut data).2⟩)
  | .putForce data => ((rb.rtRingbufferPutForce data).1, ⟨[], (rb.rtRingbufferPutForce data).2⟩)
  | .putchar ch => ((rb.rtRingbufferPutchar ch).1, ⟨[], (rb.rtRingbufferPutchar ch).2⟩)
  | .putcharForce ch =>
    ((rb.rtRingbufferPutcharForce ch).1, ⟨[], (rb.rtRingbufferPutcharForce ch).2⟩)
  | .get length =>
    ((rb.rtRingbufferGet length).1, ⟨(rb.rtRingbufferGet length).2.1, (rb.rtRingbufferGet length).2.2⟩)
  | .getchar => (rb.rtRingbufferGetchar.1, ⟨rb.rtRingbufferGetchar.2.1.toList, rb.rtRingbufferGetchar.2.2⟩)
  | .peek =>
    (rb.rtRingbufferPeek.1,
      ⟨(rb.rtRingbufferPeek.2.1.map fun ptr => rb.mem.read ptr rb.rtRingbufferPeek.2.2).getD [],
        rb.rtRingbufferPeek.2.2⟩)
  | .reset => (rb.rtRingbufferReset, ⟨[], 0⟩)

/-- What a call does to a queue of at most `size` bytes; `contiguous` says which prefixes can be
exposed by one pointer. -/
def Op.Spec (size : ℕ) (contiguous : ℕ → Prop) (queue : List UInt8) (result : Result)
    (queue' : List UInt8) : Op → Prop
  | .put data => queue' = queue ++ data.take (size - queue.length) ∧
      result = ⟨[], min data.length (size - queue.length)⟩
  | .putForce data => queue' = keepLast size (queue ++ data) ∧ result = ⟨[], min data.length size⟩
  | .putchar ch => queue' = queue ++ [ch].take (size - queue.length) ∧
      result = ⟨[], min 1 (size - queue.length)⟩
  | .putcharForce ch => queue' = keepLast size (queue ++ [ch]) ∧ result = ⟨[], 1⟩
  | .get length => queue' = queue.drop length ∧
      result = ⟨queue.take length, min length queue.length⟩
  | .getchar => queue' = queue.drop 1 ∧ result = ⟨queue.take 1, min 1 queue.length⟩
  | .peek => ∃ n ≤ queue.length, (∀ j ≤ queue.length, contiguous j ↔ j ≤ n) ∧
      queue' = queue.drop n ∧ result = ⟨queue.take n, n⟩
  | .reset => queue' = [] ∧ result = ⟨[], 0⟩

/-- The buffer stays in its place, and nothing is written outside it. -/
structure SameBuffer (rb rb' : RingBuffer) : Prop where
  ptr : rb'.bufferPtr = rb.bufferPtr
  size : rb'.bufferSize = rb.bufferSize
  outside : ∀ a, a < rb.bufferPtr ∨ rb.bufferPtr + rb.bufferSize ≤ a → rb'.mem a = rb.mem a

/-- Copying in writes only the buffer. -/
theorem CopiedIn.sameBuffer {rb' : RingBuffer} {block : List UInt8} (h : CopiedIn rb rb' block) :
    SameBuffer rb rb' :=
  { h with }

/-- `rt_ringbuffer_put` writes only the buffer. -/
theorem Holds.sameBuffer_put (h : rb.Holds count) (data : List UInt8) :
    SameBuffer rb (rb.rtRingbufferPut data).1 := by
  rw [h.put_eq]
  split_ifs
  · exact ⟨rfl, rfl, fun _ _ => rfl⟩
  · refine (copiedIn_copyIn h ?_).sameBuffer
    rw [length_take]
    omega

/-- `rt_ringbuffer_put_force` writes only the buffer. -/
theorem Holds.sameBuffer_putForce (h : rb.Holds count) (data : List UInt8) :
    SameBuffer rb (rb.rtRingbufferPutForce data).1 := by
  have hlength_le : (keepLast rb.bufferSize data).length ≤ rb.bufferSize := by
    rw [length_keepLast]
    omega
  have hcopied := copiedIn_copyIn h hlength_le
  rw [h.putForce_eq rfl rfl]
  split_ifs <;> exact { hcopied with }

/-- `rt_ringbuffer_get` writes nothing in memory. -/
theorem Holds.sameBuffer_get (h : rb.Holds count) (length : ℕ) :
    SameBuffer rb (rb.rtRingbufferGet length).1 := by
  simp only [rtRingbufferGet]
  split_ifs <;> exact ⟨rfl, rfl, fun _ _ => rfl⟩

/-- Every call writes only the buffer. -/
theorem Holds.sameBuffer_exec (h : rb.Holds count) (op : Op) : SameBuffer rb (rb.exec op).1 := by
  cases op with simp only [RingBuffer.exec]
  | put data => exact h.sameBuffer_put data
  | putForce data => exact h.sameBuffer_putForce data
  | putchar ch =>
    rw [h.putchar_eq]
    exact h.sameBuffer_put _
  | putcharForce ch =>
    rw [h.putcharForce_eq]
    exact h.sameBuffer_putForce _
  | get length => exact h.sameBuffer_get length
  | getchar =>
    rw [h.getchar_eq]
    exact h.sameBuffer_get 1
  | peek =>
    simp only [rtRingbufferPeek]
    split_ifs <;> exact ⟨rfl, rfl, fun _ _ => rfl⟩
  | reset => exact ⟨rfl, rfl, fun _ _ => rfl⟩

/-- Every call follows the queue. -/
theorem Denotes.exec (h : rb.Denotes queue) (op : Op) : ∃ queue', (rb.exec op).1.Denotes queue' ∧
    op.Spec rb.bufferSize rb.Contiguous queue (rb.exec op).2 queue' := by
  cases op with
  | put data =>
    have hput := h.put data
    simp only [RingBuffer.exec]
    exact ⟨_, hput.1, rfl, congrArg _ hput.2⟩
  | putForce data =>
    have hput := h.putForce data
    simp only [RingBuffer.exec]
    exact ⟨_, hput.1, rfl, congrArg _ hput.2⟩
  | putchar ch =>
    have hput := h.put [ch]
    rw [← h.holds.putchar_eq] at hput
    simp only [RingBuffer.exec]
    exact ⟨_, hput.1, rfl, congrArg _ hput.2⟩
  | putcharForce ch =>
    have hput := h.putForce [ch]
    have hread := h.holds.read_lt
    rw [← h.holds.putcharForce_eq, length_singleton, Nat.min_eq_left (by omega)] at hput
    simp only [RingBuffer.exec]
    exact ⟨_, hput.1, rfl, congrArg _ hput.2⟩
  | get length =>
    obtain ⟨hqueue, hbytes, hsize⟩ := h.get length
    simp only [RingBuffer.exec]
    exact ⟨_, hqueue, rfl, congrArg₂ _ hbytes hsize⟩
  | getchar =>
    obtain ⟨hqueue, hbytes, hsize⟩ := h.get 1
    simp only [RingBuffer.exec, h.holds.getchar_eq]
    refine ⟨_, hqueue, rfl, congrArg₂ _ ?_ hsize⟩
    rw [hbytes]
    cases queue <;> rfl
  | peek =>
    obtain ⟨n, hn, hlongest, hqueue, hsize, hbytes⟩ := h.peek
    simp only [RingBuffer.exec]
    rw [hsize, hbytes]
    exact ⟨_, hqueue, n, hn, hlongest, rfl, rfl⟩
  | reset =>
    have hread := h.holds.read_lt
    have hreset : rb.rtRingbufferReset.Holds 0 :=
      ⟨h.holds.size_lt, Nat.zero_lt_of_lt hread, Nat.zero_le _, .inl ⟨rfl, Nat.zero_lt_of_lt hread, rfl⟩⟩
    exact ⟨[], ⟨hreset, length_eq_zero_iff.mp hreset.length_contents⟩, rfl, rfl⟩

/-- The calls on a ring buffer that was initialised or reset, with their results. -/
def ringSystem : TransitionSystem RingBuffer (Op × Result) where
  init rb := 0 < rb.bufferSize ∧ rb.bufferSize < 2 ^ 31 ∧ rb.rtRingbufferReset = rb
  step rb call rb' := rb.exec call.1 = (rb', call.2)

/-- An initialised ring buffer is empty. -/
theorem ringSystem_init_of_init {rb' : RingBuffer} {pool : ℕ} {size : ℤ}
    (hsize : 8 ≤ size) (hlt : size < 2 ^ 31) (h : rb.rtRingbufferInit pool size = some rb') :
    ringSystem.init rb' := by
  unfold rtRingbufferInit at h
  rw [if_pos (by omega), some.injEq] at h
  subst h
  refine ⟨?_, ?_, rfl⟩ <;> simp only [rtAlignDown] <;> omega

/-- Every reachable ring buffer is consistent. -/
theorem holds_of_reachable (hreach : ringSystem.Reachable rb) : ∃ count, rb.Holds count := by
  refine hreach.invariant (I := fun rb => ∃ count, rb.Holds count) ?_ ?_
  · rintro rb ⟨hpos, hlt, hreset⟩
    refine ⟨0, hlt, ?_, Nat.zero_le _, .inl ?_⟩ <;> rw [← hreset]
    · exact hpos
    · exact ⟨rfl, hpos, rfl⟩
  · rintro rb call rb' ⟨count, h⟩ hstep
    obtain ⟨queue', hqueue', -⟩ := h.denotes.exec call.1
    rw [show rb.exec call.1 = (rb', call.2) from hstep] at hqueue'
    exact ⟨_, hqueue'.holds⟩

/-- **The ring buffer refines a bounded byte queue.** Whatever calls were made on it, a ring buffer
denotes a list of `rt_ringbuffer_data_len` bytes, its indices are inside the buffer, and every further
call does to the list, and returns, what the queue of `buffer_size` bytes specifies. -/
theorem ring_buffer_refines_queue (hreach : ringSystem.Reachable rb) :
    rb.contents.length = rb.rtRingbufferDataLen ∧ rb.rtRingbufferDataLen ≤ rb.bufferSize ∧
      rb.readIndex < rb.bufferSize ∧ rb.writeIndex < rb.bufferSize ∧
      ∀ op : Op, SameBuffer rb (rb.exec op).1 ∧
        op.Spec rb.bufferSize rb.Contiguous rb.contents (rb.exec op).2 (rb.exec op).1.contents := by
  obtain ⟨count, h⟩ := holds_of_reachable hreach
  refine ⟨?_, h.dataLen_eq.trans_le h.count_le, h.read_lt, h.write_lt, fun op =>
    ⟨h.sameBuffer_exec op, ?_⟩⟩
  · rw [h.length_contents, h.dataLen_eq]
  · obtain ⟨queue', hqueue', hspec⟩ := h.denotes.exec op
    rwa [hqueue'.contents_eq]

/-- The ring buffer after a sequence of calls. -/
def run (rb : RingBuffer) (ops : List Op) : RingBuffer := ops.foldl (fun rb op => (rb.exec op).1) rb

/-- A sequence of calls leads to a reachable ring buffer. -/
theorem reachable_run (hreach : ringSystem.Reachable rb) (ops : List Op) :
    ringSystem.Reachable (rb.run ops) := by
  induction ops generalizing rb with
  | nil => exact hreach
  | cons op ops ih =>
    have hstep : ringSystem.step rb (op, (rb.exec op).2) (rb.exec op).1 := rfl
    exact ih (hreach.step hstep)

/-- An empty buffer of four bytes. -/
def emptyOfFour : RingBuffer :=
  { mem := fun _ => 0, bufferPtr := 0, readMirror := false, readIndex := 0, writeMirror := false
    writeIndex := 0, bufferSize := 4 }

/-- Three bytes are put, two taken, and five forced in: the last four are kept, around the end. -/
theorem ring_buffer_refines_queue_wrapped :
    let rb := emptyOfFour.run [.put [1, 2, 3], .get 2, .putForce [4, 5, 6, 7, 8]]
    rb.contents = [5, 6, 7, 8] ∧ rb.readIndex = 3 ∧ rb.contents.length = rb.rtRingbufferDataLen ∧
      Op.peek.Spec 4 rb.Contiguous rb.contents (rb.exec .peek).2 (rb.exec .peek).1.contents := by
  intro rb
  have hreach : ringSystem.Reachable rb :=
    reachable_run (.init ⟨by decide, by decide, rfl⟩) _
  have hrefines := ring_buffer_refines_queue hreach
  exact ⟨by decide, by decide, hrefines.1, (hrefines.2.2.2.2 .peek).2⟩

end RtThread.RingBuffer
