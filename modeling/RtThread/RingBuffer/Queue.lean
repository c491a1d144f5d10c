import RtThread.RingBuffer.Layout

/-!
# The ring buffer is a bounded byte queue

Each operation is followed on the denoted list of bytes. The operations on one byte compute the same
state as the block operations on a block of one byte, so only the block operations are traced.
-/

namespace RtThread.RingBuffer

open Lib List

/-- The ring buffer denotes the list. -/
structure Denotes (rb : RingBuffer) (queue : List UInt8) : Prop where
  holds : rb.Holds queue.length
  contents_eq : rb.contents = queue

/-- The last `size` elements of a list. -/
def keepLast (size : ℕ) (queue : List UInt8) : List UInt8 := queue.drop (queue.length - size)

variable {rb : RingBuffer} {queue : List UInt8} {count : ℕ}
variable {block : List UInt8} {n : ℕ} {rb' : RingBuffer}

/-- A consistent ring buffer denotes its contents. -/
theorem Holds.denotes (h : rb.Holds count) : rb.Denotes rb.contents :=
  ⟨h.length_contents.symm ▸ h, rfl⟩

/-- A block that fits is put at the end. -/
theorem CopiedIn.denotes (hcopied : CopiedIn rb rb' block)
    (h : rb.Denotes queue) (hroom : queue.length + block.length ≤ rb.bufferSize) :
    rb'.Denotes (queue ++ block) := by
  have hholds := hcopied.holds_append h.holds hroom
  refine ⟨by rwa [length_append], ?_⟩
  have hlist := hcopied.ringList_eq h.holds (Nat.zero_le _) (by omega)
  rw [Nat.add_zero, Nat.mod_eq_of_lt h.holds.read_lt, Nat.sub_zero, drop_zero, h.contents_eq] at hlist
  rw [hholds.contents_eq, hcopied.size, hcopied.readIndex, hlist]

/-- A block that does not fit takes the places of the oldest bytes, if the read index follows the
write index and the mirror bits say that the buffer is full. -/
theorem CopiedIn.denotes_keepLast (hcopied : CopiedIn rb rb' block) (h : rb.Denotes queue)
    (hblock : block.length ≤ rb.bufferSize) (hover : rb.bufferSize < queue.length + block.length)
    {mirror : Bool} (hmirror : mirror = !rb'.writeMirror) :
    ({ rb' with readMirror := mirror, readIndex := rb'.writeIndex } : RingBuffer).Denotes
      (keepLast rb.bufferSize (queue ++ block)) := by
  have hlt := h.holds.write_lt
  have hnew : rb'.writeIndex = (rb.writeIndex + block.length) % rb.bufferSize := by
    obtain ⟨hfit, -, hmove⟩ | ⟨hfit, -, hmove⟩ := hcopied.write
    · rw [hmove, Nat.mod_eq_of_lt hfit]
    · rw [hmove, Nat.mod_eq_sub_mod hfit, Nat.mod_eq_of_lt (by omega)]
  set n := queue.length + block.length - rb.bufferSize with hn
  have hstart : rb'.writeIndex = (rb.readIndex + n) % rb.bufferSize := by
    rw [hnew, h.holds.write_eq, Nat.mod_add_mod, ← Nat.add_mod_right (rb.readIndex + n)]
    congr 1
    omega
  have hholds : ({ rb' with readMirror := mirror, readIndex := rb'.writeIndex } :
      RingBuffer).Holds rb.bufferSize := by
    refine ⟨hcopied.size ▸ h.holds.size_lt, ?_, hcopied.size.ge, .inr ⟨hmirror, ?_⟩⟩
    · rw [hstart, hcopied.size]
      exact Nat.mod_lt _ (by omega)
    · rw [hcopied.size, Nat.add_comm]
  have hlast : keepLast rb.bufferSize (queue ++ block) = queue.drop n ++ block := by
    unfold keepLast
    rw [length_append, drop_append_of_le_length (by omega)]
  have hlength : (queue.drop n ++ block).length = rb.bufferSize := by
    rw [length_append, length_drop]
    omega
  refine ⟨by rwa [hlast, hlength], ?_⟩
  have hlist := hcopied.ringList_eq h.holds (show n ≤ queue.length by omega) (by omega)
  rw [h.contents_eq, show queue.length - n + block.length = rb.bufferSize by omega, ← hstart] at hlist
  rw [hlast, hholds.contents_eq, hcopied.size, hlist]

/-- `rt_ringbuffer_put` copies in what fits. -/
theorem Holds.put_eq (h : rb.Holds count) (data : List UInt8) : rb.rtRingbufferPut data =
    if rb.bufferSize - count = 0 then (rb, 0) else (rb.copyIn (data.take (rb.bufferSize - count)),
      (data.take (rb.bufferSize - count)).length) := by
  simp only [rtRingbufferPut, h.toUint32_spaceLen]
  split_ifs with hfull hless
  · rfl
  · rfl
  · rw [take_of_length_le (by omega)]

/-- `rt_ringbuffer_put` appends the longest prefix that fits. -/
theorem Denotes.put (h : rb.Denotes queue) (data : List UInt8) :
    (rb.rtRingbufferPut data).1.Denotes (queue ++ data.take (rb.bufferSize - queue.length)) ∧
      (rb.rtRingbufferPut data).2 = min data.length (rb.bufferSize - queue.length) := by
  rw [h.holds.put_eq]
  split_ifs with hfull
  · rw [hfull, take_zero, append_nil, Nat.min_zero]
    exact ⟨h, rfl⟩
  · have hlength := length_take (i := rb.bufferSize - queue.length) (l := data)
    exact ⟨(copiedIn_copyIn h.holds (by omega)).denotes h (by omega), by omega⟩

/-- The last bytes are the same when a block longer than the buffer is cut to its end. -/
theorem keepLast_append_keepLast (size : ℕ) (data : List UInt8) :
    keepLast size (queue ++ keepLast size data) = keepLast size (queue ++ data) := by
  unfold keepLast
  rw [length_append, length_append, length_drop]
  by_cases hlong : data.length ≤ size
  · rw [show data.length - size = 0 by omega, drop_zero, Nat.sub_zero]
  · rw [show data.length - (data.length - size) = size by omega, Nat.add_sub_cancel,
      drop_append_of_le_length le_rfl, drop_length, nil_append,
      show queue.length + data.length - size = queue.length + (data.length - size) by omega,
      drop_length_add_append]

/-- Without a longer block, everything is kept. -/
theorem keepLast_of_le {size : ℕ} (h : queue.length ≤ size) : keepLast size queue = queue := by
  unfold keepLast
  rw [Nat.sub_eq_zero_of_le h, drop_zero]

/-- The number of last bytes. -/
theorem length_keepLast (size : ℕ) (queue : List UInt8) :
    (keepLast size queue).length = min queue.length size := by
  unfold keepLast
  rw [length_drop]
  omega

/-- `rt_ringbuffer_put_force` copies in the last bytes of the block, and moves the read index after
the write index when the space is too small. -/
theorem Holds.putForce_eq (h : rb.Holds count) {data : List UInt8}
    (hblock : keepLast rb.bufferSize data = block) (hrb' : rb.copyIn block = rb') :
    rb.rtRingbufferPutForce data = (if block.length > rb.bufferSize - count then { rb' with
          readMirror := if rb.room rb.writeIndex > block.length then rb'.readMirror
            else if rb'.writeIndex ≤ rb'.readIndex then !rb'.readMirror else rb'.readMirror
          readIndex := rb'.writeIndex }
      else rb', block.length) := by
  have hcut : (if data.length > rb.bufferSize then data.drop (data.length - rb.bufferSize)
      else data) = block := by
    rw [← hblock]
    split_ifs with hlong
    · rfl
    · rw [keepLast_of_le (by omega)]
  simp only [rtRingbufferPutForce, h.toUint32_spaceLen, hcut, hrb']
  split_ifs <;> rfl

/-- `rt_ringbuffer_put_force` appends everything and keeps the last bytes. -/
theorem Denotes.putForce (h : rb.Denotes queue) (data : List UInt8) :
    (rb.rtRingbufferPutForce data).1.Denotes (keepLast rb.bufferSize (queue ++ data)) ∧
      (rb.rtRingbufferPutForce data).2 = min data.length rb.bufferSize := by
  have hcount := h.holds.count_le
  have hlength := length_keepLast rb.bufferSize data
  rw [← keepLast_append_keepLast]
  generalize hblock : keepLast rb.bufferSize data = block at *
  have hcopied : CopiedIn rb (rb.copyIn block) block := copiedIn_copyIn h.holds (by omega)
  generalize hrb' : rb.copyIn block = rb' at *
  rw [h.holds.putForce_eq hblock hrb']
  have hlt := h.holds.write_lt
  have hroom := room_eq h.holds.size_lt hlt
  refine ⟨?_, hlength⟩
  by_cases hspace : block.length > rb.bufferSize - queue.length
  · rw [if_pos hspace]
    refine hcopied.denotes_keepLast h (by omega) (by omega) ?_
    rw [hcopied.readMirror, hcopied.readIndex]
    -- the write index passes the read index, so the buffer is full wherever it wraps
    obtain ⟨hmirror, hin, hwrite⟩ | ⟨hmirror, hwrite⟩ := h.holds.write <;>
      obtain ⟨hfit, hmirror', hmove⟩ | ⟨hfit, hmirror', hmove⟩ := hcopied.write
    · omega
    · rw [if_neg (by omega), if_neg (by omega), hmirror', hmirror, Bool.not_not]
    · rw [if_pos (by omega), hmirror', hmirror]
    · rw [if_neg (by omega), if_pos (by omega), hmirror', hmirror]
  · have hfit : queue.length + block.length ≤ rb.bufferSize := by omega
    rw [if_neg hspace, keepLast_of_le (by rwa [length_append])]
    exact hcopied.denotes h hfit

/-- The read index moves over the first `n` bytes, around the end of the buffer if need be. -/
theorem Denotes.advance (h : rb.Denotes queue) {index : ℕ} {mirror : Bool} (hn : n ≤ queue.length)
    (hmove : (rb.readIndex + n < rb.bufferSize ∧ mirror = rb.readMirror ∧ index = rb.readIndex + n) ∨
      (rb.bufferSize ≤ rb.readIndex + n ∧ (mirror = !rb.readMirror) ∧
        index = rb.readIndex + n - rb.bufferSize)) :
    ({ rb with readMirror := mirror, readIndex := index } : RingBuffer).Denotes (queue.drop n) := by
  have hread := h.holds.read_lt
  have hcount := h.holds.count_le
  have hindex : index = (rb.readIndex + n) % rb.bufferSize := by
    obtain ⟨hin, -, heq⟩ | ⟨hwrap, -, heq⟩ := hmove
    · rw [heq, Nat.mod_eq_of_lt hin]
    · rw [heq, Nat.mod_eq_sub_mod hwrap, Nat.mod_eq_of_lt (by omega)]
  have hholds : ({ rb with readMirror := mirror, readIndex := index } : RingBuffer).Holds
      (queue.length - n) := by
    refine ⟨h.holds.size_lt, ?_, Nat.le_trans (Nat.sub_le _ _) hcount, ?_⟩
    · rw [hindex]
      exact Nat.mod_lt _ (by omega)
    · dsimp only
      obtain ⟨hmirror, hin, hwrite⟩ | ⟨hmirror, hwrite⟩ := h.holds.write <;>
        obtain ⟨hmove, rfl, rfl⟩ | ⟨hmove, rfl, rfl⟩ := hmove
      · exact .inl ⟨hmirror, by omega, by omega⟩
      · omega
      · exact .inr ⟨hmirror, by omega⟩
      · exact .inl ⟨by rw [hmirror, Bool.not_not], by omega, by omega⟩
  refine ⟨by rwa [length_drop], ?_⟩
  have hdrop := congrArg (List.drop n) h.contents_eq
  rw [h.holds.contents_eq, ringList_drop, ← hindex] at hdrop
  rw [hholds.contents_eq, ← hdrop]

/-- The bytes up to the end of the buffer are read in one piece. -/
theorem read_eq_ringList (hn : rb.readIndex + n ≤ rb.bufferSize) :
    rb.mem.read (rb.bufferPtr + rb.readIndex) n =
      ringList (fun i => rb.mem (rb.bufferPtr + i)) rb.bufferSize rb.readIndex n := by
  refine map_congr_left fun i hi => ?_
  rw [Nat.mod_eq_of_lt (by have := mem_range.mp hi; omega), Nat.add_assoc]

/-- Bytes around the end of the buffer are read in two pieces. -/
theorem read_append_eq_ringList (hread : rb.readIndex < rb.bufferSize)
    (hwrap : rb.bufferSize ≤ rb.readIndex + n) (hn : n ≤ rb.bufferSize) :
    rb.mem.read (rb.bufferPtr + rb.readIndex) (rb.bufferSize - rb.readIndex) ++
        rb.mem.read rb.bufferPtr (n - (rb.bufferSize - rb.readIndex)) =
      ringList (fun i => rb.mem (rb.bufferPtr + i)) rb.bufferSize rb.readIndex n := by
  rw [read_eq_ringList (by omega)]
  conv_rhs => rw [show n = rb.bufferSize - rb.readIndex + (n - (rb.bufferSize - rb.readIndex)) by omega]
  unfold ByteMemory.read ringList
  rw [range_add, map_append, map_map]
  congr 1
  refine map_congr_left fun i hi => ?_
  have hi := mem_range.mp hi
  rw [Function.comp_apply, ← Nat.add_assoc, Nat.add_sub_cancel' hread.le, Nat.add_mod_left,
    Nat.mod_eq_of_lt (by omega)]

/-- A prefix of the denoted list. -/
theorem Denotes.ringList_take (h : rb.Denotes queue) (hn : n ≤ queue.length) :
    ringList (fun i => rb.mem (rb.bufferPtr + i)) rb.bufferSize rb.readIndex n = queue.take n := by
  rw [← h.contents_eq, h.holds.contents_eq, Lib.ringList_take, Nat.min_eq_left hn]

/-- `rt_ringbuffer_get` removes and returns a prefix. -/
theorem Denotes.get (h : rb.Denotes queue) (length : ℕ) :
    (rb.rtRingbufferGet length).1.Denotes (queue.drop length) ∧
      (rb.rtRingbufferGet length).2.1 = queue.take length ∧
      (rb.rtRingbufferGet length).2.2 = min length queue.length := by
  have hsize := h.holds.size_lt
  have hread := h.holds.read_lt
  have hcount := h.holds.count_le
  have hroom := room_eq hsize hread
  unfold rtRingbufferGet
  dsimp only
  rw [h.holds.dataLen_eq]
  by_cases hempty : queue.length = 0
  · obtain rfl := length_eq_zero_iff.mp hempty
    simpa using h
  have hmin : (if queue.length < length then queue.length else length) = min length queue.length := by
    split_ifs <;> omega
  have hle : min length queue.length ≤ queue.length := Nat.min_le_right _ _
  have hdrop : queue.drop length = queue.drop (min length queue.length) := by
    rw [drop_eq_drop_iff]
    omega
  have htake : queue.take length = queue.take (min length queue.length) := by
    rw [take_eq_take_iff]
    omega
  rw [hmin, hdrop, htake]
  generalize min length queue.length = n at *
  split_ifs with hin
  · have hindex : toIndex (rb.readIndex + n) = rb.readIndex + n := toIndex_eq hsize (by omega)
    refine ⟨h.advance hle (.inl ⟨by omega, rfl, hindex⟩), ?_, rfl⟩
    rw [read_eq_ringList (by omega), h.ringList_take hle]
  · rw [hroom] at hin ⊢
    have hindex : toIndex (n - (rb.bufferSize - rb.readIndex)) = rb.readIndex + n - rb.bufferSize := by
      rw [toIndex_eq hsize (by omega)]
      omega
    refine ⟨h.advance hle (.inr ⟨by omega, rfl, hindex⟩), ?_, rfl⟩
    rw [read_append_eq_ringList hread (by omega) (by omega), h.ringList_take hle]

end RtThread.RingBuffer
