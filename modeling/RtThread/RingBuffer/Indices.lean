import RtThread.RingBuffer.Refinement

/-!
# The indices of the ring buffer

Which bytes of its buffer a call accesses. `rt_ringbuffer_init` rounds the size down to a multiple of
`RT_ALIGN_SIZE`. Of a smaller size nothing is left, and no index is then the last one: each
`rt_ringbuffer_putchar_force` writes one byte further.
-/

namespace RtThread.RingBuffer

variable {rb rb' : RingBuffer} {count pool : ℕ} {size : ℤ}

/-- The indices of a copy from an index on, up to the end of the buffer and then from its front. -/
def copyIndices (rb : RingBuffer) (index length : ℕ) : List ℕ :=
  if rb.room index > length then List.range' index length
  else List.range' index (rb.room index) ++ List.range (length - rb.room index)

/-- The indices of `buffer_ptr` that a call uses; `rt_ringbuffer_peek` takes the address of one. -/
def indices (rb : RingBuffer) : Op → List ℕ
  | .put data =>
    let size := toUint32 rb.rtRingbufferSpaceLen
    if size = 0 then [] else rb.copyIndices rb.writeIndex (min size data.length)
  | .putForce data => rb.copyIndices rb.writeIndex (min rb.bufferSize data.length)
  | .putchar _ => if rb.rtRingbufferSpaceLen = 0 then [] else [rb.writeIndex]
  | .putcharForce _ => [rb.writeIndex]
  | .get length =>
    let size := rb.rtRingbufferDataLen
    if size = 0 then [] else rb.copyIndices rb.readIndex (min size length)
  | .getchar | .peek => if rb.rtRingbufferDataLen = 0 then [] else [rb.readIndex]
  | .reset => []

/-- A consistent ring buffer stays inside its buffer. -/
theorem Holds.indices_lt (h : rb.Holds count) (op : Op) : ∀ i ∈ rb.indices op, i < rb.bufferSize := by
  have hcount := h.count_le
  have hcopy : ∀ {index length}, index < rb.bufferSize → length ≤ rb.bufferSize →
      ∀ i ∈ rb.copyIndices index length, i < rb.bufferSize := by
    intro index length hindex hlength i hi
    have hroom := room_eq h.size_lt hindex
    unfold copyIndices at hi
    split_ifs at hi <;> simp at hi <;> omega
  cases op with simp only [indices, h.dataLen_eq, h.toUint32_spaceLen]
  | putForce data => exact hcopy h.write_lt (by omega)
  | putcharForce ch => simpa using h.write_lt
  | reset => simp
  | put data =>
    split_ifs
    · simp
    · exact hcopy h.write_lt (by omega)
  | get length =>
    split_ifs
    · simp
    · exact hcopy h.read_lt (by omega)
  | putchar ch => split_ifs <;> simp [h.write_lt]
  | getchar | peek => split_ifs <;> simp [h.read_lt]

/-- A sequence of calls keeps a ring buffer consistent and its size. -/
theorem Holds.run (h : rb.Holds count) (ops : List Op) :
    ∃ count', (rb.run ops).Holds count' ∧ (rb.run ops).bufferSize = rb.bufferSize := by
  induction ops generalizing rb count with
  | nil => exact ⟨count, h, rfl⟩
  | cons op ops ih =>
    obtain ⟨queue', hqueue', -⟩ := h.denotes.exec op
    obtain ⟨count', hrun, hsize⟩ := ih hqueue'.holds
    exact ⟨count', hrun, hsize.trans (h.sameBuffer_exec op).size⟩

/-- Without a buffer the write index only grows. -/
theorem writeIndex_putcharForce (hsize : rb.bufferSize = 0) {n : ℕ} (hn : rb.writeIndex + n < 2 ^ 31) :
    (rb.run (List.replicate n (.putcharForce 0))).writeIndex = rb.writeIndex + n := by
  induction n generalizing rb with
  | zero => rfl
  | succ n ih =>
    have hnext : (rb.exec (.putcharForce 0)).1.writeIndex = rb.writeIndex + 1 ∧
        (rb.exec (.putcharForce 0)).1.bufferSize = 0 := by
      have hindex : toIndex (rb.writeIndex + 1) = rb.writeIndex + 1 := Nat.mod_eq_of_lt (by omega)
      simp only [exec, rtRingbufferPutcharForce, hsize, hindex, Nat.add_one_ne_zero, if_false]
      split_ifs <;> exact ⟨rfl, rfl⟩
    refine (ih hnext.2 (by omega)).trans ?_
    omega

/-- All calls on a ring buffer keep to the buffer that was passed to `rt_ringbuffer_init` exactly when it has
`RT_ALIGN_SIZE` bytes. -/
theorem indices_lt_iff (hlt : size < 2 ^ 31) (hinit : rb.rtRingbufferInit pool size = some rb') :
    (∀ ops op, ∀ i ∈ (rb'.run ops).indices op, (i : ℤ) < size) ↔ 8 ≤ size := by
  obtain ⟨hpos, ⟨⟩⟩ := Option.ite_none_right_eq_some.mp hinit
  constructor
  · intro h
    by_contra hsmall
    have hlast := h (List.replicate size.toNat (.putcharForce 0)) (.putcharForce 0) _
      (List.mem_singleton_self _)
    rw [writeIndex_putcharForce] at hlast <;> simp only [rtRingbufferReset, rtAlignDown] at * <;> omega
  · intro hsize ops op i hi
    obtain ⟨hroom, hbound, -⟩ := ringSystem_init_of_init hsize hlt hinit
    obtain ⟨count, hrun, heq⟩ := Holds.run ⟨hbound, hroom, Nat.zero_le _, .inl ⟨rfl, hroom, rfl⟩⟩ ops
    have hindex := (hrun.indices_lt op i hi).trans_eq heq
    simp only [rtAlignDown] at hindex
    omega

/-- A buffer of twelve bytes, of which eight are used. -/
theorem indices_lt_twelve : ∃ rb, emptyOfFour.rtRingbufferInit 0 12 = some rb ∧
    ∀ ops op, ∀ i ∈ (rb.run ops).indices op, (i : ℤ) < 12 :=
  ⟨_, rfl, (indices_lt_iff (by decide) rfl).mpr (by decide)⟩

/-- The fifth `rt_ringbuffer_putchar_force` on a buffer of four bytes writes behind it. -/
theorem indices_beyond_four : ∃ rb, emptyOfFour.rtRingbufferInit 0 4 = some rb ∧
    4 ∈ (rb.run (List.replicate 4 (.putcharForce 0))).indices (.putcharForce 0) :=
  ⟨_, rfl, by decide⟩

end RtThread.RingBuffer
