import RtThread.Lib.Deque
import RtThread.RingBuffer.Basic

/-!
# The layout of a ring buffer

The bytes of a ring buffer lie in consecutive places from the read index on, around the end of the
buffer. The write index is the place after the last one, and the mirror bits agree as long as it has
not wrapped. Each move of an index is one of the moves below.
-/

namespace RtThread.RingBuffer

open Lib List Nat ByteMemory

/-- The ring buffer holds `count` bytes: the indices and mirror bits say so. -/
structure Holds (rb : RingBuffer) (count : ℕ) : Prop where
  size_lt : rb.bufferSize < 2 ^ 31
  read_lt : rb.readIndex < rb.bufferSize
  count_le : count ≤ rb.bufferSize
  write : (rb.readMirror = rb.writeMirror ∧ rb.readIndex + count < rb.bufferSize ∧
      rb.writeIndex = rb.readIndex + count) ∨
    (rb.readMirror = !rb.writeMirror ∧ rb.readIndex + count = rb.bufferSize + rb.writeIndex)

/-- The bytes that the ring buffer denotes, the next one to be read first. -/
def contents (rb : RingBuffer) : List UInt8 :=
  ringList (fun i => rb.mem (rb.bufferPtr + i)) rb.bufferSize rb.readIndex rb.rtRingbufferDataLen

variable {rb : RingBuffer} {count : ℕ}

namespace Holds

section

variable (h : rb.Holds count)
include h

/-- The write index is inside the buffer. -/
theorem write_lt : rb.writeIndex < rb.bufferSize := by
  have hread := h.read_lt
  have hcount := h.count_le
  obtain ⟨-, hlt, hwrite⟩ | ⟨-, hwrite⟩ := h.write <;> omega

/-- The write index is the place after the last byte. -/
theorem write_eq : rb.writeIndex = (rb.readIndex + count) % rb.bufferSize := by
  have hlt := h.write_lt
  obtain ⟨-, hin, hwrite⟩ | ⟨-, hwrite⟩ := h.write
  · rw [mod_eq_of_lt hin, hwrite]
  · rw [hwrite, add_mod_left, mod_eq_of_lt hlt]

/-- The status says whether the buffer is empty or full. -/
theorem status_eq : rb.rtRingbufferStatus =
    if count = 0 then .empty else if count = rb.bufferSize then .full else .halffull := by
  have hread := h.read_lt
  unfold rtRingbufferStatus
  obtain ⟨hmirror, hin, hwrite⟩ | ⟨hmirror, hwrite⟩ := h.write
  · rw [if_pos hmirror]
    by_cases hzero : count = 0
    · rw [if_pos (by omega), if_pos hzero]
    · rw [if_neg (by omega), if_neg hzero, if_neg (by omega)]
  · have hne : rb.readMirror ≠ rb.writeMirror := by simp [hmirror]
    have hpos : count ≠ 0 := by omega
    rw [if_neg hne, if_neg hpos]
    by_cases hfull : count = rb.bufferSize
    · rw [if_pos (by omega), if_pos hfull]
    · rw [if_neg (by omega), if_neg hfull]

/-- `rt_ringbuffer_data_len` is the number of bytes. -/
theorem dataLen_eq : rb.rtRingbufferDataLen = count := by
  have hsize := h.size_lt
  have hcount := h.count_le
  have hlt := h.write_lt
  unfold rtRingbufferDataLen
  rw [h.status_eq]
  by_cases hzero : count = 0
  · rw [if_pos hzero, hzero]
  by_cases hfull : count = rb.bufferSize
  · rw [if_neg hzero, if_pos hfull, hfull]
  rw [if_neg hzero, if_neg hfull]
  dsimp only
  obtain ⟨-, hin, hwrite⟩ | ⟨-, hwrite⟩ := h.write
  · rw [if_pos (by omega), unsignedSub_of_le (by omega) (by omega)]
    omega
  · rw [if_neg (by omega), unsignedSub_of_le (a := rb.readIndex) (by omega) (by omega),
      unsignedSub_of_le (by omega) (by omega)]
    omega

/-- `rt_ringbuffer_space_len` is the number of bytes that fit. -/
theorem spaceLen_eq : rb.rtRingbufferSpaceLen = rb.bufferSize - count := by
  have hsize := h.size_lt
  unfold rtRingbufferSpaceLen
  rw [h.dataLen_eq, unsignedSub_of_le h.count_le (by omega)]

/-- The space fits an `rt_uint32_t`. -/
theorem toUint32_spaceLen : toUint32 rb.rtRingbufferSpaceLen = rb.bufferSize - count := by
  have hsize := h.size_lt
  rw [h.spaceLen_eq, toUint32, mod_eq_of_lt (by omega)]

/-- The denoted list has as many bytes as the buffer holds. -/
theorem contents_eq : rb.contents =
    ringList (fun i => rb.mem (rb.bufferPtr + i)) rb.bufferSize rb.readIndex count := by
  unfold contents
  rw [h.dataLen_eq]

/-- The length of the denoted list. -/
theorem length_contents : rb.contents.length = count := by
  rw [h.contents_eq, length_ringList]

end

end Holds

/-- The room after an index of the buffer. -/
theorem room_eq (hsize : rb.bufferSize < 2 ^ 31) {index : ℕ} (hindex : index < rb.bufferSize) :
    rb.room index = rb.bufferSize - index :=
  unsignedSub_of_le hindex.le (by omega)

/-- An index of the buffer fits its field. -/
theorem toIndex_eq {n : ℕ} (hsize : rb.bufferSize < 2 ^ 31) (hn : n < rb.bufferSize) : toIndex n = n :=
  mod_eq_of_lt (by omega)

/-- The ring buffer after a block was copied in from the write index on. -/
structure CopiedIn (rb rb' : RingBuffer) (block : List UInt8) : Prop where
  ptr : rb'.bufferPtr = rb.bufferPtr
  size : rb'.bufferSize = rb.bufferSize
  readMirror : rb'.readMirror = rb.readMirror
  readIndex : rb'.readIndex = rb.readIndex
  write : (rb.writeIndex + block.length < rb.bufferSize ∧ rb'.writeMirror = rb.writeMirror ∧
      rb'.writeIndex = rb.writeIndex + block.length) ∨
    (rb.bufferSize ≤ rb.writeIndex + block.length ∧ rb'.writeMirror = (!rb.writeMirror) ∧
      rb'.writeIndex = rb.writeIndex + block.length - rb.bufferSize)
  new : ∀ i (h : i < block.length),
    rb'.mem (rb.bufferPtr + (rb.writeIndex + i) % rb.bufferSize) = block[i]
  old : ∀ place < rb.bufferSize, (∀ i < block.length, (rb.writeIndex + i) % rb.bufferSize ≠ place) →
    rb'.mem (rb.bufferPtr + place) = rb.mem (rb.bufferPtr + place)
  outside : ∀ a, a < rb.bufferPtr ∨ rb.bufferPtr + rb.bufferSize ≤ a → rb'.mem a = rb.mem a

/-- A block no longer than the buffer is copied in, in one piece or two. -/
theorem copiedIn_copyIn (h : rb.Holds count) {block : List UInt8}
    (hblock : block.length ≤ rb.bufferSize) : CopiedIn rb (rb.copyIn block) block := by
  have hsize := h.size_lt
  have hlt := h.write_lt
  have hroom := room_eq hsize hlt
  unfold copyIn
  dsimp only
  split_ifs with hin
  · have hfit : rb.writeIndex + block.length < rb.bufferSize := by omega
    refine ⟨rfl, rfl, rfl, rfl, .inl ⟨hfit, rfl, toIndex_eq hsize hfit⟩, ?_, ?_, ?_⟩
    · intro i hi
      rw [mod_eq_of_lt (by omega), ← add_assoc]
      exact write_of_inside hi
    · intro place hplace hne
      refine write_of_outside ?_
      by_contra hinside
      refine hne (place - rb.writeIndex) (by omega) ?_
      rw [mod_eq_of_lt (by omega)]
      omega
    · intro a ha
      exact write_of_outside (by omega)
  · have hmove : block.length - rb.room rb.writeIndex =
        rb.writeIndex + block.length - rb.bufferSize := by omega
    refine ⟨rfl, rfl, rfl, rfl, .inr ⟨by omega, rfl, ?_⟩, ?_, ?_, ?_⟩
    · rw [hmove]
      exact toIndex_eq hsize (by omega)
    · intro i hi
      dsimp only
      by_cases hfirst : i < rb.room rb.writeIndex
      · -- the second piece ends before the write index, so it keeps the first one
        rw [mod_eq_of_lt (by omega), write_of_outside (by rw [length_drop]; omega), ← add_assoc,
          write_of_inside (by rw [length_take]; omega), getElem_take]
      · have hplace : (rb.writeIndex + i) % rb.bufferSize = i - rb.room rb.writeIndex := by
          rw [mod_eq_sub_mod (by omega), mod_eq_of_lt (by omega)]
          omega
        rw [write_of_inside (by rw [length_drop]; omega), getElem_drop]
        congr 1
        omega
    · intro place hplace hne
      have hfirst : place < rb.writeIndex := by
        by_contra hle
        refine hne (place - rb.writeIndex) (by omega) ?_
        rw [mod_eq_of_lt (by omega)]
        omega
      have hsecond : block.length - rb.room rb.writeIndex ≤ place := by
        by_contra hlt'
        refine hne (place + rb.room rb.writeIndex) (by omega) ?_
        rw [mod_eq_sub_mod (by omega), mod_eq_of_lt (by omega)]
        omega
      dsimp only
      rw [write_of_outside (by rw [length_drop]; omega), write_of_outside (by omega)]
    · intro a ha
      dsimp only
      rw [write_of_outside (by rw [length_drop]; omega), write_of_outside (by rw [length_take]; omega)]

namespace CopiedIn

variable {rb' : RingBuffer} {block : List UInt8}

/-- What the buffer denotes once the first `n` bytes are given up for the block. -/
theorem ringList_eq (hcopied : CopiedIn rb rb' block) (h : rb.Holds count) {n : ℕ} (hn : n ≤ count)
    (hroom : count - n + block.length ≤ rb.bufferSize) :
    ringList (fun i => rb'.mem (rb'.bufferPtr + i)) rb.bufferSize
        ((rb.readIndex + n) % rb.bufferSize) (count - n + block.length) = rb.contents.drop n ++ block := by
  have hpos : 0 < rb.bufferSize := by
    have := h.read_lt
    omega
  have hend : ∀ i, ((rb.readIndex + n) % rb.bufferSize + (count - n) + i) % rb.bufferSize =
      (rb.writeIndex + i) % rb.bufferSize := by
    intro i
    rw [h.write_eq, add_assoc, mod_add_mod, mod_add_mod]
    congr 1
    omega
  rw [h.contents_eq, ringList_drop, hcopied.ptr]
  refine ringList_append (fun i hi => ?_) fun i hi => ?_
  · refine hcopied.old _ (mod_lt _ hpos) fun j hj => ?_
    rw [← hend, add_assoc]
    exact ring_index_ne (by omega) (by omega) (by omega)
  · rw [hend]
    exact hcopied.new i hi

/-- A block that fits is appended. -/
theorem holds_append (hcopied : CopiedIn rb rb' block) (h : rb.Holds count)
    (hroom : count + block.length ≤ rb.bufferSize) : rb'.Holds (count + block.length) := by
  have hread := h.read_lt
  refine ⟨hcopied.size ▸ h.size_lt, ?_, hcopied.size ▸ hroom, ?_⟩
  · rw [hcopied.readIndex, hcopied.size]
    exact hread
  · rw [hcopied.readMirror, hcopied.readIndex, hcopied.size]
    obtain ⟨hmirror, hin, hwrite⟩ | ⟨hmirror, hwrite⟩ := h.write <;>
      obtain ⟨hfit, hmirror', hwrite'⟩ | ⟨hfit, hmirror', hwrite'⟩ := hcopied.write <;>
      rw [hmirror']
    · exact .inl ⟨hmirror, by omega, by omega⟩
    · exact .inr ⟨by simp [hmirror], by omega⟩
    · exact .inr ⟨hmirror, by omega⟩
    · omega

end CopiedIn

end RtThread.RingBuffer
