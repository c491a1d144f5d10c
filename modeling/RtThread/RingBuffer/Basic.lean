import RtThread.Lib.ByteMemory
import RtThread.Target

/-!
# The ring buffer

`rt-thread/components/drivers/ipc/ringbuffer.c`. The two indices are 31-bit fields and each has a
mirror bit that is flipped when the index wraps, so that a full buffer and an empty one differ.
`buffer_size` is an `rt_int32_t`; the differences `buffer_size - index` are computed as `int` and converted
for the comparison with a length. An index is compared with `buffer_size - 1` as an `int`.

A block that the caller puts is a list of bytes, whose length is the length argument; the bytes that
the caller gets are returned.
-/

namespace RtThread

open Lib

/-- `struct rt_ringbuffer` together with the memory of its buffer. -/
structure RingBuffer where
  mem : ByteMemory
  bufferPtr : ℕ
  readMirror : Bool
  readIndex : ℕ
  writeMirror : Bool
  writeIndex : ℕ
  bufferSize : ℕ

namespace RingBuffer

/-- `enum rt_ringbuffer_state`. -/
inductive Status where
  | empty
  | full
  | halffull
  deriving DecidableEq

/-- The value that a 31-bit index field keeps. -/
def toIndex (n : ℕ) : ℕ := n % 2 ^ 31

/-- The value that an `rt_uint32_t` keeps. -/
def toUint32 (n : ℕ) : ℕ := n % 2 ^ 32

/-- A difference, as an unsigned number of `width` bits. -/
def unsignedSub (width a b : ℕ) : ℕ := (((a : ℤ) - b) % 2 ^ width).toNat

/-- `rb->buffer_size - index`, converted to `rt_uint32_t`. -/
def room (rb : RingBuffer) (index : ℕ) : ℕ := unsignedSub 32 rb.bufferSize index

/-- A difference that is not negative is exact. -/
theorem unsignedSub_of_le {width a b : ℕ} (h : b ≤ a) (ha : a < 2 ^ width) :
    unsignedSub width a b = a - b := by
  unfold unsignedSub
  rw [← Int.ofNat_sub h, Int.emod_eq_of_lt (Int.natCast_nonneg _), Int.toNat_natCast]
  have hlt : a - b < 2 ^ width := by omega
  exact_mod_cast hlt

/-- `rt_ringbuffer_status`. -/
def rtRingbufferStatus (rb : RingBuffer) : Status :=
  if rb.readIndex = rb.writeIndex then
    if rb.readMirror = rb.writeMirror then .empty else .full
  else .halffull

/-- `rt_ringbuffer_data_len`. -/
def rtRingbufferDataLen (rb : RingBuffer) : ℕ :=
  match rb.rtRingbufferStatus with
  | .empty => 0
  | .full => rb.bufferSize
  | .halffull =>
    if rb.writeIndex > rb.readIndex then unsignedSub 64 rb.writeIndex rb.readIndex
    else unsignedSub 64 rb.bufferSize (unsignedSub 64 rb.readIndex rb.writeIndex)

/-- `rt_ringbuffer_space_len`. -/
def rtRingbufferSpaceLen (rb : RingBuffer) : ℕ := unsignedSub 64 rb.bufferSize rb.rtRingbufferDataLen

/-- `rt_ringbuffer_reset`. -/
def rtRingbufferReset (rb : RingBuffer) : RingBuffer :=
  { rb with readMirror := false, readIndex := 0, writeMirror := false, writeIndex := 0 }

/-- `rt_ringbuffer_init`; it asserts a positive size. -/
def rtRingbufferInit (rb : RingBuffer) (pool : ℕ) (size : ℤ) : Option RingBuffer :=
  if 0 < size then
    some { rb.rtRingbufferReset with bufferPtr := pool, bufferSize := rtAlignDown size.toNat }
  else none

/-- The copy into the buffer and the move of the write index that `rt_ringbuffer_put` and
`rt_ringbuffer_put_force` share. -/
def copyIn (rb : RingBuffer) (block : List UInt8) : RingBuffer :=
  let room := rb.room rb.writeIndex
  if room > block.length then
    { rb with
      mem := rb.mem.write (rb.bufferPtr + rb.writeIndex) block
      writeIndex := toIndex (rb.writeIndex + block.length) }
  else
    let mem := rb.mem.write (rb.bufferPtr + rb.writeIndex) (block.take room)
    { rb with
      mem := mem.write rb.bufferPtr (block.drop room)
      writeMirror := !rb.writeMirror
      writeIndex := toIndex (block.length - room) }

/-- `rt_ringbuffer_put`. -/
def rtRingbufferPut (rb : RingBuffer) (data : List UInt8) : RingBuffer × ℕ :=
  let size := toUint32 rb.rtRingbufferSpaceLen
  if size = 0 then (rb, 0)
  else
    let data := if size < data.length then data.take size else data
    (rb.copyIn data, data.length)

/-- `rt_ringbuffer_put_force`. -/
def rtRingbufferPutForce (rb : RingBuffer) (data : List UInt8) : RingBuffer × ℕ :=
  let spaceLength := toUint32 rb.rtRingbufferSpaceLen
  let data :=
    if data.length > rb.bufferSize then data.drop (data.length - rb.bufferSize) else data
  let length := data.length
  let rb' := rb.copyIn data
  if rb.room rb.writeIndex > length then
    (if length > spaceLength then { rb' with readIndex := rb'.writeIndex } else rb', length)
  else if length > spaceLength then
    ({ rb' with
      readMirror := if rb'.writeIndex ≤ rb'.readIndex then !rb'.readMirror else rb'.readMirror
      readIndex := rb'.writeIndex }, length)
  else (rb', length)

/-- `rt_ringbuffer_get`, with the bytes that it copies out. -/
def rtRingbufferGet (rb : RingBuffer) (length : ℕ) : RingBuffer × List UInt8 × ℕ :=
  let size := rb.rtRingbufferDataLen
  if size = 0 then (rb, [], 0)
  else
    let length := if size < length then size else length
    let room := rb.room rb.readIndex
    if room > length then
      ({ rb with readIndex := toIndex (rb.readIndex + length) },
        rb.mem.read (rb.bufferPtr + rb.readIndex) length, length)
    else
      ({ rb with readMirror := !rb.readMirror, readIndex := toIndex (length - room) },
        rb.mem.read (rb.bufferPtr + rb.readIndex) room ++ rb.mem.read rb.bufferPtr (length - room),
        length)

/-- `rt_ringbuffer_peek`, with the pointer that it stores. -/
def rtRingbufferPeek (rb : RingBuffer) : RingBuffer × Option ℕ × ℕ :=
  let size := rb.rtRingbufferDataLen
  if size = 0 then (rb, none, 0)
  else
    let ptr := rb.bufferPtr + rb.readIndex
    if unsignedSub 64 rb.bufferSize rb.readIndex > size then
      ({ rb with readIndex := toIndex (rb.readIndex + size) }, some ptr, size)
    else
      ({ rb with readMirror := !rb.readMirror, readIndex := 0 }, some ptr,
        unsignedSub 64 rb.bufferSize rb.readIndex)

/-- `rt_ringbuffer_putchar`. -/
def rtRingbufferPutchar (rb : RingBuffer) (ch : UInt8) : RingBuffer × ℕ :=
  if rb.rtRingbufferSpaceLen = 0 then (rb, 0)
  else
    let mem := rb.mem.write (rb.bufferPtr + rb.writeIndex) [ch]
    if rb.writeIndex + 1 = rb.bufferSize then
      ({ rb with mem := mem, writeMirror := !rb.writeMirror, writeIndex := 0 }, 1)
    else ({ rb with mem := mem, writeIndex := toIndex (rb.writeIndex + 1) }, 1)

/-- `rt_ringbuffer_putchar_force`. -/
def rtRingbufferPutcharForce (rb : RingBuffer) (ch : UInt8) : RingBuffer × ℕ :=
  let oldState := rb.rtRingbufferStatus
  let rb := { rb with mem := rb.mem.write (rb.bufferPtr + rb.writeIndex) [ch] }
  if rb.writeIndex + 1 = rb.bufferSize then
    let rb := { rb with writeMirror := !rb.writeMirror, writeIndex := 0 }
    (if oldState = .full then
      { rb with readMirror := !rb.readMirror, readIndex := rb.writeIndex } else rb, 1)
  else
    let rb := { rb with writeIndex := toIndex (rb.writeIndex + 1) }
    (if oldState = .full then { rb with readIndex := rb.writeIndex } else rb, 1)

/-- `rt_ringbuffer_getchar`, with the byte that it copies out. -/
def rtRingbufferGetchar (rb : RingBuffer) : RingBuffer × Option UInt8 × ℕ :=
  if rb.rtRingbufferDataLen = 0 then (rb, none, 0)
  else
    let ch := rb.mem (rb.bufferPtr + rb.readIndex)
    if rb.readIndex + 1 = rb.bufferSize then
      ({ rb with readMirror := !rb.readMirror, readIndex := 0 }, some ch, 1)
    else ({ rb with readIndex := toIndex (rb.readIndex + 1) }, some ch, 1)

end RingBuffer

end RtThread
