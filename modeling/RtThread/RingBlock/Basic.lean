import Mathlib.Data.List.Basic
import RtThread.Lib.Transition
import RtThread.Target

/-!
# Ring block buffers

`rt-thread/components/drivers/ipc/ringblk_buf.c`. A block descriptor is named by its index in `blk_set`, and
its buffer by its address. The lists hold descriptors; `tail` is the last node of `blk_list`, or nothing
when it points to the list head. Each function runs under the spinlock, so it is one step. A failed
`RT_ASSERT` and an entry of a pointer that is no block have no result.
-/

namespace RtThread.RingBlock

open Lib

/-- `rt_rbb_status_t`. -/
inductive Status where
  | unused
  | inited
  | put
  | get
  deriving DecidableEq

/-- `struct rt_rbb_blk`. -/
structure Blk where
  status : Status
  size : ℕ
  buf : ℕ
  deriving DecidableEq

/-- The address behind a block. -/
def Blk.stop (b : Blk) : ℕ := wordAdd b.buf b.size

/-- `struct rt_rbb`. -/
structure Rbb where
  buf : ℕ
  bufSize : ℕ
  blkMaxNum : ℕ
  blk : ℕ → Blk
  blkList : List ℕ
  tail : Option ℕ
  freeList : List ℕ

namespace Rbb

/-- `rt_rbb_init`: every descriptor is put in front of the free list. -/
def rtRbbInit (buf bufSize blkMaxNum : ℕ) : Rbb where
  buf := buf
  bufSize := bufSize
  blkMaxNum := blkMaxNum
  blk := fun _ => ⟨.unused, 0, 0⟩
  blkList := []
  tail := none
  freeList := (List.range blkMaxNum).reverse

/-- A descriptor is written. -/
def setBlk (s : Rbb) (n : ℕ) (b : Blk) : Rbb := { s with blk := Function.update s.blk n b }

/-- The status of a descriptor is written. -/
def setStatus (s : Rbb) (n : ℕ) (status : Status) : Rbb := s.setBlk n { s.blk n with status := status }

/-- `list_append`, and the descriptor of the new block: it follows the node that `tail` points to. -/
def listAppend (s : Rbb) (n size buf : ℕ) : Rbb :=
  { s.setBlk n ⟨.inited, size, buf⟩ with
    blkList := match s.tail with
      | none => [n]
      | some tail => if tail ∈ s.blkList then s.blkList.takeWhile (· != tail) ++ [tail, n] else s.blkList
    tail := some n }

/-- `list_remove`; the node in front becomes the tail when the last node is removed. -/
def listRemove (s : Rbb) (n : ℕ) : Rbb :=
  { s with
    blkList := s.blkList.erase n
    tail := if n ∈ s.blkList ∧ s.tail = some n then (s.blkList.takeWhile (· != n)).getLast? else s.tail }

/-- The address that `rt_rbb_blk_alloc` finds between the last block and the first. -/
def place (s : Rbb) (head tail : Blk) (blkSize : ℕ) : Option ℕ :=
  if head.buf ≤ tail.buf then
    if blkSize ≤ wordSub (wordAdd s.buf s.bufSize) tail.stop then some tail.stop
    else if blkSize ≤ wordSub head.buf s.buf then some s.buf
    else none
  else if blkSize ≤ wordSub head.buf tail.stop then some tail.stop
  else none

/-- `rt_rbb_blk_alloc`, with `find_empty_blk_in_set`: the descriptor is taken from the free list before
the space is looked for. -/
def rtRbbBlkAlloc (s : Rbb) (blkSize : ℕ) : Option (Rbb × Option ℕ) :=
  if 2 ^ 24 ≤ blkSize then none
  else
    match s.freeList with
    | [] => some (s, none)
    | new :: free =>
      let s := { s with freeList := free }
      if (s.blk new).status ≠ .unused then none
      else
        match s.blkList.head?, s.tail with
        | none, _ => some (s.listAppend new blkSize s.buf, some new)
        | some head, some tail =>
          match s.place (s.blk head) (s.blk tail) blkSize with
          | some buf => some (s.listAppend new blkSize buf, some new)
          | none => some (s, none)
        | some _, none => none

/-- `rt_rbb_blk_put`. -/
def rtRbbBlkPut (s : Rbb) (n : ℕ) : Option Rbb :=
  if (s.blk n).status = .inited then some (s.setStatus n .put) else none

/-- `rt_rbb_blk_get`. -/
def rtRbbBlkGet (s : Rbb) : Rbb × Option ℕ :=
  match s.blkList.find? fun n => (s.blk n).status = .put with
  | some n => (s.setStatus n .get, some n)
  | none => (s, none)

/-- `rt_rbb_blk_free`. -/
def rtRbbBlkFree (s : Rbb) (n : ℕ) : Option Rbb :=
  if (s.blk n).status = .unused then none
  else
    let s := (s.listRemove n).setStatus n .unused
    some { s with freeList := n :: s.freeList }

/-- The loop of `rt_rbb_blk_queue_get`, with the last block that it has taken and the size of those it
has taken. -/
def queueGetLoop (queueDataLen : ℕ) : List ℕ → Option ℕ → ℕ → Rbb → Rbb × ℕ
  | [], _, total, s => (s, total)
  | n :: rest, none, total, s =>
    if (s.blk n).status = .put then
      queueGetLoop queueDataLen rest (some n) (total + (s.blk n).size) (s.setStatus n .get)
    else queueGetLoop queueDataLen rest none total s
  | n :: rest, some last, total, s =>
    if (s.blk n).status ≠ .put ∨ (s.blk n).buf < (s.blk last).buf ∨
        queueDataLen < total + (s.blk n).size then (s, total)
    else queueGetLoop queueDataLen rest (some n) (total + (s.blk n).size) (s.setStatus n .get)

/-- `rt_rbb_blk_queue_get`. -/
def rtRbbBlkQueueGet (s : Rbb) (queueDataLen : ℕ) : Rbb × ℕ :=
  queueGetLoop queueDataLen s.blkList none 0 s

/-- `rt_rbb_blk_queue_free` of a queue with this first block and so many blocks. -/
def rtRbbBlkQueueFree : ℕ → ℕ → Rbb → Option Rbb
  | 0, _, s => some s
  | blkNum + 1, n, s =>
    (s.rtRbbBlkFree n).bind fun s' =>
      match blkNum, (s.blkList.dropWhile (· != n)).tail.head? with
      | 0, _ => some s'
      | blkNum + 1, some next => rtRbbBlkQueueFree (blkNum + 1) next s'
      | _ + 1, none => none

/-- The calls of a program that uses the buffer. -/
inductive Event where
  | alloc (blkSize : ℕ)
  | put (n : ℕ)
  | get
  | free (n : ℕ)
  | queueGet (queueDataLen : ℕ)
  | queueFree (n blkNum : ℕ)

/-- A call. -/
def next (s : Rbb) : Event → Option Rbb
  | .alloc blkSize => (s.rtRbbBlkAlloc blkSize).map Prod.fst
  | .put n => s.rtRbbBlkPut n
  | .get => some s.rtRbbBlkGet.1
  | .free n => s.rtRbbBlkFree n
  | .queueGet queueDataLen => some (s.rtRbbBlkQueueGet queueDataLen).1
  | .queueFree n blkNum => rtRbbBlkQueueFree blkNum n s

/-- The buffer that is initialized is an object in memory. -/
def Initialized (s : Rbb) : Prop :=
  ∃ buf bufSize blkMaxNum, buf + bufSize < 2 ^ 64 ∧ s = rtRbbInit buf bufSize blkMaxNum

/-- All sequences of calls. -/
def system : TransitionSystem Rbb Event := .ofNext Initialized next

end Rbb

end RtThread.RingBlock
