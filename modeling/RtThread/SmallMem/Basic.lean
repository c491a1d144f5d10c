import RtThread.Lib.ByteMemory
import RtThread.Target

/-!
# The small-memory allocator

`rt-thread/src/mem.c` keeps its item headers inside the managed memory: each item starts with
`pool_ptr`, `next` and `prev`, one word each, and `next`/`prev` are offsets from `heap_ptr`. The
model keeps that layout, so every header access is a load or a store in a byte memory and the
user data lies between the headers as it does on the target.

An execution returns `none` where an assertion of the source fails or a loop does not end. The
`rt_object` bookkeeping of the heap object, the log output and the statistics that no function
below reads are not part of the model; `RT_USING_MEMTRACE` is off in every configuration.
-/

namespace RtThread.SmallMem

open Lib

/-- `SIZEOF_STRUCT_MEM`: three words, already aligned. -/
abbrev sizeofStructMem : ℕ := 24

/-- `MIN_SIZE`, the three header words as a minimal data size. -/
abbrev minSize : ℕ := 24

/-- `MIN_SIZE_ALIGNED`. -/
abbrev minSizeAligned : ℕ := 24

/-- `struct rt_small_mem` together with the memory it manages.

`self` is the address of the object itself, which items keep in `pool_ptr`; `heapPtr`, `heapEnd`
and `lfree` are addresses, and `used` and `max` are the counters of the `parent` record. -/
structure Heap where
  mem : ByteMemory
  self : ℕ
  heapPtr : ℕ
  heapEnd : ℕ
  lfree : ℕ
  memSizeAligned : ℕ
  used : ℕ
  max : ℕ

namespace Heap

/-- `item->pool_ptr`. -/
def poolPtr (s : Heap) (item : ℕ) : ℕ := s.mem.load item 8

/-- `item->next`. -/
def next (s : Heap) (item : ℕ) : ℕ := s.mem.load (item + 8) 8

/-- `item->prev`. -/
def prev (s : Heap) (item : ℕ) : ℕ := s.mem.load (item + 16) 8

/-- `item->pool_ptr = v`. -/
def setPoolPtr (s : Heap) (item v : ℕ) : Heap := { s with mem := s.mem.store item 8 v }

/-- `item->next = v`. -/
def setNext (s : Heap) (item v : ℕ) : Heap := { s with mem := s.mem.store (item + 8) 8 v }

/-- `item->prev = v`. -/
def setPrev (s : Heap) (item v : ℕ) : Heap := { s with mem := s.mem.store (item + 16) 8 v }

/-- `MEM_USED(small_mem)`. -/
def memUsed (s : Heap) : ℕ := s.self / 2 * 2 + 1

/-- `MEM_FREED(small_mem)`. -/
def memFreed (s : Heap) : ℕ := s.self / 2 * 2

/-- `MEM_ISUSED(item)`: the low bit of the pool pointer. -/
def memIsUsed (s : Heap) (item : ℕ) : Bool := s.poolPtr item % 2 = 1

/-- `MEM_POOL(item)`. -/
def memPool (s : Heap) (item : ℕ) : ℕ := s.poolPtr item / 2 * 2

/-- Charge `n` bytes and raise the recorded maximum. -/
def addUsed (s : Heap) (n : ℕ) : Heap :=
  let used := wordAdd s.used n
  { s with used := used, max := if s.max < used then used else s.max }

/-- The three assignments with which `plug_holes` lets the item `mem` absorb its successor `nmem`:
drop `nmem`'s pool pointer, link `mem` to what follows and link that back to `mem`. -/
def absorb (s : Heap) (mem nmem : ℕ) : Heap :=
  let s := s.setPoolPtr nmem 0
  let s := s.setNext mem (s.next nmem)
  s.setPrev (s.heapPtr + s.next nmem) (mem - s.heapPtr)

/-- The forward half of `plug_holes`: absorb the next item when it is free and not the end. -/
def plugForward (s : Heap) (mem : ℕ) : Heap :=
  let nmem := s.heapPtr + s.next mem
  if mem ≠ nmem ∧ ¬ s.memIsUsed nmem ∧ nmem ≠ s.heapEnd then
    let s := { s with lfree := if s.lfree = nmem then mem else s.lfree }
    s.absorb mem nmem
  else s

/-- The backward half of `plug_holes`: let the previous item absorb this one when it is free. -/
def plugBackward (s : Heap) (mem : ℕ) : Heap :=
  let pmem := s.heapPtr + s.prev mem
  if pmem ≠ mem ∧ ¬ s.memIsUsed pmem then
    let s := { s with lfree := if s.lfree = mem then pmem else s.lfree }
    s.absorb pmem mem
  else s

/-- `plug_holes`. -/
def plugHoles (s : Heap) (mem : ℕ) : Option Heap := do
  guard (s.heapPtr ≤ mem)
  guard (mem < s.heapEnd)
  return (s.plugForward mem).plugBackward mem

/-- Cut the item at offset `ptr` behind `size` data bytes and make the remainder a free item.

`rt_smem_alloc` and `rt_smem_realloc` perform the same assignments in the same order. -/
def splitItem (s : Heap) (ptr size : ℕ) : Heap :=
  let mem := s.heapPtr + ptr
  let ptr2 := ptr + sizeofStructMem + size
  let mem2 := s.heapPtr + ptr2
  let s := s.setPoolPtr mem2 s.memFreed
  let s := s.setNext mem2 (s.next mem)
  let s := s.setPrev mem2 ptr
  let s := s.setNext mem ptr2
  if s.next mem2 ≠ s.memSizeAligned + sizeofStructMem then
    s.setPrev (s.heapPtr + s.next mem2) ptr2
  else s

/-- The `for` loop of `rt_smem_alloc`: the offset of the first item that is free and holds `size`
data bytes. The inner `none` is the loop's normal end, the outer one exhausted fuel. -/
def findFit (s : Heap) (size : ℕ) : ℕ → ℕ → Option (Option ℕ)
  | 0, _ => none
  | fuel + 1, ptr =>
    if ptr ≤ wordSub s.memSizeAligned size then
      let mem := s.heapPtr + ptr
      if ¬ s.memIsUsed mem ∧ size ≤ wordSub (s.next mem) (wordAdd ptr sizeofStructMem) then
        some (some ptr)
      else findFit s size fuel (s.next mem)
    else some none

/-- The `while` loop that moves `lfree` to the next free item or to the end. -/
def nextFree (s : Heap) : ℕ → ℕ → Option ℕ
  | 0, _ => none
  | fuel + 1, item =>
    if s.memIsUsed item ∧ item ≠ s.heapEnd then nextFree s fuel (s.heapPtr + s.next item)
    else some item

/-- More steps than any walk over the items of the heap takes. -/
def walkFuel (s : Heap) : ℕ := s.memSizeAligned + sizeofStructMem + 1

/-- Split or take whole the item found at `ptr`, charging its bytes. -/
def carve (s : Heap) (size ptr : ℕ) : Heap :=
  let mem := s.heapPtr + ptr
  if wordAdd (wordAdd size sizeofStructMem) minSizeAligned ≤
      wordSub (s.next mem) (wordAdd ptr sizeofStructMem) then
    (s.splitItem ptr size).addUsed (wordAdd size sizeofStructMem)
  else s.addUsed (wordSub (s.next mem) (mem - s.heapPtr))

/-- Refresh `lfree` when the item just taken was the lowest free one. -/
def advanceLfree (s : Heap) (mem : ℕ) : Option Heap :=
  if mem = s.lfree then do
    let lfree ← s.nextFree s.walkFuel s.lfree
    guard (lfree = s.heapEnd ∨ ¬ s.memIsUsed lfree)
    return { s with lfree := lfree }
  else some s

/-- The body of the allocation loop for the item found at `ptr`. -/
def allocAt (s : Heap) (size ptr : ℕ) : Option (Heap × ℕ) := do
  let mem := s.heapPtr + ptr
  let s := s.carve size ptr
  let s := s.setPoolPtr mem s.memUsed
  let s ← s.advanceLfree mem
  guard (mem + sizeofStructMem + size ≤ s.heapEnd)
  guard ((mem + sizeofStructMem) % 8 = 0)
  guard (mem % 8 = 0)
  return (s, mem + sizeofStructMem)

end Heap

/-- The assignments of `rt_smem_init` once the sizes are known: the heap object, one free item over
the whole heap, and the end sentinel. -/
def Heap.format (mem : ByteMemory) (smallMem beginAlign memSize : ℕ) : Heap :=
  let s : Heap :=
    { mem := mem, self := smallMem, heapPtr := beginAlign,
      heapEnd := beginAlign + (memSize + sizeofStructMem), lfree := beginAlign,
      memSizeAligned := memSize, used := 0, max := 0 }
  let s := s.setPoolPtr s.heapPtr s.memFreed
  let s := s.setNext s.heapPtr (s.memSizeAligned + sizeofStructMem)
  let s := s.setPrev s.heapPtr 0
  let s := s.setPoolPtr s.heapEnd s.memUsed
  let s := s.setNext s.heapEnd (s.memSizeAligned + sizeofStructMem)
  s.setPrev s.heapEnd (s.memSizeAligned + sizeofStructMem)

/-- `rt_smem_init`, on memory with arbitrary contents. `objectSize` is
`sizeof(struct rt_small_mem)`; `none` is the `RT_NULL` result. -/
def rtSmemInit (mem : ByteMemory) (objectSize beginAddr size : ℕ) : Option Heap :=
  let smallMem := rtAlign beginAddr
  let startAddr := wordAdd smallMem objectSize
  let beginAlign := rtAlign startAddr
  let endAlign := rtAlignDown (wordAdd beginAddr size)
  if 2 * sizeofStructMem < endAlign ∧ startAddr ≤ wordSub endAlign (2 * sizeofStructMem) then
    some (Heap.format mem smallMem beginAlign
      (wordSub (wordSub endAlign beginAlign) (2 * sizeofStructMem)))
  else none

/-- `rt_smem_alloc`; the returned address 0 is `RT_NULL`. -/
def rtSmemAlloc (s : Heap) (size : ℕ) : Option (Heap × ℕ) :=
  if size = 0 then some (s, 0)
  else do
    guard (s.self ≠ 0)
    let size := rtAlign size
    let size := if size < minSizeAligned then minSizeAligned else size
    if s.memSizeAligned < size then return (s, 0)
    else
      match ← s.findFit size s.walkFuel (s.lfree - s.heapPtr) with
      | some ptr => s.allocAt size ptr
      | none => return (s, 0)

/-- `rt_smem_free` on a block of this heap. -/
def rtSmemFree (s : Heap) (rmem : ℕ) : Option Heap :=
  if rmem = 0 then some s
  else do
    guard (rmem % 8 = 0)
    let mem := rmem - sizeofStructMem
    guard (s.memPool mem ≠ 0)
    guard (s.memIsUsed mem)
    guard (s.heapPtr ≤ rmem ∧ rmem < s.heapEnd)
    guard (s.memPool (s.heapPtr + s.next mem) = s.self)
    let s := s.setPoolPtr mem s.memFreed
    let s := { s with lfree := if mem < s.lfree then mem else s.lfree }
    let s := { s with used := wordSub s.used (wordSub (s.next mem) (mem - s.heapPtr)) }
    s.plugHoles mem

/-- `rt_smem_realloc`. -/
def rtSmemRealloc (s : Heap) (rmem newsize : ℕ) : Option (Heap × ℕ) := do
  guard (s.self ≠ 0)
  let newsize := rtAlign newsize
  if s.memSizeAligned < newsize then return (s, 0)
  else if newsize = 0 then
    let s ← rtSmemFree s rmem
    return (s, 0)
  else if rmem = 0 then rtSmemAlloc s newsize
  else
    guard (rmem % 8 = 0)
    guard (s.heapPtr ≤ rmem)
    guard (rmem < s.heapEnd)
    let mem := rmem - sizeofStructMem
    let ptr := mem - s.heapPtr
    let size := wordSub (wordSub (s.next mem) ptr) sizeofStructMem
    if size = newsize then return (s, rmem)
    else if wordAdd (wordAdd newsize sizeofStructMem) minSize < size then
      let mem2 := s.heapPtr + (ptr + sizeofStructMem + newsize)
      let s := { s with used := wordSub s.used (wordSub size newsize) }
      let s := s.splitItem ptr newsize
      let s := { s with lfree := if mem2 < s.lfree then mem2 else s.lfree }
      let s ← s.plugHoles mem2
      return (s, rmem)
    else
      let (s, nmem) ← rtSmemAlloc s newsize
      if nmem ≠ 0 then
        let s := { s with mem := s.mem.copy nmem rmem (if size < newsize then size else newsize) }
        let s ← rtSmemFree s rmem
        return (s, nmem)
      else return (s, nmem)

end RtThread.SmallMem
