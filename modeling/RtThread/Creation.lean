import RtThread.Object
import RtThread.Target

/-!
# Creating objects that have a pool

`rt_mq_init`, `rt_mq_create` and `rt_mb_create` of `ipc.c` and `rt_mp_create` of `mempool.c`: what they do to
the object container and to the heap. `rt_mq_init` finds that the pool has no room for a message after it has
put the object into the container, and does not take it out again.
-/

namespace RtThread.Object

open Function (update)

/-- The classes of these objects. -/
inductive PoolClass where
  | messageQueue
  | mailBox
  | memPool
  deriving DecidableEq

/-- The object container, and the blocks of the heap that are in use. -/
structure Kernel where
  container : PoolClass → List Obj
  heap : List ℕ

/-- `rt_object_delete`. -/
def Kernel.rtObjectDelete (k : Kernel) (type : PoolClass) (object : ℕ) : Kernel where
  container := update k.container type ((k.container type).eraseP (·.address = object))
  heap := k.heap.erase object

/-- `RT_ALIGN(msg_size, RT_ALIGN_SIZE) + sizeof(struct rt_mq_message)`. -/
def messageSize (usingPriority : Bool) (msgSize : ℕ) : ℕ :=
  wordAdd (rtAlign msgSize) (if usingPriority then 24 else 16)

variable (max : ℕ) (k : Kernel) (name : List UInt8)

/-- `rt_mq_init`, and whether it returns `RT_EOK`; a division by zero has no value. -/
def rtMqInit (object : Obj) (usingPriority : Bool) (msgSize poolSize : ℕ) : Option (Bool × Kernel) :=
  if messageSize usingPriority msgSize = 0 then none
  else some (poolSize / messageSize usingPriority msgSize % 2 ^ 16 ≠ 0,
    { k with container := rtObjectInit max k.container object .messageQueue name })

variable (objectSize : PoolClass → ℕ) (rtMalloc : List ℕ → ℕ → Option ℕ)

/-- The functions that allocate an object and a pool, from any allocator. -/
def create (type : PoolClass) (size : ℕ) : Option ℕ × Kernel :=
  match rtMalloc k.heap (objectSize type) with
  | none => (none, k)
  | some object =>
    let k : Kernel := ⟨rtObjectAllocate max k.container object type name, object :: k.heap⟩
    match rtMalloc k.heap size with
    | none => (none, k.rtObjectDelete type object)
    | some pool => (some object, { k with heap := pool :: k.heap })

/-- `rt_mq_create`. -/
def rtMqCreate (usingPriority : Bool) (msgSize maxMsgs : ℕ) : Option ℕ × Kernel :=
  create max k name objectSize rtMalloc .messageQueue
    (wordMul (messageSize usingPriority msgSize) (maxMsgs % 2 ^ 16))

/-- `rt_mb_create`. -/
def rtMbCreate (size : ℕ) : Option ℕ × Kernel :=
  create max k name objectSize rtMalloc .mailBox (size % 2 ^ 16 * 8)

/-- `rt_mp_create`, with its assertion. -/
def rtMpCreate (blockCount blockSize : ℕ) : Option (Option ℕ × Kernel) :=
  if 0 < blockCount ∧ 0 < blockSize then
    some (create max k name objectSize rtMalloc .memPool (wordMul (wordAdd (rtAlign blockSize) 8) blockCount))
  else none

variable {max k name objectSize rtMalloc} {k' : Kernel}

/-- A failed creation undoes what it has done. -/
theorem create_failed {type : PoolClass} {size : ℕ}
    (h : create max k name objectSize rtMalloc type size = (none, k')) : k' = k := by
  unfold create at h
  split at h
  · exact (Prod.mk.inj h).2.symm
  · dsimp only at h
    split at h <;> cases h
    simp [Kernel.rtObjectDelete, rtObjectAllocate, insert]

/-- Failed creations leave the container and the heap as they were, for every allocator and all arguments of
the functions that allocate; for `rt_mq_init` exactly when it does not fail. -/
theorem failed_creation_iff (object : Obj) (usingPriority : Bool) (msgSize poolSize maxMsgs size : ℕ)
    (blockCount blockSize : ℕ) :
    ((∀ k', rtMqInit max k name object usingPriority msgSize poolSize = some (false, k') → k' = k) ↔
      messageSize usingPriority msgSize = 0 ∨ poolSize / messageSize usingPriority msgSize % 2 ^ 16 ≠ 0) ∧
    (∀ k', rtMqCreate max k name objectSize rtMalloc usingPriority msgSize maxMsgs = (none, k') → k' = k) ∧
    (∀ k', rtMbCreate max k name objectSize rtMalloc size = (none, k') → k' = k) ∧
    ∀ k', rtMpCreate max k name objectSize rtMalloc blockCount blockSize = some (none, k') → k' = k := by
  refine ⟨?_, fun _ => create_failed, fun _ => create_failed, fun k' h => ?_⟩
  · have hne : { k with container := rtObjectInit max k.container object .messageQueue name } ≠ k := fun h => by
      simpa [rtObjectInit, insert] using congrFun (congrArg Kernel.container h) .messageQueue
    by_cases hsize : messageSize usingPriority msgSize = 0 <;> simp [rtMqInit, hsize, hne]
  · obtain ⟨-, h⟩ := Option.ite_none_right_eq_some.mp h
    exact create_failed (Option.some.inj h)

/-- A pool of 16 bytes has no room for a message of 8 bytes and its header; the object stays. -/
theorem rtMqInit_stays : ∃ k', rtMqInit 1 ⟨fun _ => [], []⟩ [97] ⟨4, [0]⟩ false 8 16 = some (false, k') ∧
    k'.container .messageQueue = [⟨4, [97]⟩] :=
  ⟨_, rfl, rfl⟩

end RtThread.Object
