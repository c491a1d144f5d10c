import RtThread.Target
import Mathlib.Data.List.Basic

/-!
# The boot memory regions

`mm_memblock.c`: a list of the memory there is and a list of what is reserved in it, both kept in address
order, and the walk over both that hands what is free to the page allocator. The records of both lists come
from one table. The walk over the memory starts at the list head read as a record, so what lies in front of
`mmblk_memory` is an argument. Names are left out.
-/

namespace RtThread.Memblock

/-- `PHYS_ADDR_MAX`. -/
def physAddrMax : ℕ := 2 ^ 64 - 1

/-- `MEMBLOCK_NONE`. -/
def memblockNone : ℕ := 0

/-- The results of the calls. -/
inductive Err where
  | eok
  | einval
  | enomem
  deriving DecidableEq, Repr

/-- `struct rt_mmblk_reg`, with its place in `_regions`. -/
structure Reg where
  slot : ℕ
  start : ℕ
  finish : ℕ
  flags : ℕ
  deriving DecidableEq, Repr

/-- `_regions[i].alloc` and `_hint_idx`. -/
structure Records where
  alloc : List Bool
  hintIdx : ℕ
  deriving DecidableEq, Repr

/-- `mmblk_memory`, `mmblk_reserved` and their records. -/
structure State where
  memory : List Reg
  reserved : List Reg
  records : Records
  deriving DecidableEq, Repr

/-- Nothing is added yet; `RT_INIT_MEMORY_REGIONS` records are free. -/
def initial (regions : ℕ) : State := ⟨[], [], ⟨List.replicate regions false, 0⟩⟩

/-- `_alloc_memreg`: the first free record from the hint on, else from the front. -/
def Records.allocMemreg (t : Records) : Option (Records × ℕ) :=
  let order := List.range' t.hintIdx (t.alloc.length - t.hintIdx) ++ List.range t.hintIdx
  (order.find? fun i => t.alloc[i]? = some false).map fun i => (⟨t.alloc.set i true, i + 1⟩, i)

/-- `_free_memreg`. -/
def Records.freeMemreg (t : Records) (slot : ℕ) : Records := { t with alloc := t.alloc.set slot false }

/-- The two region lists. -/
inductive Kind where
  | memory
  | reserved
  deriving DecidableEq, Repr

/-- The list of a kind. -/
def State.list (s : State) : Kind → List Reg
  | .memory => s.memory
  | .reserved => s.reserved

/-- Write the list of a kind. -/
def State.withList (s : State) (list : List Reg) : Kind → State
  | .memory => { s with memory := list }
  | .reserved => { s with reserved := list }

/-- The search of `_memblock_add_range`: how many regions the new one goes behind, if it overlaps none of
those it looks at. -/
def findPlace (start finish : ℕ) : List Reg → Option ℕ
  | [] => some 0
  | r :: rest =>
    if finish ≤ r.start then some 0
    else if r.finish ≤ start then (findPlace start finish rest).map (· + 1)
    else none

/-- `_memblock_add_range`. -/
def memblockAddRange (s : State) (kind : Kind) (start finish flags : ℕ) : State × Err :=
  if finish ≤ start then (s, .einval)
  else match findPlace start finish (s.list kind) with
    | none => (s, .einval)
    | some place =>
      match s.records.allocMemreg with
      | none => (s, .enomem)
      | some (records, slot) =>
        ({ s with records := records }.withList
          ((s.list kind).insertIdx place ⟨slot, start, finish, flags⟩) kind, .eok)

/-- `rt_memblock_add_memory`. -/
def rtMemblockAddMemory (s : State) (start finish flags : ℕ) : State × Err :=
  memblockAddRange s .memory start finish flags

/-- `rt_memblock_reserve_memory`. -/
def rtMemblockReserveMemory (s : State) (start finish flags : ℕ) : State × Err :=
  memblockAddRange s .reserved start finish flags

/-- `_memblock_separate_range` from a record on, with `start_reg` and `end_reg` so far. -/
def separateRange (start finish : ℕ) : List Reg → Records → Option ℕ → Option ℕ →
    List Reg × Records × Option ℕ × Option ℕ × Err
  | [], records, startReg, endReg => ([], records, startReg, endReg, .eok)
  | r :: rest, records, startReg, endReg =>
    let next := rest.head?.map Reg.slot
    -- the branches for a region that does not start in front of the range
    let inside (r : Reg) (records : Records) (startReg endReg : Option ℕ) :=
      if finish < r.finish then
        match records.allocMemreg with
        | none => (r :: rest, records, startReg, endReg, .enomem)
        | some (records, slot) =>
          ({ r with finish := finish } :: ⟨slot, finish, r.finish, r.flags⟩ :: rest, records, startReg,
            some slot, .eok)
      else
        let startReg := if endReg = none then some r.slot else startReg
        let (rest, result) := separateRange start finish rest records startReg next
        (r :: rest, result)
    if finish ≤ r.start then (r :: rest, records, startReg, endReg, .eok)
    else if r.finish ≤ start then
      let (rest, result) := separateRange start finish rest records startReg endReg
      (r :: rest, result)
    else if r.start < start then
      match records.allocMemreg with
      | none => (r :: rest, records, startReg, endReg, .enomem)
      | some (records, slot) =>
        let upper : Reg := ⟨slot, start, r.finish, r.flags⟩
        -- the loop goes on at the new record
        let (rest, result) :=
          if finish ≤ start then (upper :: rest, records, some slot, next, .eok)
          else inside upper records (some slot) next
        ({ r with finish := start } :: rest, result)
    else inside r records startReg endReg

/-- The loop of `_memblock_set_flag`. -/
def setFlagUntil (endReg : Option ℕ) (flags : ℕ) : List Reg → List Reg
  | [] => []
  | r :: rest =>
    if endReg = some r.slot then r :: rest
    else { r with flags := r.flags ||| flags } :: setFlagUntil endReg flags rest

/-- `_memblock_set_flag`. -/
def memblockSetFlag (startReg endReg : Option ℕ) (flags : ℕ) : List Reg → List Reg
  | [] => []
  | r :: rest =>
    if startReg = some r.slot then setFlagUntil endReg flags (r :: rest)
    else r :: memblockSetFlag startReg endReg flags rest

/-- The loops of `_memblock_merge_memory` from a record on. -/
def mergeFrom (r : Reg) : List Reg → Records → List Reg × Records
  | [], records => ([r], records)
  | n :: rest, records =>
    if r.flags = n.flags ∧ r.finish = n.start then
      mergeFrom { r with finish := n.finish } rest (records.freeMemreg n.slot)
    else
      let (rest, records) := mergeFrom n rest records
      (r :: rest, records)

/-- `_memblock_merge_memory`. -/
def memblockMergeMemory (s : State) : State :=
  match s.memory with
  | [] => s
  | r :: rest =>
    let (memory, records) := mergeFrom r rest s.records
    { s with memory := memory, records := records }

/-- A place of the reserved list: where the gap behind it starts, and the regions behind the gap. -/
abbrev Gap := ℕ × List Reg

/-- Where the gap ends. -/
def gapEnd : List Reg → ℕ
  | [] => physAddrMax
  | n :: _ => n.start

/-- `_next_region` of a place. -/
def nextGap : List Reg → Option Gap
  | [] => none
  | n :: rest => some (n.finish, rest)

/-- The loop of `_next_free_region` over the gaps for one memory region: the free region and whether it ends
the memory region, if there is one, and the place where the loop stops. -/
def scanReserved (mStart mEnd rStart : ℕ) (rest : List Reg) : Option ((ℕ × ℕ) × Bool) × Option Gap :=
  let rEnd := gapEnd rest
  if rStart ≠ rEnd ∧ mEnd ≤ rStart then (none, some (rStart, rest))
  else if rStart ≠ rEnd ∧ mStart < rEnd then
    (some ((max mStart rStart, min mEnd rEnd), mEnd ≤ rEnd),
      if mEnd ≤ rEnd then some (rStart, rest) else nextGap rest)
  else match rest with
    | [] => (none, none)
    | n :: rest => scanReserved mStart mEnd n.finish rest

/-- `_next_free_region`: the free region and the two places to go on from, or `none` when all are found. -/
def nextFreeRegion (flags : ℕ) : List Reg → Option Gap → Option ((ℕ × ℕ) × List Reg × Option Gap)
  | [], _ => none
  | m :: memory, r =>
    if m.flags ≠ flags then nextFreeRegion flags memory r
    else match r with
      | none => nextFreeRegion flags memory none
      | some (rStart, rest) =>
        match scanReserved m.start m.finish rStart rest with
        | (some (region, last), r) => some (region, if last then memory else m :: memory, r)
        | (none, r) => nextFreeRegion flags memory r

/-- `for_each_free_region` from two places on, for a list of `count` memory regions. The loop also ends where
the walk is still at the list head. -/
def freeRegions (flags count : ℕ) : ℕ → List Reg → Option Gap → Option (List (ℕ × ℕ))
  | 0, _, _ => none
  | fuel + 1, memory, r =>
    match nextFreeRegion flags memory r with
    | none => some []
    | some (region, memory, r) =>
      if count < memory.length then some []
      else (freeRegions flags count fuel memory r).map (region :: ·)

/-- A physical region at its kernel addresses, `PV_OFFSET` below. -/
def kernelRegion (pvOffset : ℕ) (region : ℕ × ℕ) : ℕ × ℕ :=
  (wordSub region.1 pvOffset, wordSub region.2 pvOffset)

/-- `_memblock_free_all`: what is passed to `rt_page_install`. `head` is the list head of the memory read as a
record. -/
def memblockFreeAll (head : Reg) (pvOffset fuel : ℕ) (s : State) : Option (List (ℕ × ℕ)) :=
  (freeRegions memblockNone s.memory.length fuel (head :: s.memory) (some (0, s.reserved))).map
    fun regions => regions.map (kernelRegion pvOffset)

/-- The loop of `rt_memblock_setup_memory_environment` over the reserved regions with a flag. -/
def separateReserved : List Reg → State → Option State
  | [], s => some s
  | reg :: rest, s =>
    if reg.flags ≠ memblockNone then
      match separateRange reg.start reg.finish s.memory s.records none none with
      | (memory, records, startReg, endReg, .eok) =>
        separateReserved rest
          { s with memory := memblockSetFlag startReg endReg reg.flags memory, records := records }
      | _ => none
    else separateReserved rest s

/-- `rt_memblock_setup_memory_environment`, with what it passes to `rt_page_install`. -/
def rtMemblockSetupMemoryEnvironment (head : Reg) (pvOffset fuel : ℕ) (s : State) :
    Option (State × List (ℕ × ℕ)) := do
  let s ← separateReserved s.reserved (memblockMergeMemory s)
  let installed ← memblockFreeAll head pvOffset fuel s
  return (s, installed)

end RtThread.Memblock
