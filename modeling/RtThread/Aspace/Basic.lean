import RtThread.Lib.SearchTree
import RtThread.Target

/-!
# Virtual address spaces

`rt-thread/components/mm/mm_aspace.c` keeps the mapped regions of an address space, its vareas, in a search
tree keyed by their start (`avl_adpt.c`). A mapping takes a free range, grows a compatible neighbour over
it or inserts a new varea, and merges what then fits together; an unmapping shrinks, splits or removes
what overlaps its range. Addresses, sizes and offsets are words and wrap.

The environment answers what the code cannot decide: the callbacks of the memory objects, the
allocations of records, the MMU, and how the tree is rebalanced, which keeps its order. A callback does
not touch the record it is shown. A run that dereferences a null record or does not end is `none`. The page
tables, the names of objects, the log output and the lock are left out.
-/

namespace RtThread.Aspace

open Lib

/-- The error codes that the functions below return. -/
inductive Err where
  | eok | error | enoent | enospc | eperm | einval | enomem | enosys
  deriving DecidableEq, Repr

/-- `ARCH_PAGE_SIZE`; `MM_PAGE_SHIFT` is 12. -/
abbrev archPageSize : ℕ := 4096

/-- The bit of `MMF_MAP_FIXED`. -/
abbrev mmfMapFixed : ℕ := 9

/-- The bit of `MMF_PREFETCH`. -/
abbrev mmfPrefetch : ℕ := 10

/-- The bit of `MMF_STATIC_ALLOC`. -/
abbrev mmfStaticAlloc : ℕ := 13

/-- The bit of `MMF_REQUEST_ALIGN`; the low seven bits of the flags then hold the shift. -/
abbrev mmfRequestAlign : ℕ := 16

/-- The address of a varea record: one that `_varea_create` allocated, or one that the caller gave. -/
inductive VareaRef where
  | created (n : ℕ)
  | given (n : ℕ)
  deriving DecidableEq, Repr

/-- `struct rt_varea`; `memObj` is `none` for the null object. -/
structure Varea where
  ref : VareaRef
  start : ℕ
  size : ℕ
  offset : ℕ
  attr : ℕ
  flag : ℕ
  memObj : Option ℕ
  deriving DecidableEq, Repr

/-- `varea->start + varea->size - 1`. -/
def Varea.last (v : Varea) : ℕ := wordSub (wordAdd v.start v.size) 1

/-- `struct rt_mm_va_hint`. -/
structure Hint where
  limitStart : ℕ
  limitRangeSize : ℕ
  prefer : ℕ
  mapSize : ℕ
  flags : ℕ

/-- `struct rt_mem_obj`: which callbacks it has, and what `hint_free` makes of a hint. -/
structure MemObj where
  hintFree : Option (Hint → Hint)
  onVareaExpand : Bool
  onVareaMerge : Bool
  onVareaShrink : Bool
  onVareaSplit : Bool

/-- What `on_page_fault` answers, and for a page whether the MMU maps it. -/
inductive Fault where
  | unrecoverable
  | okMapped
  | ok (size : ℕ) (mapped : Bool)

/-- What the code cannot decide, by the number of the question. -/
structure Env where
  object : ℕ → MemObj
  outcome : ℕ → Bool
  fault : ℕ → Fault
  rebalance : ℕ → BinaryTree Varea → BinaryTree Varea
  inorder_rebalance : ∀ n t, SearchTree.inorder (rebalance n t) = SearchTree.inorder t

/-- `struct rt_aspace`, with the number of records created and of questions asked so far. -/
structure Space where
  start : ℕ
  size : ℕ
  tree : BinaryTree Varea
  created : ℕ
  asked : ℕ

/-- `struct _mapping_property`. -/
structure MapProp where
  attr : ℕ
  flags : ℕ
  offset : ℕ
  memObj : Option ℕ

namespace Space

/-- The vareas in the order of the tree. -/
def vareas (s : Space) : List Varea := SearchTree.inorder s.tree

/-- The answer to the next question. -/
def answer (s : Space) (env : Env) : Bool := env.outcome s.asked

/-- The question was asked. -/
def ask (s : Space) : Space := { s with asked := s.asked + 1 }

/-- The record at an address. -/
def lookup (s : Space) (ref : VareaRef) : Option Varea := s.vareas.find? fun v => v.ref = ref

/-- Write the fields of a record in the tree. -/
def replace (s : Space) (v : Varea) : Space :=
  { s with tree := s.tree.map fun w => if w.ref = v.ref then v else w }

/-- `_aspace_bst_insert`. -/
def bstInsert (s : Space) (env : Env) (v : Varea) : Space :=
  { s with tree := env.rebalance s.asked (SearchTree.insert Varea.start v s.tree),
           asked := s.asked + 1 }

/-- `_aspace_bst_remove`. -/
def bstRemove (s : Space) (env : Env) (ref : VareaRef) : Space :=
  { s with tree := env.rebalance s.asked (SearchTree.remove (fun v => v.ref = ref) s.tree),
           asked := s.asked + 1 }

end Space

/-- `compare_overlap`: the side of the varea on which the range from `as` to `ae` lies. -/
def compareOverlap (as ae : ℕ) (v : Varea) : Ordering :=
  if v.last < as then .gt else if ae < v.start then .lt else .eq

/-- `_aspace_bst_search_overlap`. -/
def Space.bstSearchOverlap (s : Space) (first last : ℕ) : Option Varea :=
  SearchTree.search (compareOverlap first last) s.tree

/-- `_aspace_bst_search`. -/
def Space.bstSearch (s : Space) (key : ℕ) : Option Varea := s.bstSearchOverlap key key

/-- A word read as a `ptrdiff_t`. -/
def signedWord (a : ℕ) : ℤ := Int.bmod a (2 ^ 64)

/-- The loop of `_aspace_bst_search_exceed`. -/
def searchExceed (start : ℕ) : BinaryTree Varea → Option Varea → ℤ → Option Varea
  | .nil, closest, _ => closest
  | .node v l r, closest, minOff =>
    if start < v.start then
      let off := signedWord (v.start - start)
      if off < minOff then searchExceed start l (some v) off
      else searchExceed start l closest minOff
    else if v.start < start then searchExceed start r closest minOff
    else some v

/-- `_aspace_bst_search_exceed`; the smallest offset starts at `PTRDIFF_MAX`. -/
def Space.bstSearchExceed (s : Space) (start : ℕ) : Option Varea :=
  searchExceed start s.tree none (2 ^ 63 - 1)

/-- `ASPACE_VAREA_NEXT`. -/
def Space.vareaNext (s : Space) (v : Varea) : Option Varea :=
  (s.vareas.dropWhile fun w => w.ref ≠ v.ref)[1]?

/-- `offset += ((long)new_va - (long)old_va) >> MM_PAGE_SHIFT`. -/
def shiftOffset (offset oldVa newVa : ℕ) : ℕ :=
  ((offset + signedWord (wordSub newVa oldVa) / archPageSize) % 2 ^ 64).toNat

/-- What `_expand_varea` and `_shrink_varea` do once the object agreed. -/
def Space.resize (s : Space) (env : Env) (varea : Varea) (newVa size : ℕ) : Space :=
  if varea.start = newVa then s.replace { varea with size := size }
  else
    let moved := { varea with
      size := size, start := newVa, offset := shiftOffset varea.offset varea.start newVa }
    ((s.replace moved).bstRemove env varea.ref).bstInsert env moved

/-- Whether the object of a varea has a callback. -/
def Varea.has (v : Varea) (env : Env) (callback : MemObj → Bool) : Bool :=
  match v.memObj with
  | some m => callback (env.object m)
  | none => false

/-- `_expand_varea`. -/
def expandVarea (s : Space) (env : Env) (varea : Varea) (newVa size : ℕ) : Space × Err :=
  if varea.has env MemObj.onVareaExpand then
    if s.answer env then (s.ask.resize env varea newVa size, .eok) else (s.ask, .error)
  else (s, .eperm)

/-- `_shrink_varea`. -/
def shrinkVarea (s : Space) (env : Env) (varea : Varea) (newVa size : ℕ) : Space × Err :=
  if varea.has env MemObj.onVareaShrink then
    if s.answer env then (s.ask.resize env varea newVa size, .eok) else (s.ask, .error)
  else (s, .eperm)

/-- The record that `_split_varea` makes for the pages behind the unmapped ones. -/
def Varea.subset (existed : Varea) (ref : VareaRef) (exEnd unmapEnd : ℕ) : Varea where
  ref := ref
  start := unmapEnd
  size := wordSub exEnd unmapEnd
  offset := wordAdd existed.offset (wordSub unmapEnd existed.start / archPageSize)
  attr := existed.attr
  flag := existed.flag &&& wordNot (2 ^ mmfStaticAlloc)
  memObj := existed.memObj

/-- `_split_varea`. -/
def splitVarea (s : Space) (env : Env) (existed : Varea) (exEnd unmapStart unmapEnd : ℕ) :
    Space × Err :=
  if existed.has env MemObj.onVareaSplit then
    if s.answer env then
      let subset := existed.subset (.created s.created) exEnd unmapEnd
      let s := { s.ask with created := s.created + 1 }
      if s.answer env then
        ((s.ask.replace { existed with size := wordSub unmapStart existed.start }).bstInsert env
          subset, .eok)
      else (s.ask, .error)
    else (s.ask, .enomem)
  else (s, .eperm)

/-- `_remove_overlapped_varea`. -/
def removeOverlappedVarea (s : Space) (env : Env) (existed : Varea) (unmapStart unmapLen : ℕ) :
    Space × Err :=
  let exEnd := wordAdd existed.start existed.size
  let unmapEnd := wordAdd unmapStart unmapLen
  if existed.start < unmapStart then
    if unmapEnd < exEnd then splitVarea s env existed exEnd unmapStart unmapEnd
    else shrinkVarea s env existed existed.start (wordSub unmapStart existed.start)
  else if unmapEnd < exEnd then shrinkVarea s env existed unmapEnd (wordSub exEnd unmapEnd)
  else (s.bstRemove env existed.ref, .eok)

/-- `_unmap_range_locked`. -/
def unmapRangeLocked (env : Env) (addr length : ℕ) : ℕ → Space → Option (Space × Err)
  | 0, _ => none
  | fuel + 1, s =>
    match s.bstSearchOverlap addr (wordSub (wordAdd addr length) 1) with
    | none => some (s, .eok)
    | some existed =>
      match removeOverlappedVarea s env existed addr length with
      | (s, .eok) => unmapRangeLocked env addr length fuel s
      | (s, err) => some (s, err)

/-- `_align`. -/
def alignVa (va alignMask : ℕ) : ℕ := wordAdd va (wordNot alignMask) &&& alignMask

/-- `_ascending_search`. -/
def ascendingSearch (s : Space) (reqSize alignMask limitEnd : ℕ) : ℕ → Option Varea → ℕ
  | 0, _ => 0
  | _ + 1, none => 0
  | fuel + 1, some varea =>
    if varea.start < limitEnd then
      let candidate := alignVa (wordAdd varea.start varea.size) alignMask
      if limitEnd < candidate ∨ wordAdd (wordSub limitEnd candidate) 1 < reqSize then 0
      else match s.vareaNext varea with
        | some next =>
          let gapSize := wordAdd (wordSub (min limitEnd (wordSub next.start 1)) candidate) 1
          if reqSize ≤ gapSize then candidate
          else ascendingSearch s reqSize alignMask limitEnd fuel (some next)
        | none => candidate
    else 0

/-- The walk of `_ascending_search` meets each varea at most once. -/
def Space.ascendingSearch (s : Space) (varea : Varea) (reqSize alignMask limitEnd : ℕ) : ℕ :=
  Aspace.ascendingSearch s reqSize alignMask limitEnd (s.vareas.length + 1) (some varea)

/-- `_find_head_and_asc_search`. -/
def Space.findHeadAndAscSearch (s : Space) (reqSize alignMask limitStart limitEnd : ℕ) : ℕ :=
  let candidate := alignVa limitStart alignMask
  match s.bstSearchExceed limitStart with
  | some varea =>
    if reqSize ≤ wordSub varea.start candidate then
      match s.bstSearch limitStart with
      | some former =>
        let candidate := alignVa (wordAdd former.start former.size) alignMask
        if reqSize ≤ wordSub varea.start candidate then candidate
        else s.ascendingSearch varea reqSize alignMask limitEnd
      | none => candidate
    else s.ascendingSearch varea reqSize alignMask limitEnd
  | none =>
    if reqSize ≤ wordAdd (wordSub limitEnd candidate) 1 then candidate else 0

/-- The alignment mask of `_find_free`. A shift of the source's `int` by 31 and more is undefined; here it
is that of the number. -/
def alignMaskOf (flags : ℕ) : ℕ :=
  if flags.testBit mmfRequestAlign then wordNot (2 ^ (flags % 2 ^ 7) - 1) else 2 ^ 64 - 1

/-- `_find_free`. -/
def Space.findFree (s : Space) (hint : Hint) : ℕ :=
  let limitEnd := wordSub (wordAdd hint.limitStart hint.limitRangeSize) 1
  let alignMask := alignMaskOf hint.flags
  if hint.prefer ≠ 0 then
    let prefer := alignVa hint.prefer alignMask
    match s.bstSearchOverlap prefer (wordSub (wordAdd prefer hint.mapSize) 1) with
    | none => prefer
    | some varea =>
      if hint.flags.testBit mmfMapFixed then 0
      else
        let va := s.ascendingSearch varea hint.mapSize alignMask limitEnd
        if va = 0 then
          s.findHeadAndAscSearch hint.mapSize alignMask hint.limitStart (wordSub varea.start 1)
        else va
  else s.findHeadAndAscSearch hint.mapSize alignMask hint.limitStart limitEnd

/-- `_contiguous_offset`. -/
def contiguousOffset (neighbour : Varea) (mapSize : ℕ) (prop : MapProp) : Bool :=
  if neighbour.offset < prop.offset then
    wordAdd neighbour.offset (neighbour.size / archPageSize) = prop.offset
  else wordAdd prop.offset (mapSize / archPageSize) = neighbour.offset

/-- `_compatible`. -/
def compatible (neighbour : Varea) (mapSize : ℕ) (prop : MapProp) : Bool :=
  prop.attr = neighbour.attr ∧ prop.flags = neighbour.flag ∧ prop.memObj = neighbour.memObj ∧
    contiguousOffset neighbour mapSize prop

/-- The search that `_try_expand_and_merge_okay` and `_merge_surrounding` share: a compatible varea in
front of the operand (`true`), else one behind it. -/
def Space.findNeighbour (s : Space) (operandStart operandSize : ℕ) (prop : MapProp) :
    Option (Bool × Varea) :=
  match (s.bstSearch (wordSub operandStart 1)).filter (compatible · operandSize prop) with
  | some neighbour => some (true, neighbour)
  | none =>
    ((s.bstSearch (wordAdd operandStart operandSize)).filter (compatible · operandSize prop)).map
      fun neighbour => (false, neighbour)

/-- `_migrate_and_release_varea`. -/
def migrateAndReleaseVarea (s : Space) (env : Env) (target source : Varea) : Space × Bool :=
  if s.answer env then
    ((s.ask.bstRemove env source.ref).replace { target with size := wordAdd target.size source.size }, true)
  else (s.ask, false)

/-- The loop of `_merge_surrounding`; `again` keeps its value where a merge is refused. -/
def mergeLoop (env : Env) (prop : MapProp) : ℕ → Space → VareaRef → Bool → Option (Space × VareaRef)
  | 0, _, _, _ => none
  | fuel + 1, s, ref, again => do
    let operand ← s.lookup ref
    match s.findNeighbour operand.start operand.size prop with
    | none => some (s, ref)
    | some (true, neighbour) =>
      let (s, merged) := migrateAndReleaseVarea s env neighbour operand
      if merged ∨ again then mergeLoop env prop fuel s neighbour.ref true
      else some (s, neighbour.ref)
    | some (false, neighbour) =>
      let (s, merged) := migrateAndReleaseVarea s env operand neighbour
      if merged ∨ again then mergeLoop env prop fuel s ref true
      else some (s, ref)

/-- `_merge_surrounding`; `again` starts uninitialised. -/
def mergeSurrounding (env : Env) (fuel : ℕ) (s : Space) (operand : Varea) (prop : MapProp) :
    Option (Space × VareaRef) :=
  if operand.has env MemObj.onVareaMerge then mergeLoop env prop fuel s.ask operand.ref (s.answer env)
  else some (s, operand.ref)

/-- `_try_expand_and_merge_okay`, with the varea where the new region is if it succeeds. -/
def tryExpandAndMerge (env : Env) (fuel : ℕ) (s : Space) (allocVa mapSize : ℕ) (prop : MapProp) :
    Option (Space × Option VareaRef) :=
  match s.findNeighbour allocVa mapSize prop with
  | none => some (s, none)
  | some (forward, neighbour) =>
    let operandStart := if forward then neighbour.start else allocVa
    match expandVarea s env neighbour operandStart (wordAdd mapSize neighbour.size) with
    | (s, .eok) => do
      let operand ← s.lookup neighbour.ref
      let (s, ref) ← mergeSurrounding env fuel s operand prop
      return (s, some ref)
    | (s, _) => some (s, none)

/-- `_varea_create`. -/
def vareaCreate (s : Space) (env : Env) : Space × Option VareaRef :=
  if s.answer env then ({ s.ask with created := s.created + 1 }, some (.created s.created))
  else (s.ask, none)

/-- `_insert_new_varea` and `_varea_post_install`. -/
def insertNewVarea (s : Space) (env : Env) (pvarea : Option VareaRef) (allocVa mapSize : ℕ)
    (prop : MapProp) : Space × Option VareaRef × Err :=
  let (s, pvarea) := match pvarea with
    | some ref => (s, some ref)
    | none => vareaCreate s env
  match pvarea with
  | some ref =>
    (s.bstInsert env { ref := ref, start := allocVa, size := mapSize, offset := prop.offset,
                       attr := prop.attr, flag := prop.flags, memObj := prop.memObj },
      some ref, .eok)
  | none => (s, none, .enomem)

/-- The address that `_varea_install` chooses, and the error so far. -/
def choosePlace (env : Env) (fuel : ℕ) (s : Space) (hint : Hint) : Option (Space × ℕ × Err) :=
  if hint.flags.testBit mmfMapFixed then do
    let (s, err) ← unmapRangeLocked env hint.prefer hint.mapSize fuel s
    return (s, hint.prefer, err)
  else
    let allocVa := s.findFree hint
    some (s, allocVa, if allocVa = 0 then .enospc else .eok)

/-- `_varea_install`: the record in use, the address if it was written, and the error. -/
def vareaInstall (env : Env) (fuel : ℕ) (s : Space) (pvarea : Option VareaRef) (hint : Hint)
    (prop : MapProp) (pva : ℕ) : Option (Space × Option VareaRef × ℕ × Err) := do
  let (s, allocVa, err) ← choosePlace env fuel s hint
  if allocVa = 0 then return (s, pvarea, pva, err)
  else
    let (s, region) ← tryExpandAndMerge env fuel s allocVa hint.mapSize prop
    let (s, pvarea, err) := match region with
      | some ref => (s, some ref, err)
      | none => insertNewVarea s env pvarea allocVa hint.mapSize prop
    return (s, pvarea, if err = .eok then allocVa else pva, err)

/-- The loop of `_do_prefetch` over the varea. -/
def prefetchLoop (env : Env) (varea : Varea) (finish : ℕ) : ℕ → Space → ℕ → Option (Space × Err)
  | 0, _, _ => none
  | fuel + 1, s, vaddr =>
    if vaddr = finish then some (s, .eok)
    else match env.fault s.asked with
      | .unrecoverable => some (s.ask, .enomem)
      | .okMapped => some (s.ask, .eok)
      | .ok size mapped =>
        if wordAdd varea.start varea.size < wordAdd vaddr size ∨ ¬ mapped then some (s.ask, .enomem)
        else prefetchLoop env varea finish fuel s.ask (wordAdd vaddr size)

/-- `_do_prefetch` on a whole varea. -/
def doPrefetch (env : Env) (fuel : ℕ) (s : Space) (varea : Varea) : Option (Space × Err) :=
  prefetchLoop env varea (wordAdd varea.start varea.size) fuel s varea.start

/-- The hint of `_mm_aspace_map`, after the object saw it; `map_size` is constant. -/
def mapHint (env : Env) (s : Space) (addr length flags m : ℕ) : Hint :=
  let hint : Hint := ⟨s.start, s.size, addr, length, flags⟩
  match (env.object m).hintFree with
  | some hintFree => { hintFree hint with mapSize := length }
  | none => hint

/-- `_mm_aspace_map`: the record in use, the address and the error. -/
def mmAspaceMap (env : Env) (fuel : ℕ) (s : Space) (pvarea : Option VareaRef)
    (addr length attr flags m offset : ℕ) : Option (Space × Option VareaRef × ℕ × Err) := do
  let (s, pvarea, addr, err) ← vareaInstall env fuel s pvarea (mapHint env s addr length flags m)
    ⟨attr, flags, offset, some m⟩ addr
  if err = .eok ∧ flags.testBit mmfPrefetch then
    let ref ← pvarea
    let varea ← s.lookup ref
    let (s, err) ← doPrefetch env fuel s varea
    if err = .eok then return (s, some ref, addr, err)
    else return (s.bstRemove env ref, some ref, addr, err)
  else return (s, pvarea, addr, err)

/-- `_not_in_range`. -/
def notInRange (start length limitStart limitSize : ℕ) : Bool :=
  if start ≠ 0 then
    wordSub 0 start < length ∨ start < limitStart ∨
      limitSize < wordAdd length (wordSub start limitStart)
  else limitSize < length

/-- `_not_align` with `ARCH_PAGE_MASK`. -/
def notAlign (start length : ℕ) : Bool :=
  start ≠ 0 ∧ (start % archPageSize ≠ 0 ∨ length % archPageSize ≠ 0)

/-- `_not_support`: the result is cut to an `int`. -/
def notSupport (flags : ℕ) : Bool := flags % 2 ^ 32 / 2 ^ 17 ≠ 0

/-- `rt_aspace_map`, with the address it leaves in `*addr`. -/
def rtAspaceMap (env : Env) (fuel : ℕ) (s : Space) (addr length attr flags m offset : ℕ) :
    Option (Space × ℕ × Err) :=
  if length = 0 then some (s, 0, .einval)
  else if notInRange addr length s.start s.size then some (s, 0, .einval)
  else if notSupport flags then some (s, 0, .enosys)
  else do
    guard (length % archPageSize = 0)
    guard (addr % archPageSize = 0)
    let (s, _, addr, err) ← mmAspaceMap env fuel s none addr length attr flags m offset
    return (s, if err = .eok then addr else 0, err)

/-- `rt_aspace_map_static` on the caller's record `n`. -/
def rtAspaceMapStatic (env : Env) (fuel : ℕ) (s : Space) (n addr length attr flags m offset : ℕ) :
    Option (Space × ℕ × Err) :=
  if length = 0 ∨ notInRange addr length s.start s.size then some (s, 0, .einval)
  else if notSupport flags then some (s, 0, .enosys)
  else do
    let (s, pvarea, addr, err) ← mmAspaceMap env fuel s (some (.given n)) addr length attr
      (flags ||| 2 ^ mmfStaticAlloc) m offset
    let start := ((pvarea.bind s.lookup).map Varea.start).getD addr
    return (s, if err = .eok then start else 0, err)

/-- `_mm_aspace_map_phy`; a varea that was not installed has no valid fields. -/
def mmAspaceMapPhy (env : Env) (fuel : ℕ) (s : Space) (ref : VareaRef) (hint : Hint)
    (attr paOff : ℕ) : Option (Space × ℕ × Err) :=
  if hint.limitRangeSize = 0 ∨ hint.mapSize = 0 then some (s, 0, .einval)
  else if notAlign hint.prefer hint.mapSize then some (s, 0, .einval)
  else if notInRange hint.limitStart hint.limitRangeSize s.start s.size ∨
      notInRange hint.prefer hint.mapSize s.start s.size then some (s, 0, .einval)
  else do
    let (s, pvarea, vaddr, err) ← vareaInstall env fuel s (some ref) hint
      ⟨attr, hint.flags, paOff, none⟩ 0
    if err = .eok then
      let varea ← pvarea.bind s.lookup
      if s.answer env then return (s.ask, vaddr, .eok)
      else return (s.ask.bstRemove env varea.ref, 0, .error)
    else return (s, 0, err)

/-- `rt_aspace_map_phy`. -/
def rtAspaceMapPhy (env : Env) (fuel : ℕ) (s : Space) (hint : Hint) (attr paOff : ℕ) :
    Option (Space × ℕ × Err) :=
  match vareaCreate s env with
  | (s, some ref) =>
    let hint := { hint with flags := hint.flags &&& wordNot (2 ^ mmfStaticAlloc) }
    mmAspaceMapPhy env fuel s ref hint attr paOff
  | (s, none) => some (s, 0, .enomem)

/-- `rt_aspace_unmap`. -/
def rtAspaceUnmap (env : Env) (s : Space) (addr : ℕ) : Space × Err :=
  if notInRange addr 1 s.start s.size then (s, .einval)
  else match s.bstSearch addr with
    | none => (s, .enoent)
    | some varea => (s.bstRemove env varea.ref, .eok)

/-- `RT_ALIGN(length, ARCH_PAGE_SIZE)`. -/
def pageAlign (length : ℕ) : ℕ := wordAdd length (archPageSize - 1) / archPageSize * archPageSize

/-- `rt_aspace_unmap_range`. -/
def rtAspaceUnmapRange (env : Env) (fuel : ℕ) (s : Space) (addr length : ℕ) :
    Option (Space × Err) :=
  if notInRange addr length s.start s.size then some (s, .einval)
  else if addr % archPageSize ≠ 0 then some (s, .einval)
  else unmapRangeLocked env addr (pageAlign length) fuel s

end RtThread.Aspace
