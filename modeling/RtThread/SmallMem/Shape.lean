import RtThread.SmallMem.Chain

/-!
# Well-linked heaps and the three header edits

`Shape` ties the fields of the heap object to the item chain and adds the end sentinel. The
allocator changes a well-linked heap in three ways only: it marks an item, it splits one, and it
lets one absorb its successor. Each edit is shown to produce the corresponding edit of the list.
-/

namespace RtThread.SmallMem

open Lib Heap ByteMemory

/-- The heap object describes a chain of items that ends at the sentinel. -/
structure Shape (s : Heap) (blocks : List Block) : Prop where
  chain : Chain s.mem s.heapPtr s.self 0 0 blocks
  sized : Sized blocks
  total_eq : total blocks = s.memSizeAligned + 24
  heapEnd_eq : s.heapEnd = s.heapPtr + (s.memSizeAligned + 24)
  sentinel_poolPtr : s.mem.load s.heapEnd 8 = s.self + 1
  sentinel_next : s.mem.load (s.heapEnd + 8) 8 = s.memSizeAligned + 24
  heapEnd_lt : s.heapEnd + 24 < 2 ^ 64
  self_lt : s.self < 2 ^ 64
  heapPtr_mod : s.heapPtr % 8 = 0
  self_mod : s.self % 8 = 0

variable {s : Heap} {pre post : List Block} {b c : Block}

/-- New headers over the same fields have the shape of the list they spell. -/
theorem Shape.of_mem {blocks blocks' : List Block} {m : ByteMemory} (h : Shape s blocks)
    (hchain : Chain m s.heapPtr s.self 0 0 blocks') (hsized : Sized blocks')
    (htotal : total blocks' = total blocks)
    (hsentinel : ∀ a, s.heapEnd ≤ a → a < s.heapEnd + 16 → m a = s.mem a) :
    Shape { s with mem := m } blocks' :=
  { h with
    chain := hchain
    sized := hsized
    total_eq := htotal.trans h.total_eq
    sentinel_poolPtr := h.sentinel_poolPtr ▸
      load_congr fun a hlo hhi => hsentinel a hlo (Nat.lt_add_right 8 hhi)
    sentinel_next := h.sentinel_next ▸
      load_congr fun a hlo hhi => hsentinel a (Nat.le_of_add_right_le hlo) hhi }

/-- Neither the counters nor `lfree` belong to the shape. -/
theorem Shape.of_fields {blocks : List Block} (h : Shape s blocks) (lfree used max : ℕ) :
    Shape { s with lfree := lfree, used := used, max := max } blocks :=
  { h with }

section Reading

section

variable (h : Shape s (pre ++ b :: post))
include h

/-- The header of the item behind `pre`. -/
theorem Shape.itemAt : ItemAt s.mem s.heapPtr s.self (lastOff 0 0 pre) (total pre) b := by
  have hchain := ((chain_append pre (b :: post)).mp h.chain).2
  rw [zero_add] at hchain
  exact hchain.1

/-- The data size and position of an item stay inside the heap, and the heap inside the address space. -/
theorem Shape.bounds : 24 ≤ b.size ∧ b.size % 8 = 0 ∧ total pre % 8 = 0 ∧
      total pre + b.size + total post = s.memSizeAligned + 24 ∧
      s.heapEnd = s.heapPtr + (s.memSizeAligned + 24) ∧ s.heapEnd + 24 < 2 ^ 64 := by
  have hsized := h.sized
  rw [sized_append, sized_cons] at hsized
  have htotal := h.total_eq
  rw [total_append, total_cons] at htotal
  exact ⟨hsized.2.1.1, hsized.2.1.2.1, total_mod hsized.1, by omega, h.heapEnd_eq, h.heapEnd_lt⟩

/-- One item further. -/
theorem Shape.snoc : Shape s ((pre ++ [b]) ++ post) := by
  simpa using h

/-- An item in use has data bytes. -/
theorem Shape.data_pos (hb : b.used = true) : 32 ≤ b.size :=
  (h.sized b (by simp)).2.2 hb

/-- `item->next` is the offset of the following item. -/
theorem Shape.next_eq : s.next (s.heapPtr + total pre) = total pre + b.size :=
  h.itemAt.next

/-- The data size that the source computes from `next` is that of the item. -/
theorem Shape.dataSize_eq :
    wordSub (s.next (s.heapPtr + total pre)) (wordAdd (total pre) 24) = b.size - 24 := by
  obtain ⟨hsize, -, -, htotal, hend, hlt⟩ := h.bounds
  rw [h.next_eq, wordAdd_of_lt (by omega), wordSub_of_le (by omega) (by omega), Nat.add_sub_add_left]

/-- `item->prev` is the offset of the preceding item. -/
theorem Shape.prev_eq : s.prev (s.heapPtr + total pre) = lastOff 0 0 pre :=
  h.itemAt.prev

/-- `MEM_ISUSED` reads the use mark of the item. -/
theorem Shape.memIsUsed_eq : s.memIsUsed (s.heapPtr + total pre) = b.used := by
  have hself := h.self_mod
  rw [memIsUsed, poolPtr, h.itemAt.poolPtr]
  cases b.used <;> simp <;> omega

/-- `MEM_POOL` reads the address of the heap object. -/
theorem Shape.memPool_eq : s.memPool (s.heapPtr + total pre) = s.self := by
  have hself := h.self_mod
  rw [memPool, poolPtr, h.itemAt.poolPtr]
  cases b.used <;> simp <;> omega

end

/-- The sentinel names the heap object. -/
theorem Shape.memPool_heapEnd {blocks : List Block} (h : Shape s blocks) :
    s.memPool s.heapEnd = s.self := by
  have hself := h.self_mod
  rw [memPool, poolPtr, h.sentinel_poolPtr]
  omega

/-- The heap object is aligned, so both marks are the address with its low bit set or clear. -/
theorem Shape.marks {blocks : List Block} (h : Shape s blocks) :
    s.memUsed = s.self + 1 ∧ s.memFreed = s.self := by
  have hself := h.self_mod
  rw [memUsed, memFreed]
  omega

end Reading

section Edits

/-- Marking an item changes its `used` flag only. -/
theorem Shape.mark (h : Shape s (pre ++ b :: post)) (used : Bool) (hdata : used = true → 32 ≤ b.size) :
    Shape (s.setPoolPtr (s.heapPtr + total pre) (s.self + used.toNat))
      (pre ++ { b with used := used } :: post) := by
  obtain ⟨hsize, hmod, -, htotal, hend, -⟩ := h.bounds
  have hself := h.self_lt
  have hselfMod := h.self_mod
  have hused := Bool.toNat_le used
  have hchain := (chain_append pre (b :: post)).mp h.chain
  rw [zero_add] at hchain
  have hsized := h.sized
  rw [sized_append, sized_cons] at hsized
  refine h.of_mem ((chain_append pre _).mpr ⟨?_, ?_, ?_⟩) ?_ (by simp) ?_
  · exact hchain.1.store hsized.1 (by omega)
  · have hitem := hchain.2.1
    rw [zero_add]
    refine ⟨?_, ?_, ?_⟩
    · exact load_store_self (by omega)
    · rw [load_store_of_disjoint (by omega), hitem.next]
    · rw [load_store_of_disjoint (by omega), hitem.prev]
  · rw [zero_add]
    exact hchain.2.2.store hsized.2.2 (by omega)
  · simp only [sized_append, sized_cons]
    exact ⟨hsized.1, ⟨hsize, hmod, hdata⟩, hsized.2.2⟩
  · intro a ha _
    exact store_of_outside (by omega)

/-- The split touches the memory only. -/
theorem Heap.splitItem_fields (s : Heap) (ptr size : ℕ) :
    s.splitItem ptr size = { s with mem := (s.splitItem ptr size).mem } := by
  unfold splitItem
  dsimp only
  split <;> rfl

/-- The absorption touches the memory only. -/
theorem Heap.absorb_fields (s : Heap) (mem nmem : ℕ) :
    s.absorb mem nmem = { s with mem := (s.absorb mem nmem).mem } := rfl

/-- The headers written by a split: the remainder's own header, and the item's shortened `next`. -/
def splitHeaders (m : ByteMemory) (base pool off size next : ℕ) : ByteMemory :=
  let mem2 := base + (off + (24 + size))
  (((m.store mem2 8 pool).store (mem2 + 8) 8 next).store (mem2 + 16) 8 off).store
    (base + off + 8) 8 (off + (24 + size))

/-- The memory after a split: both headers are written, and the item behind the remainder, if
there is one, is linked back to it. -/
theorem Shape.splitItem_mem (h : Shape s (pre ++ b :: post)) (size : ℕ) :
    (s.splitItem (total pre) size).mem =
      let m := splitHeaders s.mem s.heapPtr s.self (total pre) size (total pre + b.size)
      if post = [] then m
      else m.store (s.heapPtr + (total pre + b.size) + 16) 8 (total pre + (24 + size)) := by
  obtain ⟨-, -, -, htotal, hend, hlt⟩ := h.bounds
  have hnext := h.itemAt.next
  have hlast : total pre + b.size ≠ s.memSizeAligned + 24 ↔ post ≠ [] := by
    refine ⟨?_, fun hne => ?_⟩
    · rintro hne rfl
      exact hne htotal
    · have hsized := h.sized
      rw [sized_append, sized_cons] at hsized
      have := total_pos hsized.2.2 hne
      omega
  simp (disch := omega) only [splitItem, setPoolPtr, setNext, setPrev,
    next, Nat.add_assoc (total pre) 24 size, h.marks.2, hnext,
    load_store_of_disjoint, load_store_self, hlast, ite_not]
  split <;> rfl

/-- The two headers of a split describe the shortened item and the free remainder. -/
theorem splitHeaders_items {m : ByteMemory} {base pool prev off size : ℕ}
    (h : ItemAt m base pool prev off b) (hfit : size + 48 ≤ b.size)
    (hoff : off + b.size < 2 ^ 64) (hpool : pool < 2 ^ 64) :
    let m' := splitHeaders m base pool off size (off + b.size)
    ItemAt m' base pool prev off ⟨24 + size, b.used⟩ ∧
      ItemAt m' base pool off (off + (24 + size)) ⟨b.size - (24 + size), false⟩ := by
  dsimp only [splitHeaders]
  refine ⟨⟨?_, ?_, ?_⟩, ⟨?_, ?_, ?_⟩⟩
  · rw [← h.poolPtr]
    simp (disch := omega) only [load_store_of_disjoint]
  · exact load_store_self (by omega)
  · rw [← h.prev]
    simp (disch := omega) only [load_store_of_disjoint]
  · simp (disch := omega) only [load_store_of_disjoint, load_store_self]
    rfl
  · simp (disch := omega) only [load_store_of_disjoint, load_store_self]
    omega
  · simp (disch := omega) only [load_store_of_disjoint, load_store_self]

/-- Outside the item a split writes nothing but the back link behind it. -/
theorem splitHeaders_of_outside {m : ByteMemory} {base pool off size next a : ℕ}
    (h : a < base + off ∨ base + off + (24 + size) + 24 ≤ a) :
    splitHeaders m base pool off size next a = m a := by
  simp (disch := omega) only [splitHeaders, store_of_outside]

/-- A split writes the header of its item, that of the remainder, and the back link behind it. -/
theorem Shape.splitItem_of_outside (h : Shape s (pre ++ b :: post)) {size a : ℕ}
    (hfit : size + 48 ≤ b.size) (ha : a < s.heapPtr + total pre ∨ (s.heapPtr + total pre + 24 ≤ a ∧
        a < s.heapPtr + total pre + 24 + size) ∨
      (s.heapPtr + total pre + b.size ≤ a ∧ a < s.heapPtr + total pre + b.size + 16) ∨
      s.heapPtr + total pre + b.size + 24 ≤ a) : (s.splitItem (total pre) size).mem a = s.mem a := by
  have hheaders : splitHeaders s.mem s.heapPtr s.self (total pre) size (total pre + b.size) a =
      s.mem a := by
    simp (disch := omega) only [splitHeaders, store_of_outside]
  rw [h.splitItem_mem size]
  split
  · exact hheaders
  · rw [store_of_outside (by omega), hheaders]

/-- Splitting an item leaves its front part with the old mark and a free remainder. -/
theorem Shape.split (h : Shape s (pre ++ b :: post)) {size : ℕ} (hmod : size % 8 = 0)
    (hpos : 8 ≤ size) (hfit : size + 48 ≤ b.size) : Shape (s.splitItem (total pre) size)
      (pre ++ ⟨24 + size, b.used⟩ :: ⟨b.size - (24 + size), false⟩ :: post) := by
  obtain ⟨hsize, hbmod, -, htotal, hend, hlt⟩ := h.bounds
  have hchain := (chain_append pre (b :: post)).mp h.chain
  rw [zero_add] at hchain
  have hsized := h.sized
  rw [sized_append, sized_cons] at hsized
  obtain ⟨hfront, hback⟩ := splitHeaders_items hchain.2.1 hfit (by omega) h.self_lt
  have hmem := h.splitItem_mem size
  have hlocal : ∀ a, a < s.heapPtr + (total pre + b.size) → (s.splitItem (total pre) size).mem a =
        splitHeaders s.mem s.heapPtr s.self (total pre) size (total pre + b.size) a := by
    intro a ha
    rw [hmem]
    split
    · rfl
    · exact store_of_outside (by omega)
  have hnext : total pre + (24 + size) + (b.size - (24 + size)) = total pre + b.size := by omega
  rw [Heap.splitItem_fields]
  refine h.of_mem ((chain_append pre _).mpr ⟨?_, ?_, ?_, ?_⟩) ?_ ?_ ?_
  · refine hchain.1.congr hsized.1 fun a _ _ => ?_
    rw [hlocal a (by omega), splitHeaders_of_outside (by omega)]
  · rw [zero_add]
    exact hfront.congr fun a _ _ => hlocal a (by omega)
  · rw [zero_add]
    exact hback.congr fun a _ _ => hlocal a (by omega)
  · rw [zero_add]
    rw [hnext, hmem]
    cases post with
    | nil => trivial
    | cons c rest =>
      have hkept : Chain (splitHeaders s.mem s.heapPtr s.self (total pre) size
          (total pre + b.size)) s.heapPtr s.self (total pre) (total pre + b.size) (c :: rest) :=
        hchain.2.2.congr hsized.2.2 fun a _ _ => splitHeaders_of_outside (by omega)
      exact hkept.storePrev hsized.2.2 (by omega)
  · simp only [sized_append, sized_cons]
    exact ⟨hsized.1, ⟨by omega, by omega, fun _ => by omega⟩, ⟨by omega, by omega, by simp⟩, hsized.2.2⟩
  · simp only [total_append, total_cons]
    omega
  · intro a _ _
    rw [hmem]
    split
    · exact splitHeaders_of_outside (by omega)
    · have hpos := total_pos hsized.2.2 ‹_›
      rw [store_of_outside (by omega), splitHeaders_of_outside (by omega)]

/-- The memory after an absorption: the absorbed item loses its pool pointer, the absorbing one
gets its `next`, and what stands there is linked back. -/
theorem Shape.absorb_mem (h : Shape s (pre ++ b :: c :: post)) :
    (s.absorb (s.heapPtr + total pre) (s.heapPtr + (total pre + b.size))).mem =
      ((s.mem.store (s.heapPtr + (total pre + b.size)) 8 0).store
        (s.heapPtr + total pre + 8) 8 (total pre + (b.size + c.size))).store
        (s.heapPtr + (total pre + (b.size + c.size)) + 16) 8 (total pre) := by
  have hb := h.bounds
  have hnext := h.snoc.itemAt.next
  simp only [total_append, total_cons, total_nil, add_zero, Nat.add_assoc (total pre)] at hnext
  simp (disch := omega) only [Heap.absorb, setPoolPtr, setNext, setPrev, next,
    hnext, load_store_of_disjoint, Nat.add_sub_cancel_left]

/-- An item that absorbs its successor keeps its mark and gets both sizes. -/
theorem Shape.absorb (h : Shape s (pre ++ b :: c :: post)) :
    Shape (s.absorb (s.heapPtr + total pre) (s.heapPtr + (total pre + b.size)))
      (pre ++ ⟨b.size + c.size, b.used⟩ :: post) := by
  obtain ⟨hsize, hbmod, -, htotal, hend, hlt⟩ := h.bounds
  have hchain := (chain_append pre (b :: c :: post)).mp h.chain
  rw [zero_add] at hchain
  have hsized := h.sized
  rw [sized_append, sized_cons, sized_cons] at hsized
  rw [total_cons] at htotal
  rw [Heap.absorb_fields, h.absorb_mem]
  refine h.of_mem ((chain_append pre _).mpr ⟨?_, ?_, ?_⟩) ?_ ?_ ?_
  · refine ((hchain.1.store hsized.1 ?_).store hsized.1 ?_).store hsized.1 ?_ <;> omega
  · rw [zero_add]
    refine ⟨?_, ?_, ?_⟩
    · rw [← hchain.2.1.poolPtr]
      simp (disch := omega) only [load_store_of_disjoint]
    · simp (disch := omega) only [load_store_of_disjoint, load_store_self]
    · rw [← hchain.2.1.prev]
      simp (disch := omega) only [load_store_of_disjoint]
  · rw [zero_add]
    cases post with
    | nil => trivial
    | cons d rest =>
      have hpost := hchain.2.2.2
      rw [Nat.add_assoc] at hpost
      refine ((hpost.store hsized.2.2.2 ?_).store hsized.2.2.2 ?_).storePrev hsized.2.2.2 ?_ <;>
        omega
  · simp only [sized_append, sized_cons]
    exact ⟨hsized.1, ⟨by omega, by omega, fun _ => by omega⟩, hsized.2.2.2⟩
  · simp only [total_append, total_cons]
    omega
  · intro a _ _
    have hpost : post = [] ∨ 24 ≤ total post := or_iff_not_imp_left.mpr (total_pos hsized.2.2.2)
    rcases hpost with rfl | hpost
    · rw [total_nil] at htotal
      simp (disch := omega) only [store_of_outside]
    · simp (disch := omega) only [store_of_outside]

end Edits

end RtThread.SmallMem
