import RtThread.Lib.Transition
import RtThread.SmallMem.Realloc

/-!
# Every heap that a program can reach

`Reachable` is every state that a heap set up by `rt_smem_init` reaches by `rt_smem_alloc`,
`rt_smem_realloc` and `rt_smem_free` on null or live blocks, with the owners of the live blocks
writing their data in between. `WellFormed` says in the terms of the source what such a heap looks
like, without the list of blocks that the proofs work with.
-/

namespace RtThread.SmallMem

open Lib List Heap ByteMemory

/-- Following `next` from offset `off` visits the items at these offsets, each behind the one
before, and ends exactly at `heap_end`. -/
inductive Heap.Walk (s : Heap) : ℕ → List ℕ → Prop where
  | done {off : ℕ} : s.heapPtr + off = s.heapEnd → s.Walk off []
  | item {off : ℕ} {rest : List ℕ} : off < s.next (s.heapPtr + off) →
      s.Walk (s.next (s.heapPtr + off)) rest → s.Walk off (off :: rest)

/-- Each item's `prev` is the offset of the item before it, `prev` for the first. -/
def Heap.PrevLinked (s : Heap) : ℕ → List ℕ → Prop
  | _, [] => True
  | prev, o :: rest => s.prev (s.heapPtr + o) = prev ∧ s.PrevLinked o rest

/-- The item at this offset is in use. -/
def Heap.usedAt (s : Heap) (o : ℕ) : Bool := s.memIsUsed (s.heapPtr + o)

/-- The heap seen through its headers, with the blocks that are live. -/
structure WellFormed (s : Heap) (items live : List ℕ) : Prop where
  walk : s.Walk 0 items
  prevLinked : s.PrevLinked 0 items
  coalesced : items.IsChain fun a b => s.usedAt a ∨ s.usedAt b
  lfree_lowest : (s.lfree = s.heapEnd ∧ ∀ o ∈ items, s.usedAt o) ∨
    ∃ o ∈ items, s.lfree = s.heapPtr + o ∧ ¬ s.usedAt o ∧ ∀ o' ∈ items, ¬ s.usedAt o' → o ≤ o'
  used_eq : s.used =
    ((items.filter s.usedAt).map fun o => s.next (s.heapPtr + o) - o).sum
  live_iff : ∀ p, p ∈ live ↔ ∃ o ∈ items, s.usedAt o ∧ p = s.dataAt o
  live_disjoint : live.Pairwise fun p q => s.dataEnd p ≤ q ∨ s.dataEnd q ≤ p
  live_inside : ∀ p ∈ live, s.heapPtr ≤ p ∧ p < s.dataEnd p ∧ s.dataEnd p ≤ s.heapEnd
  live_headers : ∀ p ∈ live, ∀ o ∈ items, s.heapPtr + o + sizeofStructMem ≤ p ∨
    s.dataEnd p ≤ s.heapPtr + o

variable {s : Heap} {pre post blocks : List Block} {b : Block} {live : List ℕ}

/-- The items of a well-linked heap are walked in order. -/
theorem Shape.walk (h : Shape s (pre ++ post)) : s.Walk (total pre) (offsets (total pre) post) := by
  induction post generalizing pre with
  | nil =>
    have htotal := h.total_eq
    rw [append_nil] at htotal
    exact Heap.Walk.done (by rw [htotal, h.heapEnd_eq])
  | cons b rest ih =>
    obtain ⟨hsize, -, -, -⟩ := h.bounds
    have hnext := h.next_eq
    have hwalk := ih h.snoc
    rw [total_snoc] at hwalk
    refine Heap.Walk.item (by omega) ?_
    rw [hnext]
    exact hwalk

/-- The `prev` fields of a chain link back. -/
theorem Chain.prevLinked {prev off : ℕ} (h : Chain s.mem s.heapPtr s.self prev off blocks) :
    s.PrevLinked prev (offsets off blocks) := by
  induction blocks generalizing prev off with
  | nil => trivial
  | cons b rest ih => exact ⟨h.1.prev, ih h.2⟩

/-- An offset is that of an item exactly when the list splits there. -/
theorem mem_offsets_from {off o : ℕ} : o ∈ offsets off blocks ↔
    ∃ pre b post, blocks = pre ++ b :: post ∧ o = off + total pre := by
  constructor
  · induction blocks generalizing off with
    | nil => simp [offsets]
    | cons b rest ih =>
      intro h
      rcases mem_cons.mp h with rfl | h
      · exact ⟨[], b, rest, rfl, rfl⟩
      · obtain ⟨pre, c, post, rfl, rfl⟩ := ih h
        exact ⟨b :: pre, c, post, rfl, by rw [total_cons, Nat.add_assoc]⟩
  · rintro ⟨pre, b, post, rfl, rfl⟩
    rw [offsets_append]
    exact mem_append_right _ mem_cons_self

/-- The offsets from the start of the heap. -/
theorem mem_offsets {o : ℕ} : o ∈ offsets 0 blocks ↔
    ∃ pre b post, blocks = pre ++ b :: post ∧ o = total pre := by
  simp only [mem_offsets_from, zero_add]

/-- The mark of an item, by its offset. -/
theorem Shape.usedAt_eq (h : Shape s (pre ++ b :: post)) : s.usedAt (total pre) = b.used :=
  h.memIsUsed_eq

/-- The use marks read from the headers are those of the list. -/
theorem Shape.map_usedAt (h : Shape s (pre ++ post)) :
    (offsets (total pre) post).map s.usedAt = post.map Block.used := by
  induction post generalizing pre with
  | nil => rfl
  | cons b rest ih =>
    have hmap := ih h.snoc
    rw [total_snoc] at hmap
    rw [offsets, map_cons, map_cons, hmap, h.usedAt_eq]

/-- The sizes read from the headers of the items in use add up to the used bytes. -/
theorem Shape.sum_used (h : Shape s (pre ++ post)) : (((offsets (total pre) post).filter s.usedAt).map
      fun o => s.next (s.heapPtr + o) - o).sum = usedTotal post := by
  induction post generalizing pre with
  | nil => rfl
  | cons b rest ih =>
    have hsum := ih h.snoc
    rw [total_snoc] at hsum
    rw [offsets, filter_cons, usedTotal_cons, h.usedAt_eq]
    cases b.used
    · simpa using hsum
    · simp [hsum, h.next_eq]

/-- The data of an item ends at or before every later item. -/
theorem Shape.pairwise_next (h : Shape s (pre ++ post)) :
    (offsets (total pre) post).Pairwise fun o o' => s.next (s.heapPtr + o) ≤ o' := by
  induction post generalizing pre with
  | nil => exact List.Pairwise.nil
  | cons b rest ih =>
    have hpairs := ih h.snoc
    rw [total_snoc] at hpairs
    refine List.Pairwise.cons (fun o ho => ?_) hpairs
    have hsized := h.sized
    rw [sized_append, sized_cons] at hsized
    rw [h.next_eq]
    exact (mem_offsets_bounds hsized.2.2 ho).1

/-- `lfree` is the lowest free item, or the end. -/
theorem Tracks.lfree_lowest (h : Tracks s blocks live) :
    (s.lfree = s.heapEnd ∧ ∀ o ∈ offsets 0 blocks, s.usedAt o) ∨
    ∃ o ∈ offsets 0 blocks, s.lfree = s.heapPtr + o ∧ ¬ s.usedAt o ∧
      ∀ o' ∈ offsets 0 blocks, ¬ s.usedAt o' → o ≤ o' := by
  have hused : ∀ o ∈ offsets 0 blocks, ∃ b ∈ blocks, s.usedAt o = b.used := by
    intro o ho
    obtain ⟨pre, b, post, rfl, rfl⟩ := mem_offsets.mp ho
    exact ⟨b, by simp, h.toShape.usedAt_eq⟩
  obtain ⟨pre, post, rfl, hall, hfirst, hhead⟩ := exists_firstFree_split 0 blocks
  rw [zero_add] at hfirst
  rw [all_eq_true] at hall
  cases post with
  | nil =>
    left
    have htotal := h.total_eq
    rw [append_nil] at hused htotal hfirst ⊢
    refine ⟨?_, fun o ho => ?_⟩
    · rw [h.lfree_eq, append_nil, hfirst, htotal, h.heapEnd_eq]
    · obtain ⟨b, hb, heq⟩ := hused o ho
      rw [heq]
      exact hall b hb
  | cons c rest =>
    right
    refine ⟨total pre, mem_offsets.mpr ⟨pre, c, rest, rfl, rfl⟩, by rw [h.lfree_eq, hfirst], ?_, ?_⟩
    · rw [h.toShape.usedAt_eq, hhead c (by simp)]
      simp
    · intro o ho hfree
      by_contra hlt
      rw [offsets_append, mem_append, zero_add] at ho
      have hsized := h.sized
      rw [sized_append] at hsized
      rcases ho with ho | ho
      · obtain ⟨front, d, back, rfl, rfl⟩ := mem_offsets.mp ho
        have hd : Shape s (front ++ d :: (back ++ c :: rest)) := by simpa using h.toShape
        rw [hd.usedAt_eq] at hfree
        exact hfree (hall d (by simp))
      · exact hlt (mem_offsets_bounds hsized.2 ho).1

/-- A heap with the invariant is well formed in the terms of the source. -/
theorem Invariant.wellFormed (h : Invariant s blocks live) : WellFormed s (offsets 0 blocks) live := by
  have hnil : Shape s ([] ++ blocks) := h.toShape
  have hwalk := hnil.walk
  have hmap := hnil.map_usedAt
  have hsum := hnil.sum_used
  have hnext := hnil.pairwise_next
  rw [total_nil] at hwalk hmap hsum hnext
  refine ⟨hwalk, h.chain.prevLinked, ?_, h.toTracks.lfree_lowest, ?_, fun p => ?_, ?_, ?_, ?_⟩
  · have hcoalesced : (blocks.map Block.used).IsChain fun a b => a = true ∨ b = true :=
      (isChain_map Block.used).mpr h.coalesced
    rw [← hmap, isChain_map] at hcoalesced
    exact hcoalesced
  · rw [h.used_eq, hsum]
  · constructor
    · intro hp
      obtain ⟨pre, b, post, rfl, rfl, hb⟩ := h.exists_item hp
      exact ⟨total pre, mem_offsets.mpr ⟨pre, b, post, rfl, rfl⟩, h.toShape.usedAt_eq.trans hb, rfl⟩
    · rintro ⟨o, ho, hused, rfl⟩
      obtain ⟨pre, b, post, rfl, rfl⟩ := mem_offsets.mp ho
      refine h.live_perm.mem_iff.mpr (mem_map.mpr ⟨total pre, ?_, rfl⟩)
      exact mem_usedOffsets.mpr
        ⟨pre, b, post, rfl, by rw [zero_add], h.toShape.usedAt_eq.symm.trans hused⟩
  · have hpairs := hnext.sublist (usedOffsets_sublist 0 blocks)
    have hdata : ((usedOffsets 0 blocks).map s.dataAt).Pairwise
        fun p q => s.dataEnd p ≤ q ∨ s.dataEnd q ≤ p := by
      refine pairwise_map.mpr (hpairs.imp fun hle => .inl ?_)
      rw [dataEnd, Nat.add_sub_cancel]
      unfold dataAt
      omega
    exact (h.live_perm.pairwise_iff fun hpq => hpq.symm).mpr hdata
  · intro p hp
    obtain ⟨pre, b, post, rfl, rfl, hb⟩ := h.exists_item hp
    obtain ⟨-, -, -, htotal, -⟩ := h.toShape.bounds
    have hdata := h.toShape.data_pos hb
    have hend := h.heapEnd_eq
    rw [h.toShape.dataEnd_eq]
    unfold dataAt
    omega
  · intro p hp o ho
    obtain ⟨pre, b, post, rfl, rfl, hb⟩ := h.exists_item hp
    have hmiddle := mem_offsets_middle h.sized ho
    rw [h.toShape.dataEnd_eq]
    change s.heapPtr + o + 24 ≤ s.heapPtr + total pre + 24 ∨ _
    omega

/-- A formatted heap is one free item that fills it. -/
theorem Heap.format_invariant (mem : ByteMemory) {self base size : ℕ} (hself : self < 2 ^ 64)
    (hselfMod : self % 8 = 0) (hbase : base % 8 = 0) (hsize : size % 8 = 0)
    (hlt : base + (size + 24) + 24 < 2 ^ 64) :
    Invariant (format mem self base size) [⟨size + 24, false⟩] [] := by
  have hfreed : self / 2 * 2 = self := by omega
  have hitem : ItemAt (format mem self base size).mem base self 0 0 ⟨size + 24, false⟩ := by
    constructor <;> simp (disch := omega) only [format, setPoolPtr, setNext,
      setPrev, memFreed, sizeofStructMem, hfreed, add_zero, zero_add,
      load_store_of_disjoint, load_store_self, Bool.toNat_false]
  refine ⟨⟨⟨⟨hitem, trivial⟩, ?_, ?_, rfl, ?_, ?_, hlt, hself, hbase, hselfMod⟩, rfl, rfl, ?_⟩, ?_⟩
  · intro b hb
    rw [mem_singleton.mp hb]
    exact ⟨by dsimp only; omega, by dsimp only; omega, by simp⟩
  · simp [format, setPoolPtr, setNext, setPrev]
  rotate_left 2
  · exact List.Perm.nil
  · exact isChain_singleton _
  all_goals
    simp (disch := omega) only [format, setPoolPtr, setNext, setPrev, memUsed, sizeofStructMem,
      hfreed, load_store_of_disjoint, load_store_self]

/-- Where `rt_smem_init` accepts its range, the size it computes does not wrap. -/
theorem initSize_spec {startAddr endAlign : ℕ} (hmod : endAlign % 8 = 0) (hlt : endAlign < 2 ^ 64)
    (hmin : 48 < endAlign) (hstart : startAddr ≤ wordSub endAlign 48) :
    wordSub (wordSub endAlign (rtAlign startAddr)) 48 = endAlign - rtAlign startAddr - 48 ∧
      rtAlign startAddr + 48 ≤ endAlign := by
  rw [wordSub_of_le (by omega) hlt] at hstart
  have hround : rtAlign startAddr = (startAddr + 7) / 8 * 8 := by
    rw [rtAlign, wordAdd_of_lt (by omega)]
  have hroom : rtAlign startAddr + 48 ≤ endAlign := by omega
  rw [wordSub_of_le (by omega) hlt, wordSub_of_le (by omega) (by omega)]
  exact ⟨rfl, hroom⟩

/-- `rt_smem_init` leaves one free item that fills the heap. -/
theorem rtSmemInit_invariant {mem : ByteMemory} {objectSize beginAddr size : ℕ}
    (h : rtSmemInit mem objectSize beginAddr size = some s) : ∃ blocks, Invariant s blocks [] := by
  have hend : rtAlignDown (wordAdd beginAddr size) % 8 = 0 ∧
      rtAlignDown (wordAdd beginAddr size) < 2 ^ 64 := by
    unfold rtAlignDown wordAdd wordLimit
    omega
  simp only [rtSmemInit, sizeofStructMem, Nat.reduceMul] at h
  split_ifs at h with hfit
  cases h
  have hstart := rtAlign_mod (wordAdd (rtAlign beginAddr) objectSize)
  obtain ⟨hsize, hroom⟩ := initSize_spec hend.1 hend.2 hfit.1 hfit.2
  refine ⟨_, Heap.format_invariant mem (rtAlign_lt _) (rtAlign_mod _) (rtAlign_mod _) ?_ ?_⟩
  · omega
  · omega

/-- The states that a heap reaches, with the blocks that are live in them. -/
inductive Reachable (start : Heap) : Heap → List ℕ → Prop where
  | init : Reachable start start []
  | alloc {s s' : Heap} {live : List ℕ} {n p : ℕ} : Reachable start s live →
      rtSmemAlloc s n = some (s', p) → Reachable start s' (if p = 0 then live else p :: live)
  | realloc {s s' : Heap} {live : List ℕ} {p n q : ℕ} : Reachable start s live →
      (p = 0 ∨ p ∈ live) → rtSmemRealloc s p n = some (s', q) →
      Reachable start s' (liveAfterRealloc live p n q)
  | free {s s' : Heap} {live : List ℕ} {p : ℕ} : Reachable start s live →
      (p = 0 ∨ p ∈ live) → rtSmemFree s p = some s' → Reachable start s' (live.erase p)
  | write {s : Heap} {live : List ℕ} {m : ByteMemory} : Reachable start s live →
      (∀ a, (∀ p ∈ live, ¬ s.InData p a) → m a = s.mem a) →
      Reachable start { s with mem := m } live

/-- One allocation that returns keeps the invariant. -/
theorem Invariant.alloc_step (h : Invariant s blocks live) {s' : Heap} {n p : ℕ}
    (hstep : rtSmemAlloc s n = some (s', p)) :
    ∃ blocks', Invariant s' blocks' (if p = 0 then live else p :: live) := by
  by_cases hself : s.self = 0
  · by_cases hn : n = 0
    · rw [rtSmemAlloc, if_pos hn] at hstep
      cases hstep
      exact ⟨blocks, h⟩
    · rw [rtSmemAlloc_of_null hself hn] at hstep
      cases hstep
  · rcases h.alloc hself n with heq | ⟨t, pre, b, post, -, -, -, heq, hinv, -⟩
    · rw [heq] at hstep
      cases hstep
      exact ⟨blocks, h⟩
    · rw [heq] at hstep
      cases hstep
      exact ⟨_, hinv⟩

/-- One release that returns keeps the invariant. -/
theorem Invariant.free_step (h : Invariant s blocks live) {s' : Heap} {p : ℕ}
    (hp : p = 0 ∨ p ∈ live) (hstep : rtSmemFree s p = some s') :
    ∃ blocks', Invariant s' blocks' (live.erase p) := by
  rcases hp with rfl | hp
  · cases hstep
    rw [erase_of_not_mem h.toTracks.zero_not_mem]
    exact ⟨blocks, h⟩
  · by_cases hself : s.self = 0
    · obtain ⟨pre, b, post, rfl, rfl, -⟩ := h.exists_item hp
      rw [h.toShape.rtSmemFree_of_self_eq_zero hself] at hstep
      cases hstep
    · obtain ⟨t, blocks', heq, hinv, -⟩ := h.free hself hp
      rw [heq] at hstep
      cases hstep
      exact ⟨blocks', hinv⟩

/-- One change of size that returns keeps the invariant. -/
theorem Invariant.realloc_step (h : Invariant s blocks live) {s' : Heap} {p n q : ℕ}
    (hp : p = 0 ∨ p ∈ live) (hstep : rtSmemRealloc s p n = some (s', q)) :
    ∃ blocks', Invariant s' blocks' (liveAfterRealloc live p n q) := by
  by_cases hself : s.self = 0
  · rw [rtSmemRealloc_of_null hself] at hstep
    cases hstep
  · obtain ⟨t, r, blocks', heq, hinv, -⟩ := h.realloc hself hp n
    rw [heq] at hstep
    cases hstep
    exact ⟨blocks', hinv⟩

/-- Every reachable heap has the invariant. -/
theorem Reachable.invariant {start : Heap} (hstart : ∃ blocks, Invariant start blocks [])
    (h : Reachable start s live) : ∃ blocks, Invariant s blocks live := by
  induction h with
  | init => exact hstart
  | alloc _ hstep ih =>
    obtain ⟨blocks, hinv⟩ := ih
    exact hinv.alloc_step hstep
  | realloc _ hp hstep ih =>
    obtain ⟨blocks, hinv⟩ := ih
    exact hinv.realloc_step hp hstep
  | free _ hp hstep ih =>
    obtain ⟨blocks, hinv⟩ := ih
    exact hinv.free_step hp hstep
  | write _ hkeep ih =>
    obtain ⟨blocks, hinv⟩ := ih
    exact ⟨blocks, hinv.write hkeep⟩

/-- In every state that a heap set up by `rt_smem_init` reaches, the items form a chain that ends
at `heap_end` and links back, no two free items are neighbours, `lfree` and `used` say what they
should, and the live blocks are disjoint data areas inside the heap. Every further call on null or
a live block returns: no assertion fails and no loop runs on. -/
theorem rtSmem_wellFormed {mem : ByteMemory} {objectSize beginAddr size : ℕ} {start : Heap}
    (hinit : rtSmemInit mem objectSize beginAddr size = some start) (hreach : Reachable start s live) :
    (∃ items, WellFormed s items live) ∧ (s.self ≠ 0 → ∀ p n, (p = 0 ∨ p ∈ live) →
        (∃ r, rtSmemAlloc s n = some r) ∧ (∃ r, rtSmemRealloc s p n = some r) ∧
          ∃ s', rtSmemFree s p = some s') := by
  obtain ⟨blocks, hinv⟩ := hreach.invariant (rtSmemInit_invariant hinit)
  refine ⟨⟨_, hinv.wellFormed⟩, fun hself p n hp => ⟨?_, ?_, ?_⟩⟩
  · rcases hinv.alloc hself n with heq | ⟨t, pre, b, post, -, -, -, heq, -⟩
    · exact ⟨_, heq⟩
    · exact ⟨_, heq⟩
  · obtain ⟨t, q, blocks', heq, -⟩ := hinv.realloc hself hp n
    exact ⟨_, heq⟩
  · rcases hp with rfl | hp
    · exact ⟨s, by rw [rtSmemFree, if_pos rfl]⟩
    · obtain ⟨t, blocks', heq, -⟩ := hinv.free hself hp
      exact ⟨t, heq⟩

/-- A heap of 1024 bytes from address 4096 on, after its first allocation. -/
theorem rtSmem_wellFormed_first_alloc : ∃ start s, rtSmemInit (fun _ => 0) 88 4096 1024 = some start ∧
      rtSmemAlloc start 100 = some (s, 4208) ∧ ∃ items, WellFormed s items [4208] := by
  obtain ⟨start, hinit, s, halloc⟩ : ∃ start, rtSmemInit (fun _ => 0) 88 4096 1024 = some start ∧
      ∃ s, rtSmemAlloc start 100 = some (s, 4208) := by decide +kernel
  have hstart : Reachable start start [] := Reachable.init
  have hreach := hstart.alloc halloc
  exact ⟨start, s, hinit, halloc, (rtSmem_wellFormed hinit hreach).1⟩

end RtThread.SmallMem
