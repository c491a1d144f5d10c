import RtThread.SmallMem.Reachable

/-!
# Allocation is complete

`rt_smem_alloc` starts its search at `lfree` and ends it at a bound that it computes by subtraction. In
a heap that a program can reach neither of them hides an item that fits: a request is refused only when
no free item is large enough, and otherwise the lowest such item serves it. A block that shrinks too
little to be split needs such an item too, so shrinking can fail.
-/

namespace RtThread.SmallMem

open Lib List Option

variable {s s' : Heap} {pre post pre' post' blocks : List Block} {b : Block} {live : List ℕ} {size n : ℕ}

/-- The data bytes of the item at this offset. -/
def Heap.dataSize (s : Heap) (o : ℕ) : ℕ := s.next (s.heapPtr + o) - (o + sizeofStructMem)

/-- The item at offset `o` is the lowest free one with `size` data bytes, and it is taken: a remainder is
split off when it can hold an item of the minimum size, and the other items keep their place, their size
and their mark. -/
structure Heap.Serves (s s' : Heap) (items : List ℕ) (size o : ℕ) : Prop where
  free : ¬ s.usedAt o
  fits : size ≤ s.dataSize o
  lowest : ∀ o' ∈ items, ¬ s.usedAt o' → size ≤ s.dataSize o' → o ≤ o'
  used : s'.usedAt o
  holds : size ≤ s'.dataSize o
  cut : ∃ front back, items = front ++ o :: back ∧ s'.Walk 0 (front ++ o ::
    (if size + sizeofStructMem + minSizeAligned ≤ s.dataSize o then [o + (sizeofStructMem + size)]
      else []) ++ back)
  rest : size + sizeofStructMem + minSizeAligned ≤ s.dataSize o →
    ¬ s'.usedAt (o + (sizeofStructMem + size)) ∧
      minSizeAligned ≤ s'.dataSize (o + (sizeofStructMem + size))
  others : ∀ o' ∈ items, o' ≠ o → s'.usedAt o' = s.usedAt o' ∧ s'.dataSize o' = s.dataSize o'

/-- The data bytes of an item, by its offset. -/
theorem Shape.dataSizeAt_eq (h : Shape s (pre ++ b :: post)) : s.dataSize (total pre) = b.size - 24 := by
  rw [Heap.dataSize, h.next_eq, Nat.add_sub_add_left]

/-- An item that is in both heaps at one place looks the same. -/
theorem Shape.same_item (h : Shape s (pre ++ b :: post)) (h' : Shape s' (pre' ++ b :: post'))
    (htotal : total pre' = total pre) : s'.usedAt (total pre) = s.usedAt (total pre) ∧
      s'.dataSize (total pre) = s.dataSize (total pre) := by
  have hused := h'.usedAt_eq
  have hsize := h'.dataSizeAt_eq
  rw [htotal] at hused hsize
  exact ⟨hused.trans h.usedAt_eq.symm, hsize.trans h.dataSizeAt_eq.symm⟩

/-- When the search finds nothing, every free item is too small. -/
theorem lt_of_firstFit_eq_none {off : ℕ} (h : firstFit size off blocks = none) :
    ∀ c ∈ blocks, c.used = false → c.size < size + 24 := by
  induction blocks generalizing off with
  | nil => simp
  | cons c rest ih =>
    rw [firstFit] at h
    split_ifs at h with hfit
    rw [forall_mem_cons]
    exact ⟨fun hc => Nat.lt_of_not_le fun hle => hfit ⟨hc, hle⟩, ih h⟩

/-- The offsets of the items once one of them is carved. -/
theorem offsets_carve (size : ℕ) (pre post : List Block) (b : Block) :
    offsets 0 (pre ++ ⟨carvedSize size b, true⟩ :: (carvedRest size b ++ post)) =
      offsets 0 pre ++ total pre :: (if size + 72 ≤ b.size then [total pre + (24 + size)] else []) ++
        offsets (total pre + b.size) post := by
  have hend : total pre + carvedSize size b + total (carvedRest size b) = total pre + b.size := by
    rw [Nat.add_assoc, carvedSize_add_total]
  rw [offsets_append, offsets, offsets_append, zero_add, hend, carvedRest, carvedSize]
  split <;> simp [offsets]

/-- The first fit serves the request. -/
theorem Invariant.serves {live' : List ℕ} (h : Invariant s (pre ++ b :: post) live)
    (hb : b.used = false) (hfit : size + 24 ≤ b.size)
    (hearlier : ∀ a ∈ pre, a.used = false → a.size < size + 24)
    (h' : Invariant s' (pre ++ ⟨carvedSize size b, true⟩ :: (carvedRest size b ++ post)) live') :
    s.Serves s' (offsets 0 (pre ++ b :: post)) size (total pre) := by
  have hshape := h.toShape
  have hshape' := h'.toShape
  have hused : s.usedAt (total pre) = false := hshape.usedAt_eq.trans hb
  have hdata := hshape.dataSizeAt_eq
  have hsplit : size + sizeofStructMem + minSizeAligned ≤ s.dataSize (total pre) ↔ size + 72 ≤ b.size := by
    rw [hdata]
    change size + 24 + 24 ≤ b.size - 24 ↔ _
    omega
  have hitems : offsets 0 (pre ++ b :: post) =
      offsets 0 pre ++ total pre :: offsets (total pre + b.size) post := by
    rw [offsets_append, zero_add, offsets]
  -- An item is before the one that is taken, or it is that one, or it is behind.
  have hcases : ∀ o ∈ offsets 0 (pre ++ b :: post),
      (∃ front a back, pre = front ++ a :: back ∧ o = total front) ∨ o = total pre ∨
      ∃ front a back, post = front ++ a :: back ∧ o = total pre + b.size + total front := by
    intro o ho
    rw [hitems, mem_append, mem_cons] at ho
    exact ho.imp mem_offsets.mp (Or.imp_right mem_offsets_from.mp)
  refine ⟨by simp [hused], by omega, fun o ho hfree hlarge => ?_, hshape'.usedAt_eq, ?_,
    ⟨_, _, hitems, ?_⟩, fun hlarge => ?_, fun o ho hne => ?_⟩
  · rcases hcases o ho with ⟨front, a, back, rfl, rfl⟩ | rfl | ⟨front, a, back, -, rfl⟩
    · have hitem : Shape s (front ++ a :: (back ++ b :: post)) := by simpa using hshape
      rw [hitem.usedAt_eq, Bool.not_eq_true] at hfree
      rw [hitem.dataSizeAt_eq] at hlarge
      have hsmall := hearlier a (by simp) hfree
      have hmin := hitem.bounds.1
      omega
    · exact le_rfl
    · omega
  · have hcarved := le_carvedSize hfit
    rw [hshape'.dataSizeAt_eq]
    dsimp only
    omega
  · have hwalk := h'.wellFormed.walk
    rw [offsets_carve] at hwalk
    simp only [hsplit]
    exact hwalk
  · have hlarge' := hsplit.mp hlarge
    rw [carvedSize, carvedRest, if_pos hlarge', if_pos hlarge'] at hshape'
    have hrest : Shape s' ((pre ++ [⟨24 + size, true⟩]) ++ ⟨b.size - (24 + size), false⟩ :: post) := by
      simpa using hshape'
    have hoff : total (pre ++ [⟨24 + size, true⟩]) = total pre + (24 + size) := by simp
    have hfree := hrest.usedAt_eq
    have hsize := hrest.dataSizeAt_eq
    rw [hoff] at hfree hsize
    refine ⟨by simp [hfree], ?_⟩
    rw [hsize]
    change 24 ≤ b.size - (24 + size) - 24
    omega
  · rcases hcases o ho with ⟨front, a, back, rfl, rfl⟩ | rfl | ⟨front, a, back, rfl, rfl⟩
    · have hitem : Shape s (front ++ a :: (back ++ b :: post)) := by simpa using hshape
      have hitem' : Shape s' (front ++ a :: (back ++ ⟨carvedSize size b, true⟩ ::
          (carvedRest size b ++ post))) := by simpa using hshape'
      exact hitem.same_item hitem' rfl
    · exact absurd rfl hne
    · have hitem : Shape s ((pre ++ b :: front) ++ a :: back) := by simpa using hshape
      have hitem' : Shape s' ((pre ++ ⟨carvedSize size b, true⟩ :: (carvedRest size b ++ front)) ++
          a :: back) := by simpa using hshape'
      have hcarved := carvedSize_add_total size b
      have hsame := hitem.same_item hitem' (by simp; omega)
      rwa [total_append, total_cons, ← Nat.add_assoc] at hsame

/-- A request whose rounding does not wrap gets at least its bytes. -/
theorem le_requestSize_of_lt (h : n + 7 < 2 ^ 64) : n ≤ requestSize n := by
  have hround : n ≤ rtAlign n := by
    rw [rtAlign, wordAdd_of_lt h]
    omega
  change n ≤ if rtAlign n < 24 then 24 else rtAlign n
  split <;> omega

/-- What `rt_smem_alloc` does: it refuses when every free item is too small, and otherwise takes the lowest
one that fits. -/
theorem Invariant.alloc_cases (h : Invariant s blocks live) (hself : s.self ≠ 0) (hn : 0 < n) :
    rtSmemAlloc s n = some (s, 0) ∧ (∀ o ∈ offsets 0 blocks, ¬ s.usedAt o → s.dataSize o < requestSize n) ∨
    ∃ s', ∃ o ∈ offsets 0 blocks, rtSmemAlloc s n = some (s', s.dataAt o) ∧
      s.Serves s' (offsets 0 blocks) (requestSize n) o ∧ Keeps s s' live := by
  obtain ⟨hmin, hmod⟩ := requestSize_spec n
  have heq := h.rtSmemAlloc_eq hself n
  cases hfind : firstFit (requestSize n) 0 blocks with
  | none =>
    rw [hfind] at heq
    refine .inl ⟨heq.trans (ite_self _), fun o ho hfree => ?_⟩
    obtain ⟨pre, b, post, rfl, rfl⟩ := mem_offsets.mp ho
    rw [h.toShape.usedAt_eq, Bool.not_eq_true] at hfree
    have hsmall := lt_of_firstFit_eq_none hfind b (by simp) hfree
    rw [h.toShape.dataSizeAt_eq]
    omega
  | some ptr =>
    obtain ⟨pre, b, post, rfl, rfl, hb, hfit, hearlier⟩ := firstFit_eq_some hfind
    have hsmall : ¬ (n = 0 ∨ s.memSizeAligned < requestSize n) := by
      obtain ⟨-, -, -, htotal, -⟩ := h.toShape.bounds
      omega
    rw [if_neg hsmall, hfind, zero_add] at heq
    obtain ⟨s', halloc, hinv', hkeeps⟩ := h.allocAt hb hmod (by omega) hfit
    exact .inr ⟨s', _, mem_offsets.mpr ⟨pre, b, post, rfl, rfl⟩, heq.trans halloc,
      h.serves hb hfit hearlier hinv', hkeeps⟩

/-- An item that serves a request is one that fits. -/
theorem Heap.Serves.fit {items : List ℕ} {o : ℕ} (h : s.Serves s' items size o) (ho : o ∈ items) :
    ¬ ∀ o ∈ items, ¬ s.usedAt o → s.dataSize o < size := fun hnone =>
  absurd h.fits (Nat.not_le.mpr (hnone o ho h.free))

/-- In every state that a heap set up by `rt_smem_init` reaches, `rt_smem_alloc` returns the null address,
with nothing changed, exactly when no free item holds the rounded request. Otherwise the lowest such
item serves it, and no live block changes. -/
theorem rtSmemAlloc_complete {mem : ByteMemory} {objectSize beginAddr length : ℕ} {start : Heap}
    (hinit : rtSmemInit mem objectSize beginAddr length = some start)
    (hreach : Reachable start s live) (hself : s.self ≠ 0) (hn : 0 < n) (hwrap : n + 7 < 2 ^ 64) :
    ∃ items s' p, s.Walk 0 items ∧ rtSmemAlloc s n = some (s', p) ∧
      (p = 0 ↔ ∀ o ∈ items, ¬ s.usedAt o → s.dataSize o < requestSize n) ∧ (p = 0 → s' = s) ∧
      (p ≠ 0 → ∃ o ∈ items, p = s.dataAt o ∧ s.Serves s' items (requestSize n) o ∧
        n ≤ s'.dataSize o ∧ ∀ q ∈ live, KeepsBlock s s' q) := by
  obtain ⟨blocks, hinv⟩ := hreach.invariant (rtSmemInit_invariant hinit)
  obtain ⟨heq, hnone⟩ | ⟨s', o, ho, heq, hserves, hkeeps⟩ := hinv.alloc_cases hself hn
  · exact ⟨_, s, 0, hinv.wellFormed.walk, heq, iff_of_true rfl hnone, fun _ => rfl, by simp⟩
  · refine ⟨_, s', _, hinv.wellFormed.walk, heq, iff_of_false (by simp) (hserves.fit ho), by simp, fun _ => ?_⟩
    exact ⟨o, ho, rfl, hserves, (le_requestSize_of_lt hwrap).trans hserves.holds, hkeeps.block⟩

/-- The first allocation in a heap of 1024 bytes from address 4096 on takes its first item. -/
theorem rtSmemAlloc_complete_first : ∃ start items s' p,
    rtSmemInit (fun _ => 0) 88 4096 1024 = some start ∧ start.Walk 0 items ∧
    rtSmemAlloc start 100 = some (s', p) ∧
    (p = 0 ↔ ∀ o ∈ items, ¬ start.usedAt o → start.dataSize o < requestSize 100) := by
  obtain ⟨start, hinit, hself⟩ : ∃ start, rtSmemInit (fun _ => 0) 88 4096 1024 = some start ∧
      start.self = 4096 := by decide +kernel
  obtain ⟨items, s', p, hwalk, halloc, hnull, -⟩ := rtSmemAlloc_complete (n := 100) hinit .init
    (by rw [hself]; decide) (by decide) (by decide)
  exact ⟨start, items, s', p, hinit, hwalk, halloc, hnull⟩

/-- When every block has been freed, in whatever order, the heap is one free item again, and any request that
fits the heap is served. -/
theorem rtSmem_reclaimed {mem : ByteMemory} {objectSize beginAddr length : ℕ} {start : Heap}
    (hinit : rtSmemInit mem objectSize beginAddr length = some start) (hreach : Reachable start s []) :
    s.used = 0 ∧ s.lfree = s.heapPtr ∧ s.Walk 0 [0] ∧ (s.self ≠ 0 → ∀ n, 0 < n →
      requestSize n ≤ s.memSizeAligned → ∃ s', rtSmemAlloc s n = some (s', s.dataAt 0)) := by
  obtain ⟨blocks, hinv⟩ := hreach.invariant (rtSmemInit_invariant hinit)
  have hnone : usedOffsets 0 blocks = [] := map_eq_nil_iff.mp (nil_perm.mp hinv.live_perm)
  have htotal := hinv.total_eq
  match blocks with
  | [] => simp at htotal
  | b :: c :: rest =>
    -- two free neighbours
    have hused := hinv.coalesced.rel
    grind [usedOffsets]
  | [b] =>
    have hb : b.used = false := by simpa [usedOffsets] using hnone
    have hshape : Shape s ([] ++ b :: []) := hinv.toShape
    have hdata : s.dataSize 0 = b.size - 24 := hshape.dataSizeAt_eq
    refine ⟨by simp [hinv.used_eq, usedTotal, hb], by simp [hinv.lfree_eq, firstFree, hb],
      hinv.wellFormed.walk, fun hself n hn hfit => ?_⟩
    obtain ⟨-, hsmall⟩ | ⟨s', o, ho, heq, -⟩ := hinv.alloc_cases hself hn
    · have hlt := hsmall 0 mem_cons_self (ne_true_of_eq_false (hshape.usedAt_eq.trans hb))
      simp at htotal
      omega
    · obtain rfl : o = 0 := by simpa [offsets] using ho
      exact ⟨s', heq⟩

/-- A block is allocated and freed again. -/
theorem rtSmem_reclaimed_one : ∃ start s, rtSmemInit (fun _ => 0) 88 4096 1024 = some start ∧
    Reachable start s [] ∧ s.used = 0 := by
  obtain ⟨start, hinit, s, halloc, s', hfree, -⟩ : ∃ start, rtSmemInit (fun _ => 0) 88 4096 1024 = some start ∧
      ∃ s, rtSmemAlloc start 100 = some (s, 4208) ∧ ∃ s', rtSmemFree s 4208 = some s' ∧ s'.self ≠ 0 := by
    decide +kernel
  have hreach : Reachable start s' [] := (Reachable.init.alloc halloc).free (.inr mem_cons_self) hfree
  exact ⟨start, s', hinit, hreach, (rtSmem_reclaimed hinit hreach).1⟩

/-- In every such state, `rt_smem_realloc` of a live block to no more bytes than it has returns a block
exactly when the rounded size is that of the block, when what it gives up makes an item of more than the
minimum size, or when some free item holds the rounded size. -/
theorem rtSmemRealloc_shrinks {mem : ByteMemory} {objectSize beginAddr length p : ℕ} {start : Heap}
    (hinit : rtSmemInit mem objectSize beginAddr length = some start)
    (hreach : Reachable start s live) (hself : s.self ≠ 0) (hp : p ∈ live) (hn : 0 < n)
    (hle : p + n ≤ s.dataEnd p) : ∃ items s' q, s.Walk 0 items ∧ rtSmemRealloc s p n = some (s', q) ∧
      (q ≠ 0 ↔ p + rtAlign n = s.dataEnd p ∨ p + rtAlign n + sizeofStructMem + minSize < s.dataEnd p ∨
        ∃ o ∈ items, ¬ s.usedAt o ∧ requestSize (rtAlign n) ≤ s.dataSize o) := by
  obtain ⟨blocks, hinv⟩ := hreach.invariant (rtSmemInit_invariant hinit)
  obtain ⟨s', q, -, hcall, -⟩ := hinv.realloc_live hself hp n
  refine ⟨_, s', q, hinv.wellFormed.walk, hcall, ?_⟩
  obtain ⟨pre, b, post, rfl, rfl, hb⟩ := hinv.exists_item hp
  obtain ⟨hsize, hmod, -, htotal, hend, hlt⟩ := hinv.toShape.bounds
  rw [hinv.toShape.dataEnd_eq] at hle ⊢
  simp only [Heap.dataAt, sizeofStructMem, minSize] at hle ⊢
  have hround : rtAlign n = (n + 7) / 8 * 8 := by rw [rtAlign, wordAdd_of_lt (by omega)]
  rw [hinv.toShape.rtSmemRealloc_eq hb hself (by omega) (by omega)] at hcall
  split at hcall
  · cases hcall
    exact iff_of_true (by simp) (.inl (by omega))
  split at hcall
  · obtain ⟨t, -, ⟨⟩⟩ := bind_eq_some_iff.mp hcall
    exact iff_of_true (by simp) (.inr (.inl (by omega)))
  · obtain ⟨⟨t, nmem⟩, halloc, hrest⟩ := bind_eq_some_iff.mp hcall
    obtain rfl : nmem = q := by
      dsimp only at hrest
      split at hrest
      · obtain ⟨u, -, ⟨⟩⟩ := bind_eq_some_iff.mp hrest
        rfl
      · cases hrest
        rfl
    obtain ⟨heq, hnone⟩ | ⟨u, o, ho, heq, hserves, -⟩ := hinv.alloc_cases hself (n := rtAlign n) (by omega)
    · cases halloc.symm.trans heq
      refine iff_of_false (by simp) fun hcases => ?_
      obtain ⟨o, ho, hfree, hfit⟩ := (hcases.resolve_left (by omega)).resolve_left (by omega)
      exact absurd hfit (Nat.not_le.mpr (hnone o ho hfree))
    · cases halloc.symm.trans heq
      exact iff_of_true (by simp) (.inr (.inr ⟨o, ho, hserves.free, hserves.fits⟩))

/-- In a heap whose only block has 96 bytes, the block shrinks to eight bytes. -/
theorem rtSmemRealloc_shrinks_in_place : ∃ start s s' q,
    rtSmemInit (fun _ => 0) 88 4096 232 = some start ∧ Reachable start s [4208] ∧
    rtSmemRealloc s 4208 8 = some (s', q) ∧ q ≠ 0 := by
  obtain ⟨start, hinit, s, halloc, hself, hend⟩ :
      ∃ start, rtSmemInit (fun _ => 0) 88 4096 232 = some start ∧ ∃ s, rtSmemAlloc start 64 = some (s, 4208) ∧
      s.self = 4096 ∧ s.dataEnd 4208 = 4304 := by decide +kernel
  have hreach : Reachable start s [4208] := Reachable.init.alloc halloc
  obtain ⟨items, s', q, -, hcall, hiff⟩ := rtSmemRealloc_shrinks (n := 8) hinit hreach
    (by rw [hself]; decide) mem_cons_self (by decide) (by rw [hend]; decide)
  exact ⟨start, s, s', q, hinit, hreach, hcall, hiff.mpr (.inr (.inl (by rw [hend]; decide)))⟩

/-- A block of 48 bytes in a heap with 24 bytes left does not shrink to 40 bytes. -/
theorem shrink_refused : ∃ start s s', rtSmemInit (fun _ => 0) 88 4096 232 = some start ∧
    Reachable start s [4208] ∧ s.dataEnd 4208 = 4208 + 48 ∧ rtSmemRealloc s 4208 40 = some (s', 0) := by
  obtain ⟨start, hinit, s, halloc, hend, s', hcall⟩ :
      ∃ start, rtSmemInit (fun _ => 0) 88 4096 232 = some start ∧ ∃ s, rtSmemAlloc start 48 = some (s, 4208) ∧
      s.dataEnd 4208 = 4256 ∧ ∃ s', rtSmemRealloc s 4208 40 = some (s', 0) := by decide +kernel
  exact ⟨start, s, s', hinit, Reachable.init.alloc halloc, hend, hcall⟩

end RtThread.SmallMem
