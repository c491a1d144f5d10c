import RtThread.SmallMem.Contents

/-!
# The system heap services

`rt-thread/src/kservice.c` offers the small-memory heap as system heap: `rt_malloc` and `rt_realloc` pass
their sizes on, `rt_calloc` multiplies and clears, and `rt_malloc_align` asks for room to move the result
up to an aligned address and keeps the address of the block in front of it. All sizes are words and
wrap. The heap lock and the hooks are left out.
-/

namespace RtThread.SmallMem

open Lib List Option ByteMemory

/-- `rt_malloc`. -/
def rtMalloc (s : Heap) (size : ℕ) : Option (Heap × ℕ) := rtSmemAlloc s size

/-- `rt_realloc`. -/
def rtRealloc (s : Heap) (ptr newsize : ℕ) : Option (Heap × ℕ) := rtSmemRealloc s ptr newsize

/-- `rt_calloc`. -/
def rtCalloc (s : Heap) (count size : ℕ) : Option (Heap × ℕ) := do
  let (s, p) ← rtMalloc s (wordMul count size)
  if p ≠ 0 then
    return ({ s with mem := s.mem.fill p 0 (wordMul count size) }, p)
  else return (s, p)

/-- The address that `rt_malloc_align` returns for the block at `ptr`. -/
def alignedAddress (ptr align : ℕ) : ℕ :=
  if ptr &&& wordSub align 1 = 0 then wordAdd ptr align
  else wordAdd ptr (wordSub align 1) &&& wordNot (wordSub align 1)

/-- `rt_malloc_align`; `uintptr_size` is 7. -/
def rtMallocAlign (s : Heap) (size align : ℕ) : Option (Heap × ℕ) := do
  let align := wordAdd align 7 &&& wordNot 7
  let alignSize := wordAdd (wordAdd size 7 &&& wordNot 7) align
  let (s, ptr) ← rtMalloc s alignSize
  if ptr ≠ 0 then
    let alignPtr := alignedAddress ptr align
    return ({ s with mem := s.mem.store (wordSub alignPtr 8) 8 ptr }, alignPtr)
  else return (s, ptr)

variable {s start : Heap} {blocks : List Block} {live : List ℕ}
variable {n p : ℕ} {s' : Heap}

/-- Writing data leaves the ends of the blocks where they are. -/
theorem Invariant.dataEnd_write {m : ByteMemory} (h : Invariant s blocks live) (hp : p ∈ live)
    (hkeep : ∀ a, (∀ p ∈ live, ¬ s.InData p a) → m a = s.mem a) :
    Heap.dataEnd { s with mem := m } p = s.dataEnd p := by
  have hwritten := h.write hkeep
  obtain ⟨pre, b, post, rfl, rfl, -⟩ := h.exists_item hp
  rw [h.toShape.dataEnd_eq]
  exact hwritten.toShape.dataEnd_eq

/-- What a block that was just handed out looks like. -/
structure Handed (start s : Heap) (p n : ℕ) (live : List ℕ) : Prop where
  reachable : Reachable start s (p :: live)
  size_le : p + n ≤ s.dataEnd p
  aligned : p % 8 = 0
  end_lt : s.dataEnd p < 2 ^ 64

/-- Writing inside the new block keeps it. -/
theorem Handed.write {m : ByteMemory} (hstart : ∃ blocks, Invariant start blocks [])
    (h : Handed start s p n live) (hkeep : ∀ a, ¬ s.InData p a → m a = s.mem a) :
    Handed start { s with mem := m } p n live := by
  have hout : ∀ a, (∀ r ∈ p :: live, ¬ s.InData r a) → m a = s.mem a :=
    fun a ha => hkeep a (ha p mem_cons_self)
  obtain ⟨blocks, hinv⟩ := h.reachable.invariant hstart
  have hend := hinv.dataEnd_write mem_cons_self hout
  refine ⟨h.reachable.write hout, ?_, h.aligned, ?_⟩
  · rw [hend]
    exact h.size_le
  · rw [hend]
    exact h.end_lt

/-- `rt_malloc` hands out a block of the size asked for, unless the size wraps when it is rounded. -/
theorem Reachable.malloc (hstart : ∃ blocks, Invariant start blocks []) (h : Reachable start s live)
    (hn : n + 7 < 2 ^ 64) (hcall : rtMalloc s n = some (s', p)) (hp : p ≠ 0) :
    Handed start s' p n live := by
  obtain ⟨blocks, hinv⟩ := h.invariant hstart
  have hreach := h.alloc hcall
  by_cases hself : s.self = 0
  · by_cases hzero : n = 0
    · rw [rtMalloc, rtSmemAlloc, if_pos hzero] at hcall
      cases hcall
      exact absurd rfl hp
    · rw [rtMalloc, rtSmemAlloc_of_null hself hzero] at hcall
      cases hcall
  rcases hinv.alloc hself n with heq | ⟨t, pre, b, post, rfl, -, hfit, heq, hinv', hkeeps⟩
  · rw [rtMalloc, heq] at hcall
    cases hcall
    exact absurd rfl hp
  · rw [rtMalloc, heq] at hcall
    cases hcall
    have hround : n ≤ requestSize n := by
      have hle := le_rtAlign hn
      unfold requestSize
      split <;> omega
    have hsize := le_carvedSize hfit
    obtain ⟨-, -, hmod, htotal, -⟩ := hinv'.toShape.bounds
    have hend := hinv'.toShape.dataEnd_eq
    have hheapEnd := hinv'.heapEnd_eq
    have hlt := hinv'.heapEnd_lt
    have hptr := hinv'.heapPtr_mod
    rw [Heap.dataAt, ← hkeeps.heapPtr_eq] at hreach ⊢
    refine ⟨hreach, ?_, by omega, ?_⟩
    · rw [hend]
      dsimp only
      omega
    · rw [hend]
      omega

/-- Rounding up with the mask of the source is `RT_ALIGN`. -/
theorem and_wordNot_seven (n : ℕ) : wordAdd n 7 &&& wordNot 7 = rtAlign n :=
  and_wordNot_two_pow (k := 3) (Nat.mod_lt _ (by decide)) (by decide)

/-- A power of two rounded up to a multiple of eight. -/
theorem rtAlign_two_pow {k : ℕ} (hk : k < 64) : rtAlign (2 ^ k) = 2 ^ max k 3 := by
  rcases Nat.lt_or_ge k 3 with hsmall | hlarge
  · obtain rfl | rfl | rfl : k = 0 ∨ k = 1 ∨ k = 2 := by omega
    all_goals rfl
  · rw [max_eq_left hlarge]
    refine rtAlign_of_mod ?_ (Nat.pow_lt_pow_right (by decide) hk)
    exact Nat.mod_eq_zero_of_dvd (pow_dvd_pow 2 hlarge)

/-- The aligned address leaves a word in front of it and at most the alignment. -/
theorem alignedAddress_bounds {ptr m : ℕ} (hm : 3 ≤ m) (hm' : m < 64) (hptr : ptr % 8 = 0)
    (hlt : ptr + 2 ^ m < 2 ^ 64) :
    ptr + 8 ≤ alignedAddress ptr (2 ^ m) ∧ alignedAddress ptr (2 ^ m) ≤ ptr + 2 ^ m := by
  obtain ⟨c, hc⟩ : 8 ∣ 2 ^ m := pow_dvd_pow 2 hm
  have hpos := Nat.two_pow_pos m
  have hmask : wordSub (2 ^ m) 1 = 2 ^ m - 1 := wordSub_of_le (by omega) (by omega)
  rw [alignedAddress, hmask, Nat.and_two_pow_sub_one_eq_mod]
  split
  · rw [wordAdd_of_lt hlt]
    omega
  next hmod =>
    rw [wordAdd_of_lt (by omega), and_wordNot_two_pow (by omega) (by omega)]
    have hdiv := Nat.div_add_mod (ptr + (2 ^ m - 1)) (2 ^ m)
    rw [mul_comm] at hdiv
    have hnext : ptr < (ptr + (2 ^ m - 1)) / 2 ^ m * 2 ^ m := by
      refine lt_of_le_of_ne (by omega) fun heq => hmod ?_
      rw [heq]
      exact Nat.mul_mod_left _ _
    have height : (ptr + (2 ^ m - 1)) / 2 ^ m * 2 ^ m % 8 = 0 := by
      rw [hc, mul_left_comm]
      exact Nat.mul_mod_right _ _
    omega

section

variable (hstart : ∃ blocks, Invariant start blocks []) (h : Reachable start s live)
include hstart h

/-- `rt_calloc` hands out a block for all its objects, unless their size wraps. -/
theorem Reachable.calloc
    {count : ℕ} (hn : count * n + 7 < 2 ^ 64) (hcall : rtCalloc s count n = some (s', p)) (hp : p ≠ 0) :
    Handed start s' p (count * n) live := by
  have hmul : wordMul count n = count * n := Nat.mod_eq_of_lt (by unfold wordLimit; omega)
  rw [rtCalloc, hmul] at hcall
  obtain ⟨⟨t, q⟩, hmalloc, hrest⟩ := bind_eq_some_iff.mp hcall
  dsimp only at hrest
  split at hrest
  next hq =>
    have hhanded := h.malloc hstart hn hmalloc hq
    cases hrest
    refine hhanded.write hstart fun a ha => fill_of_outside ?_
    have hsize := hhanded.size_le
    unfold Heap.InData at ha
    omega
  · cases hrest
    rename_i hq
    exact absurd hp hq

/-- `rt_malloc_align` hands out an address inside a block that has the bytes asked for behind it, unless
the size of the block wraps. -/
theorem Reachable.mallocAlign {k : ℕ} (hk : k < 64) (hn : (n + 7) / 8 * 8 + 2 ^ max k 3 < 2 ^ 64)
    (hcall : rtMallocAlign s n (2 ^ k) = some (s', p)) (hp : p ≠ 0) :
    ∃ block, Reachable start s' (block :: live) ∧ block + 8 ≤ p ∧ p + n ≤ s'.dataEnd block := by
  have hpow : 2 ^ 3 ≤ 2 ^ max k 3 := Nat.pow_le_pow_right (by decide) (le_max_right k 3)
  have hround : rtAlign n = (n + 7) / 8 * 8 := by rw [rtAlign, wordAdd_of_lt (by omega)]
  obtain ⟨c, hc⟩ : 8 ∣ 2 ^ max k 3 := pow_dvd_pow 2 (le_max_right k 3)
  rw [rtMallocAlign, and_wordNot_seven, and_wordNot_seven, rtAlign_two_pow hk,
    wordAdd_of_lt (by omega)] at hcall
  obtain ⟨⟨t, q⟩, hmalloc, hrest⟩ := bind_eq_some_iff.mp hcall
  dsimp only at hrest
  split at hrest
  next hq =>
    have hhanded := h.malloc hstart (by omega) hmalloc hq
    have hsize := hhanded.size_le
    have hend := hhanded.end_lt
    obtain ⟨hlow, hhigh⟩ := alignedAddress_bounds (le_max_right k 3)
      (max_lt hk (by decide)) hhanded.aligned (by omega)
    generalize alignedAddress q (2 ^ max k 3) = p' at hlow hhigh hrest
    obtain ⟨hs, rfl⟩ := Prod.mk.inj (some.inj hrest)
    rw [← hs]
    have hwritten := hhanded.write (m := t.mem.store (wordSub p' 8) 8 q) hstart
      fun a ha => store_of_outside ?_
    · exact ⟨q, hwritten.reachable, hlow, by have hle := hwritten.size_le; omega⟩
    · rw [wordSub_of_le (by omega) (by omega)]
      unfold Heap.InData at ha
      omega
  · cases hrest
    rename_i hq
    exact absurd hp hq

/-- `rt_realloc` returns a block of the size asked for, or null after changing nothing or freeing the
block for no bytes, unless the size wraps when it is rounded. -/
theorem Reachable.reallocSize {q : ℕ} (hp : p = 0 ∨ p ∈ live)
    (hn : n + 7 < 2 ^ 64) (hcall : rtRealloc s p n = some (s', q)) :
    (q ≠ 0 → ∃ live', Reachable start s' live' ∧ q ∈ live' ∧ q + n ≤ s'.dataEnd q) ∧
      (n ≠ 0 → q = 0 → s' = s) := by
  obtain ⟨blocks, hinv⟩ := h.invariant hstart
  have hself : s.self ≠ 0 := fun hzero => by
    rw [rtRealloc, rtSmemRealloc_of_null hzero] at hcall
    cases hcall
  rcases hp with rfl | hp
  · by_cases hlarge : s.memSizeAligned < rtAlign n
    · rw [rtRealloc, rtSmemRealloc_of_large hself 0 hlarge] at hcall
      cases hcall
      exact ⟨fun hq => absurd rfl hq, fun _ _ => rfl⟩
    by_cases hzero : n = 0
    · rw [rtRealloc, rtSmemRealloc_of_zero hself 0 ((rtAlign_eq_zero hn).mpr hzero)] at hcall
      cases hcall
      exact ⟨fun hq => absurd rfl hq, fun hne => absurd hzero hne⟩
    rw [rtRealloc, rtSmemRealloc_of_nullBlock hself hlarge fun h0 =>
      hzero ((rtAlign_eq_zero hn).mp h0)] at hcall
    have hle := le_rtAlign hn
    have hmod := rtAlign_mod n
    have hlt := rtAlign_lt n
    refine ⟨fun hq => ?_, fun _ hq => ?_⟩
    · have hhanded := h.malloc hstart (by omega) hcall hq
      exact ⟨_, hhanded.reachable, mem_cons_self, by have hsize := hhanded.size_le; omega⟩
    · rcases hinv.alloc hself (rtAlign n) with heq | ⟨t, pre, b, post, -, -, -, heq, -⟩
      · rw [heq] at hcall
        cases hcall
        rfl
      · rw [heq] at hcall
        cases hcall
        exact absurd hq (by unfold Heap.dataAt; omega)
  · obtain ⟨t, r, blocks', heq, -, -, houtcome⟩ := hinv.realloc_live hself hp n
    have hreach := h.realloc (.inr hp) hcall
    rw [rtRealloc, heq] at hcall
    cases hcall
    refine ⟨fun hq => ⟨_, hreach, ?_, ?_⟩, fun hne hq => ?_⟩
    · rw [liveAfterRealloc, if_pos hq]
      exact mem_cons_self
    · rcases houtcome with ⟨-, hzero, -⟩ | ⟨-, hzero, -⟩ | ⟨-, hholds⟩
      · exact absurd hzero hq
      · exact absurd hzero hq
      · exact (hholds.mono (le_rtAlign hn)).size_le
    · rcases houtcome with ⟨hzero, -, -⟩ | ⟨-, -, hsame⟩ | ⟨hnz, -⟩
      · exact absurd ((rtAlign_eq_zero hn).mp hzero) hne
      · exact hsame
      · exact absurd hq hnz

end

section AnyAllocator

variable (malloc : ℕ → ByteMemory × ℕ) {size k : ℕ}

/-- `rt_malloc_align` with any allocator as `rt_malloc`: the memory and the address that it returns. -/
def mallocAlign (size align : ℕ) : ByteMemory × ℕ :=
  let align := wordAdd align 7 &&& wordNot 7
  let r := malloc (wordAdd (wordAdd size 7 &&& wordNot 7) align)
  if r.2 ≠ 0 then
    (r.1.store (wordSub (alignedAddress r.2 align) 8) 8 r.2, alignedAddress r.2 align)
  else r

/-- `rt_free_align`: the address that it passes to `rt_free`. -/
def rtFreeAlign (m : ByteMemory) (ptr : ℕ) : Option ℕ :=
  if ptr = 0 then none else some (m.load (wordSub ptr 8) 8)

/-- The allocator returns aligned blocks of the size asked for. -/
def ReturnsBlocks : Prop :=
  ∀ n, (malloc n).2 ≠ 0 → (malloc n).2 % 8 = 0 ∧ (malloc n).2 + n < 2 ^ 64

/-- What `rt_malloc_align` returns is aligned, it lies inside the block behind the word that is kept for
`rt_free_align`, and whatever its owner writes to it, `rt_free_align` frees that block. -/
def RoundTrip (size align : ℕ) : Prop :=
  let request := wordAdd (rtAlign size) (rtAlign align)
  let block := (malloc request).2
  let r := mallocAlign malloc size align
  r.2 ≠ 0 → r.2 % align = 0 ∧ block + 8 ≤ r.2 ∧ r.2 + size ≤ block + request ∧
    ∀ m, (∀ a, a < r.2 ∨ r.2 + size ≤ a → m a = r.1 a) → rtFreeAlign m r.2 = some block

/-- The aligned address is a multiple of the alignment. -/
theorem dvd_alignedAddress (ptr : ℕ) {m : ℕ} (hm : m < 64) (hlt : ptr + 2 ^ m < 2 ^ 64) :
    2 ^ m ∣ alignedAddress ptr (2 ^ m) := by
  have hpos := Nat.two_pow_pos m
  rw [alignedAddress, wordSub_of_le hpos (by omega), Nat.and_two_pow_sub_one_eq_mod]
  split
  next hmod =>
    rw [wordAdd_of_lt hlt]
    exact Nat.dvd_add_self_right.mpr (Nat.dvd_of_mod_eq_zero hmod)
  · rw [wordAdd_of_lt (by omega), and_wordNot_two_pow (by omega) (by omega)]
    exact Nat.dvd_mul_left ..

variable {malloc}

/-- Where the size of the block does not wrap, the address can be used and freed. -/
theorem ReturnsBlocks.roundTrip (h : ReturnsBlocks malloc) (hk : k < 64)
    (hsize : (size + 7) / 8 * 8 + 2 ^ max k 3 < 2 ^ 64) : RoundTrip malloc size (2 ^ k) := by
  have hpow : 2 ^ 3 ≤ 2 ^ max k 3 := Nat.pow_le_pow_right (by decide) (le_max_right k 3)
  have hround : rtAlign size = (size + 7) / 8 * 8 := by rw [rtAlign, wordAdd_of_lt (by omega)]
  simp only [RoundTrip, mallocAlign, and_wordNot_seven, rtAlign_two_pow hk, hround, wordAdd_of_lt hsize]
  have hblock := h ((size + 7) / 8 * 8 + 2 ^ max k 3)
  generalize malloc ((size + 7) / 8 * 8 + 2 ^ max k 3) = r at hblock ⊢
  split_ifs with hr
  swap
  · exact fun hne => absurd hne hr
  obtain ⟨halign, hend⟩ := hblock hr
  obtain ⟨hlow, hhigh⟩ := alignedAddress_bounds (le_max_right k 3) (max_lt hk (by decide)) halign (by omega)
  have hdvd := dvd_alignedAddress r.2 (max_lt hk (by decide : 3 < 64)) (by omega)
  refine fun _ => ⟨Nat.mod_eq_zero_of_dvd ((pow_dvd_pow 2 (le_max_left k 3)).trans hdvd), hlow, by omega, ?_⟩
  intro m hm
  rw [wordSub_of_le (by omega) (by omega)] at hm
  rw [rtFreeAlign, if_neg (by omega), wordSub_of_le (by omega) (by omega),
    load_congr fun a _ hlt => hm a (.inl (by omega)), load_store_self (by omega)]

/-- Where it wraps, an allocator with one block of eight bytes gets a request that the block serves. -/
theorem not_roundTrip (hsize : size + 2 ^ k < 2 ^ 64) (hwrap : 2 ^ 64 ≤ (size + 7) / 8 * 8 + 2 ^ max k 3) :
    ∃ malloc, ReturnsBlocks malloc ∧ ¬ RoundTrip malloc size (2 ^ k) := by
  refine ⟨fun n => (fun _ => 0, if n ≤ 8 then 8 else 0), fun n hn => ?_, fun h => ?_⟩
  · grind
  have hpos := Nat.two_pow_pos k
  have hk : k < 64 := (Nat.pow_lt_pow_iff_right (by decide : 1 < 2)).mp (by omega)
  have hrequest : wordAdd (rtAlign size) (2 ^ max k 3) ≤ 8 := by
    simp only [rtAlign, wordAdd, wordLimit]
    rcases le_total k 3 with hle | hle
    · rw [max_eq_right hle] at hwrap ⊢
      omega
    · rw [max_eq_left hle] at hwrap ⊢
      omega
  have hpow : 2 ^ max k 3 ≤ 2 ^ 63 := Nat.pow_le_pow_right (by decide) (by omega)
  obtain ⟨hlow, -⟩ := alignedAddress_bounds (le_max_right k 3) (max_lt hk (by decide)) (rfl : 8 % 8 = 0) (by omega)
  simp only [RoundTrip, mallocAlign, and_wordNot_seven, rtAlign_two_pow hk, if_pos hrequest] at h
  obtain ⟨-, -, hfit, -⟩ := h (by rw [if_pos (by decide)]; dsimp only; omega)
  omega

/-- For a size and an alignment whose sum does not wrap, `rt_malloc_align` keeps its contract with every
allocator exactly when the size of the block that it asks for does not wrap. -/
theorem mallocAlign_roundTrip_iff (hsize : size + 2 ^ k < 2 ^ 64) :
    (∀ malloc, ReturnsBlocks malloc → RoundTrip malloc size (2 ^ k)) ↔
      (size + 7) / 8 * 8 + 2 ^ max k 3 < 2 ^ 64 := by
  refine ⟨fun hall => ?_, fun hlt malloc h => h.roundTrip ?_ hlt⟩
  · by_contra hwrap
    obtain ⟨malloc, h, hnot⟩ := not_roundTrip hsize (by omega)
    exact hnot (hall malloc h)
  · exact (Nat.pow_lt_pow_iff_right (by decide : 1 < 2)).mp (by omega)

/-- A hundred bytes at a multiple of 64. -/
theorem mallocAlign_roundTrip_hundred : 100 + 2 ^ 6 < 2 ^ 64 ∧
    ∀ malloc, ReturnsBlocks malloc → RoundTrip malloc 100 (2 ^ 6) :=
  ⟨by decide, (mallocAlign_roundTrip_iff (by decide)).mpr (by decide)⟩

/-- The sum of this size and alignment does not wrap, but the sum of the rounded ones does. -/
theorem mallocAlign_wraps : 2 ^ 64 - 12 + 2 ^ 0 < 2 ^ 64 ∧
    ∃ malloc, ReturnsBlocks malloc ∧ ¬ RoundTrip malloc (2 ^ 64 - 12) (2 ^ 0) :=
  ⟨by decide, not_roundTrip (by decide) (by decide)⟩

end AnyAllocator

end RtThread.SmallMem
