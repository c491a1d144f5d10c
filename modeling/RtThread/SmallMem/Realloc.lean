import RtThread.SmallMem.Alloc

/-!
# Changing the size of a block

`rt_smem_realloc` splits a block in place when it shrinks far enough and otherwise allocates a new
block, copies the data and frees the old one. The copy, like every write of the owner of a block,
stays inside the data area of a live block and so meets no header.
-/

namespace RtThread.SmallMem

open Lib List Heap

variable {s : Heap} {pre post blocks : List Block} {b : Block} {live : List ℕ} {size : ℕ}
variable {n p : ℕ}

/-- The offsets of a concatenation. -/
theorem offsets_append (off : ℕ) (xs ys : List Block) :
    offsets off (xs ++ ys) = offsets off xs ++ offsets (off + total xs) ys := by
  induction xs generalizing off with
  | nil => rfl
  | cons b rest ih => simp [offsets, ih, Nat.add_assoc]

/-- No header lies between the header of an item and the next item. -/
theorem mem_offsets_middle {o : ℕ} (hsized : Sized (pre ++ b :: post))
    (h : o ∈ offsets 0 (pre ++ b :: post)) : o ≤ total pre ∨ total pre + b.size ≤ o := by
  rw [sized_append, sized_cons] at hsized
  rw [offsets_append, offsets, mem_append, mem_cons, zero_add] at h
  rcases h with h | rfl | h
  · have := mem_offsets_bounds hsized.1 h
    omega
  · exact .inl le_rfl
  · exact .inr (mem_offsets_bounds hsized.2.2 h).1

/-- Writing the data of live blocks keeps the invariant. -/
theorem Invariant.write {m : ByteMemory} (h : Invariant s blocks live)
    (hkeep : ∀ a, (∀ p ∈ live, ¬ s.InData p a) → m a = s.mem a) :
    Invariant { s with mem := m } blocks live := by
  have hend := h.heapEnd_eq
  have hshape : Shape { s with mem := m } blocks := by
    refine h.of_mem (h.chain.congr_headers fun o ho a hlo hhi => hkeep a ?_) h.sized rfl
      fun a hlo hhi => hkeep a ?_
    · rintro p hp ⟨hple, hplt⟩
      obtain ⟨pre, b, post, rfl, rfl, -⟩ := h.exists_item hp
      rw [h.toShape.dataEnd_eq] at hplt
      have := mem_offsets_middle h.sized ho
      unfold dataAt at hple
      omega
    · rintro p hp ⟨hple, hplt⟩
      obtain ⟨pre, b, post, rfl, rfl, -⟩ := h.exists_item hp
      obtain ⟨-, -, -, htotal, -⟩ := h.toShape.bounds
      rw [h.toShape.dataEnd_eq] at hplt
      omega
  exact { h with toShape := hshape }

/-- Copying into the data of an item in use is such a write. -/
theorem Invariant.copy (h : Invariant s (pre ++ b :: post) live) (hb : b.used = true) (src : ℕ)
    {len : ℕ} (hlen : len + 24 ≤ b.size) :
    Invariant { s with mem := s.mem.copy (s.dataAt (total pre)) src len } (pre ++ b :: post) live := by
  have hlive : s.dataAt (total pre) ∈ live := by
    refine h.live_perm.mem_iff.mpr (mem_map.mpr ⟨total pre, ?_, rfl⟩)
    exact mem_usedOffsets.mpr ⟨pre, b, post, rfl, by rw [zero_add], hb⟩
  refine h.write fun a houtside => ByteMemory.copy_of_outside ?_
  have hout := houtside _ hlive
  rw [Heap.InData, h.toShape.dataEnd_eq] at hout
  unfold dataAt at hout ⊢
  omega

/-- It keeps the other blocks. -/
theorem Invariant.copy_keeps (h : Invariant s (pre ++ b :: post) live) (src : ℕ) {len : ℕ}
    (hlen : len + 24 ≤ b.size) : Keeps s { s with mem := s.mem.copy (s.dataAt (total pre)) src len }
      (live.erase (s.dataAt (total pre))) := by
  refine h.toTracks.keeps_others ⟨rfl, rfl, rfl, rfl⟩ fun a ha => ByteMemory.copy_of_outside ?_
  unfold dataAt
  omega

/-- The order of the live blocks does not matter. -/
theorem Invariant.perm {live' : List ℕ} (h : Invariant s blocks live) (hperm : live'.Perm live) :
    Invariant s blocks live' :=
  { h with live_perm := hperm.trans h.live_perm }

/-- The null address is no live block. -/
theorem Tracks.zero_not_mem (h : Tracks s blocks live) : 0 ∉ live := by
  intro hzero
  obtain ⟨pre, -, -, -, hp, -⟩ := h.exists_item hzero
  unfold dataAt at hp
  omega

/-- The live blocks after `rt_smem_realloc` on `p` and `n` returned `q`. -/
def liveAfterRealloc (live : List ℕ) (p n q : ℕ) : List ℕ :=
  if q ≠ 0 then q :: live.erase p else if rtAlign n = 0 then live.erase p else live

/-- The state that the shrinking branch hands to `plug_holes`. -/
def Heap.shrink (s : Heap) (ptr size newsize : ℕ) : Heap :=
  let mem2 := s.heapPtr + (ptr + sizeofStructMem + newsize)
  let s := { s with used := wordSub s.used (wordSub size newsize) }
  let s := s.splitItem ptr newsize
  { s with lfree := if mem2 < s.lfree then mem2 else s.lfree }

/-- The shrunk block is tracked with a free remainder. -/
theorem Tracks.shrink (h : Tracks s (pre ++ b :: post) live) (hb : b.used = true)
    (hmod : size % 8 = 0) (hpos : 8 ≤ size) (hfit : size + 48 < b.size - 24) :
    Tracks (s.shrink (total pre) (b.size - 24) size)
        ((pre ++ [⟨24 + size, true⟩]) ++ ⟨b.size - (24 + size), false⟩ :: post) live ∧
      SameLayout s (s.shrink (total pre) (b.size - 24) size) := by
  obtain ⟨-, -, -, htotal, hend, hlt⟩ := h.toShape.bounds
  have hsplit := (h.toShape.of_fields s.lfree (wordSub s.used (wordSub (b.size - 24) size))
    s.max).split hmod hpos (by omega)
  rw [splitItem_fields, hb, append_cons] at hsplit
  have hsized := hsplit.sized
  rw [sized_append] at hsized
  rw [Heap.shrink, splitItem_fields]
  refine ⟨⟨hsplit.of_fields _ _ _, ?_, ?_, ?_⟩, rfl, rfl, rfl, rfl⟩
  · have hold : firstFree 0 ((pre ++ [⟨24 + size, true⟩]) ++
        ⟨b.size - (24 + size), true⟩ :: post) = firstFree 0 (pre ++ b :: post) := by
      have hnext : total pre + (24 + size) + (b.size - (24 + size)) = total pre + b.size := by omega
      simp [firstFree_append, firstFree, hb, hnext]
    rw [firstFree_release 0 _ hsized.1 (by omega), hold, total_snoc]
    rw [h.lfree_eq, zero_add, Nat.add_assoc (total pre)]
    simp only [Nat.add_lt_add_iff_left]
    split <;> rfl
  · have hle := usedTotal_le_total (pre ++ b :: post)
    rw [h.total_eq] at hle
    have hold := h.used_eq
    simp only [usedTotal_append, usedTotal_cons, usedTotal_nil, hb, if_true,
      Bool.false_eq_true, if_false] at hle hold ⊢
    rw [wordSub_of_le (a := b.size - 24) (by omega) (by omega), wordSub_of_le (by omega) (by omega)]
    omega
  · have hnext : total pre + (24 + size) + (b.size - (24 + size)) = total pre + b.size := by omega
    have hsame : usedOffsets 0 ((pre ++ [⟨24 + size, true⟩]) ++
        ⟨b.size - (24 + size), false⟩ :: post) = usedOffsets 0 (pre ++ b :: post) := by
      simp [usedOffsets_append, usedOffsets, hb, hnext]
    rw [hsame]
    exact h.live_perm

/-- Shrinking keeps the other blocks, and the bytes that the block keeps. -/
theorem Tracks.shrink_keeps (h : Tracks s (pre ++ b :: post) live) (hfit : size + 48 < b.size - 24) :
    Keeps s (s.shrink (total pre) (b.size - 24) size) (live.erase (s.dataAt (total pre))) ∧
      ∀ i < size, (s.shrink (total pre) (b.size - 24) size).mem (s.dataAt (total pre) + i) =
        s.mem (s.dataAt (total pre) + i) := by
  rw [Heap.shrink]
  generalize wordSub s.used (wordSub (b.size - 24) size) = used
  have hshape := h.toShape.of_fields s.lfree used s.max
  rw [splitItem_fields]
  refine ⟨h.keeps_others ⟨rfl, rfl, rfl, rfl⟩ fun a ha => ?_, fun i hi => ?_⟩
  · rw [hshape.splitItem_of_outside (by omega) (by dsimp only; omega)]
  · unfold dataAt
    rw [hshape.splitItem_of_outside (by omega) (by dsimp only; omega)]

/-- The block `q` of the new heap has at least `n` bytes, and among them those of the old block `p`. -/
structure HoldsDataOf (s s' : Heap) (p q n : ℕ) : Prop where
  size_le : q + n ≤ s'.dataEnd q
  data_eq : ∀ i < n, p + i < s.dataEnd p → s'.mem (q + i) = s.mem (p + i)

/-- The branch that moves a block to a new place of `newsize` bytes. -/
def Heap.move (s : Heap) (rmem size newsize : ℕ) : Option (Heap × ℕ) := do
  let (s, nmem) ← rtSmemAlloc s newsize
  if nmem ≠ 0 then
    let s := { s with mem := s.mem.copy nmem rmem (if size < newsize then size else newsize) }
    let s ← rtSmemFree s rmem
    return (s, nmem)
  else return (s, nmem)

/-- With a new block at hand, the data is copied and the old block freed. -/
theorem Heap.move_of_alloc {t : Heap} {rmem newsize nmem : ℕ}
    (h : rtSmemAlloc s newsize = some (t, nmem)) (hne : nmem ≠ 0) : s.move rmem size newsize =
      let len := if size < newsize then size else newsize
      rtSmemFree { t with mem := t.mem.copy nmem rmem len } rmem >>= fun s' => some (s', nmem) := by
  simp only [Heap.move, h, Option.bind_eq_bind, Option.bind_some, if_pos hne]
  rfl

/-- `rt_smem_realloc` on a live block, as far as its first tests decide. -/
theorem Shape.rtSmemRealloc_eq (h : Shape s (pre ++ b :: post)) (hb : b.used = true)
    (hself : s.self ≠ 0) (hlarge : rtAlign n ≤ s.memSizeAligned) (hpos : rtAlign n ≠ 0) :
    rtSmemRealloc s (s.dataAt (total pre)) n =
      if b.size - 24 = rtAlign n then some (s, s.dataAt (total pre))
      else if rtAlign n + 48 < b.size - 24 then (s.shrink (total pre) (b.size - 24) (rtAlign n)).plugHoles
          (s.heapPtr + (total pre + 24 + rtAlign n)) >>= fun s' => some (s', s.dataAt (total pre))
      else s.move (s.dataAt (total pre)) (b.size - 24) (rtAlign n) := by
  obtain ⟨hsize, -, -, htotal, -⟩ := h.bounds
  have hend := h.heapEnd_eq
  have hlt := h.heapEnd_lt
  obtain ⟨hmem, haligned, ⟨hlow, hhigh⟩, hnz⟩ := h.dataAt_bounds hb
  have hcur : wordSub (wordSub (total pre + b.size) (total pre)) 24 = b.size - 24 := by
    rw [wordSub_of_le (a := total pre + b.size) (by omega) (by omega), Nat.add_sub_cancel_left,
      wordSub_of_le (by omega) (by omega)]
  have hneed : wordAdd (wordAdd (rtAlign n) 24) 24 = rtAlign n + 48 := by
    rw [wordAdd_of_lt (a := rtAlign n) (by omega), wordAdd_of_lt (by omega)]
  simp only [rtSmemRealloc, if_neg (Nat.not_lt.mpr hlarge), if_neg hpos, guard,
    if_pos hself, if_pos haligned, if_pos hlow, if_pos hhigh, hmem, h.next_eq, Nat.add_sub_cancel_left, hcur, hneed]
  rfl

/-- Moving a live block returns: either nothing happens, or the block is replaced by a new one that holds
its data. -/
theorem Invariant.move (h : Invariant s blocks live) (hself : s.self ≠ 0) (hp : p ∈ live)
    (hmod : n % 8 = 0) (hn : n ≤ s.memSizeAligned) : s.move p (s.dataEnd p - p) n = some (s, 0) ∨
    ∃ s' q blocks', s.move p (s.dataEnd p - p) n = some (s', q) ∧ q ≠ 0 ∧
      Invariant s' blocks' (q :: live.erase p) ∧ Keeps s s' (live.erase p) ∧ HoldsDataOf s s' p q n := by
  have hend := h.heapEnd_eq
  have hlt := h.heapEnd_lt
  rcases h.alloc hself n with hnull | ⟨t, pre, b, post, rfl, hb, hfit, heq, hinv, hkeeps⟩
  · left
    rw [Heap.move, hnull]
    rfl
  · right
    have hroom := le_carvedSize hfit
    have hask : n ≤ requestSize n := le_requestSize hmod (by omega)
    generalize hlen : (if s.dataEnd p - p < n then s.dataEnd p - p else n) = len
    have hlen_le : len + 24 ≤ carvedSize (requestSize n) b := by
      rw [← hlen]
      split <;> omega
    have hcopy := hinv.copy rfl p hlen_le
    have hcopied := hinv.copy_keeps p hlen_le
    have hself' : t.self ≠ 0 := by rwa [hkeeps.self_eq]
    have hdst : t.dataAt (total pre) = s.dataAt (total pre) := by
      rw [dataAt, hkeeps.heapPtr_eq]
    have hqend := hcopy.toShape.dataEnd_eq
    rw [hdst] at hcopy hcopied hqend
    obtain ⟨s', blocks', hfree, hinv', hkeeps'⟩ := hcopy.free hself' (mem_cons_of_mem _ hp)
    have hne : s.dataAt (total pre) ≠ p := by
      rintro rfl
      exact (nodup_cons.mp hinv.toTracks.live_nodup).1 hp
    rw [erase_cons_tail (by simpa using hne)] at hinv' hkeeps'
    rw [erase_cons_head] at hcopied
    refine ⟨s', s.dataAt (total pre), blocks', ?_, by unfold dataAt; omega, hinv', ?_, ?_, ?_⟩
    · rw [Heap.move_of_alloc heq (by unfold dataAt; omega)]
      dsimp only
      rw [hlen, hfree]
      rfl
    · have hrest := (hkeeps.trans hcopied).mono fun q (hq : q ∈ live.erase p) =>
        mem_of_mem_erase hq
      exact hrest.trans (hkeeps'.mono fun _ => mem_cons_of_mem _)
    · have hblock := hkeeps'.block _ mem_cons_self
      rw [hblock.dataEnd_eq, hqend]
      dsimp only
      rw [hkeeps.heapPtr_eq]
      unfold dataAt
      omega
    · -- the bytes are copied from where the allocation left them, and the release keeps the copy
      intro i hi hold
      have hilen : i < len := by
        rw [← hlen]
        split <;> omega
      have hin : Heap.InData { t with mem := t.mem.copy (s.dataAt (total pre)) p len }
          (s.dataAt (total pre)) (s.dataAt (total pre) + i) := by
        rw [Heap.InData, hqend]
        dsimp only
        rw [hkeeps.heapPtr_eq]
        unfold dataAt
        omega
      rw [(hkeeps'.block _ mem_cons_self).data_eq _ hin]
      dsimp only
      rw [ByteMemory.copy, if_pos (by omega), Nat.add_sub_cancel_left]
      exact (hkeeps.block p hp).data_eq _ ⟨by omega, hold⟩

/-- What `rt_smem_realloc` on a live block does: it frees the block, it refuses and changes nothing, or it
returns a block that holds the data. -/
inductive ReallocOutcome (s s' : Heap) (p n q : ℕ) : Prop where
  | freed : rtAlign n = 0 → q = 0 → rtSmemFree s p = some s' → ReallocOutcome s s' p n q
  | refused : rtAlign n ≠ 0 → q = 0 → s' = s → ReallocOutcome s s' p n q
  | resized : q ≠ 0 → HoldsDataOf s s' p q (rtAlign n) → ReallocOutcome s s' p n q

/-- `rt_smem_realloc` refuses more bytes than the heap has. -/
theorem rtSmemRealloc_of_large (hself : s.self ≠ 0) (p : ℕ)
    (hlarge : s.memSizeAligned < rtAlign n) : rtSmemRealloc s p n = some (s, 0) := by
  simp only [rtSmemRealloc, guard, if_pos hself, if_pos hlarge]
  rfl

/-- `rt_smem_realloc` to no bytes is `rt_smem_free`. -/
theorem rtSmemRealloc_of_zero (hself : s.self ≠ 0) (p : ℕ) (hzero : rtAlign n = 0) :
    rtSmemRealloc s p n = rtSmemFree s p >>= fun s' => some (s', 0) := by
  simp only [rtSmemRealloc, guard, if_pos hself, hzero, if_true]
  rfl

/-- `rt_smem_realloc` on the null address is `rt_smem_alloc` of the rounded size. -/
theorem rtSmemRealloc_of_nullBlock (hself : s.self ≠ 0)
    (hlarge : ¬ s.memSizeAligned < rtAlign n) (hzero : rtAlign n ≠ 0) :
    rtSmemRealloc s 0 n = rtSmemAlloc s (rtAlign n) := by
  simp only [rtSmemRealloc, guard, if_pos hself, if_neg hlarge, if_neg hzero]
  rfl

/-- `rt_smem_realloc` on a live block returns, keeps the invariant with the live blocks that its result
stands for, and keeps the other blocks as they are. -/
theorem Invariant.realloc_live (h : Invariant s blocks live) (hself : s.self ≠ 0)
    (hp : p ∈ live) (n : ℕ) : ∃ s' q blocks', rtSmemRealloc s p n = some (s', q) ∧
      Invariant s' blocks' (liveAfterRealloc live p n q) ∧ Keeps s s' (live.erase p) ∧
      ReallocOutcome s s' p n q := by
  by_cases hlarge : s.memSizeAligned < rtAlign n
  · refine ⟨s, 0, blocks, rtSmemRealloc_of_large hself p hlarge, ?_, Keeps.refl s _,
      .refused (by omega) rfl rfl⟩
    rw [liveAfterRealloc, if_neg (by simp), if_neg (by omega)]
    exact h
  by_cases hfree : rtAlign n = 0
  · obtain ⟨s', blocks', heq, hinv, hkeeps⟩ := h.free hself hp
    refine ⟨s', 0, blocks', by rw [rtSmemRealloc_of_zero hself p hfree, heq]; rfl, ?_, hkeeps,
      .freed hfree rfl heq⟩
    simpa [liveAfterRealloc, hfree] using hinv
  have hmove := h.move hself hp (rtAlign_mod n) (Nat.le_of_not_lt hlarge)
  obtain ⟨pre, b, post, rfl, rfl, hb⟩ := h.exists_item hp
  have hmod := rtAlign_mod n
  have hsize : s.dataEnd (s.dataAt (total pre)) - s.dataAt (total pre) = b.size - 24 := by
    rw [h.toShape.dataEnd_eq]
    unfold dataAt
    omega
  have hplace : liveAfterRealloc live (s.dataAt (total pre)) n (s.dataAt (total pre)) =
      s.dataAt (total pre) :: live.erase (s.dataAt (total pre)) :=
    if_pos (by unfold dataAt; omega)
  have hperm := (perm_cons_erase hp).symm
  have hnz : s.dataAt (total pre) ≠ 0 := by
    unfold dataAt
    omega
  rw [h.toShape.rtSmemRealloc_eq hb hself (Nat.le_of_not_lt hlarge) hfree]
  rw [hsize] at hmove
  split
  next hsame =>
    refine ⟨s, _, _, rfl, hplace.symm ▸ h.perm hperm, Keeps.refl s _, .resized hnz ⟨?_, ?_⟩⟩
    · rw [h.toShape.dataEnd_eq]
      unfold dataAt
      omega
    · exact fun _ _ _ => rfl
  · split
    next hfit =>
      obtain ⟨htracks, hlayout⟩ := h.toTracks.shrink hb hmod (by omega) hfit
      obtain ⟨hkeeps, hfront⟩ := h.toTracks.shrink_keeps hfit
      obtain ⟨hpre, -, -, hpost⟩ := coalesced_middle.mp h.coalesced
      have hcoalesced : Coalesced (pre ++ [⟨24 + rtAlign n, true⟩]) :=
        coalesced_middle.mpr ⟨hpre, by simp, by simp, isChain_nil⟩
      have hmem : s.heapPtr + (total pre + 24 + rtAlign n) =
          (s.shrink (total pre) (b.size - 24) (rtAlign n)).heapPtr +
            total (pre ++ [⟨24 + rtAlign n, true⟩]) := by
        rw [hlayout.heapPtr_eq, total_snoc, Nat.add_assoc (total pre)]
      have hend : (s.shrink (total pre) (b.size - 24) (rtAlign n)).dataEnd (s.dataAt (total pre)) =
          s.dataAt (total pre) + rtAlign n := by
        have hshape : Shape (s.shrink (total pre) (b.size - 24) (rtAlign n))
            (pre ++ ⟨24 + rtAlign n, true⟩ :: ⟨b.size - (24 + rtAlign n), false⟩ :: post) := by
          simpa using htracks.toShape
        have hend := hshape.dataEnd_eq
        rw [dataAt, hlayout.heapPtr_eq] at hend
        rw [dataAt, hend]
        dsimp only
        omega
      obtain ⟨s', blocks', heq, hinv, hkeeps'⟩ := htracks.plugHoles rfl hcoalesced hpost hmem
      have hblock := hkeeps'.block _ hp
      refine ⟨s', _, blocks', by rw [heq]; rfl, ?_,
        hkeeps.trans (hkeeps'.mono fun _ => mem_of_mem_erase), .resized hnz ⟨?_, ?_⟩⟩
      · exact hinv.perm hperm
      · rw [hblock.dataEnd_eq, hend]
      · intro i hi _
        rw [hblock.data_eq _ ⟨by omega, by omega⟩, hfront i hi]
    · obtain heq | ⟨s', q, blocks', heq, hq, hinv, hkeeps, hholds⟩ := hmove
      · have hlive : liveAfterRealloc live (s.dataAt (total pre)) n 0 = live := by
          rw [liveAfterRealloc, if_neg (by simp), if_neg hfree]
        exact ⟨s, 0, _, heq, hlive.symm ▸ h, Keeps.refl s _, .refused hfree rfl rfl⟩
      · refine ⟨s', q, blocks', heq, ?_, hkeeps, .resized hq hholds⟩
        rw [liveAfterRealloc, if_pos hq]
        exact hinv

/-- `rt_smem_realloc` returns on the null address and on every live block, and keeps the
invariant with the live blocks that its result stands for. -/
theorem Invariant.realloc (h : Invariant s blocks live) (hself : s.self ≠ 0)
    (hp : p = 0 ∨ p ∈ live) (n : ℕ) : ∃ s' q blocks', rtSmemRealloc s p n = some (s', q) ∧
      Invariant s' blocks' (liveAfterRealloc live p n q) ∧ SameLayout s s' := by
  rcases hp with rfl | hp
  · have herase : live.erase 0 = live := erase_of_not_mem h.toTracks.zero_not_mem
    by_cases hlarge : s.memSizeAligned < rtAlign n
    · refine ⟨s, 0, blocks, rtSmemRealloc_of_large hself 0 hlarge, ?_, SameLayout.refl s⟩
      rw [liveAfterRealloc, if_neg (by simp), if_neg (by omega)]
      exact h
    by_cases hfree : rtAlign n = 0
    · refine ⟨s, 0, blocks, rtSmemRealloc_of_zero hself 0 hfree, ?_, SameLayout.refl s⟩
      simpa [liveAfterRealloc, herase] using h
    rw [rtSmemRealloc_of_nullBlock hself hlarge hfree]
    rcases h.alloc hself (rtAlign n) with heq | ⟨s', pre, b, post, -, -, -, heq, hinv, hkeeps⟩
    · refine ⟨s, 0, blocks, heq, ?_, SameLayout.refl s⟩
      simpa [liveAfterRealloc, hfree] using h
    · have hlive : liveAfterRealloc live 0 n (s.dataAt (total pre)) = s.dataAt (total pre) :: live := by
        rw [liveAfterRealloc, if_pos (by unfold dataAt; omega), herase]
      exact ⟨s', _, _, heq, hlive.symm ▸ hinv, hkeeps.toSameLayout⟩
  · obtain ⟨s', q, blocks', heq, hinv, hkeeps, -⟩ := h.realloc_live hself hp n
    exact ⟨s', q, blocks', heq, hinv, hkeeps.toSameLayout⟩

/-- The first assertion of `rt_smem_realloc` rejects the null address. -/
theorem rtSmemRealloc_of_null (hself : s.self = 0) (p n : ℕ) : rtSmemRealloc s p n = none := by
  simp only [rtSmemRealloc, hself, ne_eq, if_false]
  rfl

end RtThread.SmallMem
