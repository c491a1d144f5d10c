import RtThread.SmallMem.Invariant

/-!
# Releasing a block

`plug_holes` keeps everything `Tracks` says and restores that no two neighbours are free, given
that the only violation is at the item it is called on. `rt_smem_free` marks the item, lowers
`lfree`, discharges the bytes and plugs the holes.
-/

namespace RtThread.SmallMem

open Lib List

variable {s : Heap} {pre post blocks : List Block} {b c : Block} {live : List ℕ}

/-- Absorbing a free successor into a free item changes nothing that is tracked. -/
theorem Tracks.absorb (h : Tracks s (pre ++ b :: c :: post) live) (hb : b.used = false)
    (hc : c.used = false) : Tracks (s.absorb (s.heapPtr + total pre) (s.heapPtr + (total pre + b.size)))
      (pre ++ ⟨b.size + c.size, b.used⟩ :: post) live where
  toShape := h.toShape.absorb
  lfree_eq := h.lfree_eq.trans (congrArg (s.heapPtr + ·) (by simp [firstFree_append, firstFree, hb]))
  used_eq := h.used_eq.trans (by simp [hb, hc])
  live_perm := h.live_perm.trans (.of_eq (congrArg (List.map s.dataAt)
    (by simp [usedOffsets_append, usedOffsets, hc, Nat.add_assoc])))

/-- It writes the headers of the two items and the back link behind them. -/
theorem Tracks.absorb_keeps (h : Tracks s (pre ++ b :: c :: post) live) (hb : b.used = false)
    (hc : c.used = false) :
    Keeps s (s.absorb (s.heapPtr + total pre) (s.heapPtr + (total pre + b.size))) live := by
  have hmem := h.toShape.absorb_mem
  have hcsize := h.toShape.snoc.bounds.1
  have htracks : Tracks s (pre ++ [b, c] ++ post) live := by simpa using h
  refine ⟨⟨rfl, rfl, rfl, rfl⟩, fun p hp => htracks.keepsBlock hp ?_ rfl fun a ha => ?_⟩
  · simp [usedOffsets, hb, hc]
  · rw [total_cons, total_cons, total_nil] at ha
    rw [hmem]
    simp (disch := omega) only [ByteMemory.store_of_outside]

/-- The item that `lfree` names is not behind a free one. -/
theorem Tracks.lfree_le (h : Tracks s (pre ++ b :: post) live) (hb : b.used = false) :
    s.lfree ≤ s.heapPtr + total pre := by
  have hfirst : firstFree 0 (pre ++ b :: post) ≤ total pre := by
    rw [firstFree_append]
    split
    · simp [firstFree, hb]
    · simpa using (firstFree_bounds 0 pre).2
  rw [h.lfree_eq]
  omega

/-- The item behind `pre ++ [b]` lies at offset `total pre + b.size`. -/
theorem total_snoc (pre : List Block) (b : Block) : total (pre ++ [b]) = total pre + b.size := by
  simp

section

variable (h : Tracks s (pre ++ b :: post) live) (hb : b.used = false)
include h hb

/-- The forward half leaves the item free and separated from what follows. -/
theorem Tracks.plugForward
    (hpost : Coalesced post) : ∃ b' post', b'.used = false ∧ Coalesced (b' :: post') ∧
      Tracks (s.plugForward (s.heapPtr + total pre)) (pre ++ b' :: post') live ∧
      Keeps s (s.plugForward (s.heapPtr + total pre)) live := by
  obtain ⟨hsize, -, -, htotal, hend, -⟩ := h.toShape.bounds
  rw [Heap.plugForward]
  rw [h.toShape.next_eq]
  cases post with
  | nil =>
    have hlast : s.heapPtr + (total pre + b.size) = s.heapEnd := by
      rw [total_nil] at htotal
      omega
    rw [hlast, if_neg (by simp)]
    exact ⟨b, [], hb, isChain_singleton b, h, Keeps.refl s live⟩
  | cons c rest =>
    have hc := h.toShape.snoc
    have husedc := hc.memIsUsed_eq
    obtain ⟨hcsize, -, -, hctotal, -⟩ := hc.bounds
    rw [total_snoc] at husedc hctotal
    rw [husedc]
    cases hcused : c.used
    · have hlfree := h.lfree_le hb
      rw [if_pos ⟨by omega, by simp, by omega⟩, if_neg (by omega)]
      refine ⟨⟨b.size + c.size, b.used⟩, rest, hb, ?_, h.absorb hb hcused, h.absorb_keeps hb hcused⟩
      obtain ⟨hnext, hrest⟩ := coalesced_cons.mp hpost
      refine coalesced_cons.mpr ⟨?_, hrest⟩
      exact fun d hd => .inr ((hnext d hd).resolve_left (by simp [hcused]))
    · rw [if_neg (by simp)]
      refine ⟨b, c :: rest, hb, ?_, h, Keeps.refl s live⟩
      exact isChain_cons_cons.mpr ⟨.inr hcused, hpost⟩

/-- The backward half merges the item into a free predecessor. -/
theorem Tracks.plugBackward (hpre : Coalesced pre) (hpost : Coalesced (b :: post)) :
    ∃ blocks', Invariant (s.plugBackward (s.heapPtr + total pre)) blocks' live ∧
      Keeps s (s.plugBackward (s.heapPtr + total pre)) live := by
  rw [Heap.plugBackward]
  rw [h.toShape.prev_eq]
  rcases eq_nil_or_concat pre with rfl | ⟨front, a, rfl⟩
  · rw [if_neg (by simp [lastOff])]
    exact ⟨b :: post, ⟨h, hpost⟩, Keeps.refl s live⟩
  · have ha : Shape s (front ++ a :: b :: post) := by simpa using h.toShape
    have husea := ha.memIsUsed_eq
    obtain ⟨hasize, -, -, -⟩ := ha.bounds
    have hlast : lastOff 0 0 (front ++ [a]) = total front := by simp [lastOff_append, lastOff]
    rw [concat_eq_append] at h hpre ⊢
    rw [hlast, husea, total_snoc]
    cases haused : a.used
    · have htracks : Tracks s (front ++ a :: b :: post) live := by simpa using h
      have hlfree := htracks.lfree_le haused
      rw [if_pos ⟨by omega, by simp⟩, if_neg (by omega)]
      refine ⟨_, ⟨htracks.absorb haused hb, ?_⟩, htracks.absorb_keeps haused hb⟩
      have hfront := coalesced_middle.mp hpre
      obtain ⟨hnext, hrest⟩ := coalesced_cons.mp hpost
      refine coalesced_middle.mpr ⟨hfront.1, hfront.2.1, ?_, hrest⟩
      exact fun d hd => .inr ((hnext d hd).resolve_left (by simp [hb]))
    · rw [if_neg (by simp)]
      refine ⟨front ++ [a] ++ b :: post, ⟨h, ?_⟩, Keeps.refl s live⟩
      obtain ⟨hnext, hrest⟩ := coalesced_cons.mp hpost
      refine coalesced_middle.mpr ⟨hpre, ?_, hnext, hrest⟩
      simp [haused]

/-- `plug_holes` restores the invariant around the item it is called on. -/
theorem Tracks.plugHoles
    (hpre : Coalesced pre) (hpost : Coalesced post) {mem : ℕ} (hmem : mem = s.heapPtr + total pre) :
    ∃ s' blocks', s.plugHoles mem = some s' ∧ Invariant s' blocks' live ∧ Keeps s s' live := by
  subst hmem
  obtain ⟨hsize, -, -, htotal, hend, -⟩ := h.toShape.bounds
  obtain ⟨b', post', hb', hcoalesced, hforward, hkeeps⟩ := h.plugForward hb hpost
  have hbackward := hforward.plugBackward hb' hpre hcoalesced
  rw [hkeeps.heapPtr_eq] at hbackward
  obtain ⟨blocks', hinv, hkeeps'⟩ := hbackward
  refine ⟨_, blocks', ?_, hinv, hkeeps.trans hkeeps'⟩
  have hlow : s.heapPtr ≤ s.heapPtr + total pre := by omega
  have hhigh : s.heapPtr + total pre < s.heapEnd := by omega
  simp [Heap.plugHoles, hhigh]

end

/-- Erasing the middle element leaves both sides. -/
theorem erase_middle_perm (x : ℕ) (xs ys : List ℕ) : ((xs ++ x :: ys).erase x).Perm (xs ++ ys) := by
  have hmiddle : (xs ++ x :: ys).Perm (x :: (xs ++ ys)) := perm_middle
  simpa using hmiddle.erase x

/-- Taking a live block's address out of the live list takes its offset out of the used ones. -/
theorem Tracks.live_erase (h : Tracks s (pre ++ b :: post) live) (hb : b.used = true) :
    (live.erase (s.dataAt (total pre))).Perm
      ((usedOffsets 0 (pre ++ { b with used := false } :: post)).map s.dataAt) := by
  have hperm := h.live_perm.erase (s.dataAt (total pre))
  rw [usedOffsets_append, usedOffsets, if_pos hb, zero_add, map_append] at hperm
  rw [usedOffsets_append, usedOffsets, zero_add, map_append]
  exact hperm.trans (erase_middle_perm _ _ _)

/-- The successor of an item, or the sentinel, names the heap object. -/
theorem Shape.memPool_next (h : Shape s (pre ++ b :: post)) :
    s.memPool (s.heapPtr + (total pre + b.size)) = s.self := by
  cases post with
  | nil =>
    have htotal := h.total_eq
    rw [total_snoc] at htotal
    rw [htotal, ← h.heapEnd_eq]
    exact h.memPool_heapEnd
  | cons c rest =>
    rw [← total_snoc]
    exact h.snoc.memPool_eq

/-- The state that `rt_smem_free` hands to `plug_holes`. -/
def Heap.release (s : Heap) (mem : ℕ) : Heap :=
  let s := s.setPoolPtr mem s.memFreed
  let s := { s with lfree := if mem < s.lfree then mem else s.lfree }
  { s with used := wordSub s.used (wordSub (s.next mem) (mem - s.heapPtr)) }

/-- The address of the data of a live block. -/
theorem Shape.dataAt_bounds (h : Shape s (pre ++ b :: post)) (hb : b.used = true) :
    s.dataAt (total pre) - sizeofStructMem = s.heapPtr + total pre ∧ s.dataAt (total pre) % 8 = 0 ∧
      (s.heapPtr ≤ s.dataAt (total pre) ∧ s.dataAt (total pre) < s.heapEnd) ∧ s.dataAt (total pre) ≠ 0 := by
  obtain ⟨-, -, hmod, htotal, -⟩ := h.bounds
  have hdata := h.data_pos hb
  have hptr := h.heapPtr_mod
  have hend := h.heapEnd_eq
  refine ⟨Nat.add_sub_cancel .., ?_⟩
  unfold Heap.dataAt
  omega

/-- Every assertion before the release holds for a live block. -/
theorem Shape.rtSmemFree_eq (h : Shape s (pre ++ b :: post)) (hb : b.used = true) (hself : s.self ≠ 0) :
    rtSmemFree s (s.dataAt (total pre)) =
      (s.release (s.heapPtr + total pre)).plugHoles (s.heapPtr + total pre) := by
  obtain ⟨hmem, haligned, hrange, hnz⟩ := h.dataAt_bounds hb
  rw [rtSmemFree]
  simp only [hmem, haligned, h.memPool_eq, h.memIsUsed_eq, h.next_eq, h.memPool_next, hb, hself,
    hrange, ne_eq, guard]
  rfl

/-- The released item is tracked as free. -/
theorem Tracks.release (h : Tracks s (pre ++ b :: post) live) (hb : b.used = true) :
    Tracks (s.release (s.heapPtr + total pre)) (pre ++ { b with used := false } :: post)
      (live.erase (s.dataAt (total pre))) := by
  obtain ⟨hsize, -, -, htotal, hend, hlt⟩ := h.toShape.bounds
  have hmark := h.toShape.mark false (fun hfalse => nomatch hfalse)
  have hfreed : s.memFreed = s.self + false.toNat := h.toShape.marks.2
  rw [← hfreed] at hmark
  refine ⟨hmark.of_fields _ _ _, ?_, ?_, h.live_erase hb⟩
  · have hsized := h.sized
    rw [sized_append] at hsized
    change (if s.heapPtr + total pre < s.lfree then _ else s.lfree) = s.heapPtr + _
    have hold : (⟨b.size, true⟩ : Block) = b := by rw [← hb]
    rw [firstFree_release 0 b.size hsized.1 (by omega), hold, h.lfree_eq, zero_add]
    simp only [Nat.add_lt_add_iff_left]
    split <;> rfl
  · have hused := h.used_eq
    have hle := usedTotal_le_total (pre ++ b :: post)
    rw [h.total_eq] at hle
    rw [usedTotal_append, usedTotal_cons, if_pos hb] at hused hle
    have hnext : (s.setPoolPtr (s.heapPtr + total pre) s.memFreed).next (s.heapPtr + total pre) =
        total pre + b.size := hmark.next_eq
    have hsizes : wordSub (total pre + b.size) (total pre) = b.size := by
      rw [wordSub_of_le (by omega) (by omega), Nat.add_sub_cancel_left]
    change wordSub s.used (wordSub ((s.setPoolPtr _ _).next _) (s.heapPtr + total pre - s.heapPtr)) = _
    rw [hnext, Nat.add_sub_cancel_left, wordSub_of_le (by omega) (by omega),
      usedTotal_append, usedTotal_cons, if_neg (by simp)]
    omega

/-- The release writes the header of its item only. -/
theorem Tracks.release_keeps (h : Tracks s (pre ++ b :: post) live) :
    Keeps s (s.release (s.heapPtr + total pre)) (live.erase (s.dataAt (total pre))) := by
  have hsize := h.toShape.bounds.1
  exact h.keeps_others ⟨rfl, rfl, rfl, rfl⟩ fun a ha => ByteMemory.store_of_outside (by omega)

/-- `rt_smem_free` returns on every live block and keeps the invariant without it, and the other blocks as
they are. -/
theorem Invariant.free (h : Invariant s blocks live) (hself : s.self ≠ 0) {p : ℕ} (hp : p ∈ live) :
    ∃ s' blocks', rtSmemFree s p = some s' ∧ Invariant s' blocks' (live.erase p) ∧
      Keeps s s' (live.erase p) := by
  obtain ⟨pre, b, post, rfl, rfl, hb⟩ := h.exists_item hp
  obtain ⟨hpre, -, -, hpost⟩ := coalesced_middle.mp h.coalesced
  obtain ⟨s', blocks', heq, hinv, hkeeps⟩ :=
    (h.toTracks.release hb).plugHoles rfl hpre hpost rfl
  refine ⟨s', blocks', ?_, hinv, h.toTracks.release_keeps.trans hkeeps⟩
  rw [h.toShape.rtSmemFree_eq hb hself]
  exact heq

/-- A heap object at the null address rejects every release. -/
theorem Shape.rtSmemFree_of_self_eq_zero (h : Shape s (pre ++ b :: post)) (hself : s.self = 0) :
    rtSmemFree s (s.dataAt (total pre)) = none := by
  have hmem : s.dataAt (total pre) - sizeofStructMem = s.heapPtr + total pre :=
    Nat.add_sub_cancel ..
  rw [rtSmemFree, if_neg (by unfold Heap.dataAt; omega)]
  simp only [hmem, h.memPool_eq, ne_eq, guard]
  split <;> rfl

end RtThread.SmallMem
