import RtThread.SmallMem.Free

/-!
# Allocating a block

`rt_smem_alloc` takes the first free item that fits, splits it when the remainder can hold an
item of the minimum size, marks the front as used and, if it was the lowest free item, walks
`lfree` to the next one.
-/

namespace RtThread.SmallMem

open Lib

variable {s : Heap} {pre post blocks : List Block} {b : Block} {live : List ℕ} {size : ℕ}

/-- The data size that a request for `n` bytes is rounded to. -/
def requestSize (n : ℕ) : ℕ := if rtAlign n < minSizeAligned then minSizeAligned else rtAlign n

/-- The bytes that an allocation of `size` data bytes takes of a free item. -/
def carvedSize (size : ℕ) (b : Block) : ℕ := if size + 72 ≤ b.size then 24 + size else b.size

/-- The free remainder, split off when it can hold an item of the minimum size. -/
def carvedRest (size : ℕ) (b : Block) : List Block :=
  if size + 72 ≤ b.size then [⟨b.size - (24 + size), false⟩] else []

/-- The item is cut into the carved part and the remainder. -/
theorem carvedSize_add_total (size : ℕ) (b : Block) :
    carvedSize size b + total (carvedRest size b) = b.size := by
  unfold carvedSize carvedRest
  split
  · simp only [total_cons, total_nil]
    omega
  · simp

/-- A carved item holds the requested bytes. -/
theorem le_carvedSize (hfit : size + 24 ≤ b.size) : size + 24 ≤ carvedSize size b := by
  unfold carvedSize
  split <;> omega

/-- The remainder is free. -/
theorem usedOffsets_carvedRest (off : ℕ) (size : ℕ) (b : Block) :
    usedOffsets off (carvedRest size b) = [] := by
  unfold carvedRest
  split <;> simp [usedOffsets]

/-- The remainder holds no bytes in use. -/
theorem usedTotal_carvedRest (size : ℕ) (b : Block) : usedTotal (carvedRest size b) = 0 := by
  unfold carvedRest
  split <;> simp

/-- Taking a free item adds its offset to the used ones. -/
theorem usedOffsets_carve (size : ℕ) (hb : b.used = false) :
    (usedOffsets 0 (pre ++ ⟨carvedSize size b, true⟩ :: (carvedRest size b ++ post))).Perm
      (total pre :: usedOffsets 0 (pre ++ b :: post)) := by
  have hend : total pre + carvedSize size b + total (carvedRest size b) = total pre + b.size := by
    rw [Nat.add_assoc, carvedSize_add_total]
  simp only [usedOffsets_append, usedOffsets, usedOffsets_carvedRest, hb, hend, zero_add, if_false]
  exact List.perm_middle

/-- Behind a free item nothing free follows, so the remainder has no free neighbour. -/
theorem coalesced_carve (size : ℕ) (hb : b.used = false) (h : Coalesced (pre ++ b :: post)) :
    Coalesced (pre ++ ⟨carvedSize size b, true⟩ :: (carvedRest size b ++ post)) := by
  obtain ⟨hpre, -, hnext, hpost⟩ := coalesced_middle.mp h
  refine coalesced_middle.mpr ⟨hpre, by simp, by simp, ?_⟩
  unfold carvedRest
  split
  · refine coalesced_cons.mpr ⟨fun d hd => .inr ?_, hpost⟩
    exact (hnext d hd).resolve_left (by simp [hb])
  · exact hpost

/-- Carving keeps the mark of the item and charges its bytes. -/
theorem Shape.carve (h : Shape s (pre ++ b :: post)) (hmod : size % 8 = 0) (hpos : 8 ≤ size)
    (hfit : size + 24 ≤ b.size) :
    ∃ m, s.carve size (total pre) = Heap.addUsed { s with mem := m } (carvedSize size b) ∧
      Shape { s with mem := m } (pre ++ ⟨carvedSize size b, b.used⟩ :: (carvedRest size b ++ post)) ∧
      ∀ a, a < s.heapPtr + total pre ∨ (s.heapPtr + total pre + b.size ≤ a ∧
          a < s.heapPtr + total pre + b.size + 16) ∨
        s.heapPtr + total pre + b.size + 24 ≤ a → m a = s.mem a := by
  obtain ⟨hsize, -, -, htotal, hend, hlt⟩ := h.bounds
  have hcharge : wordAdd size 24 = size + 24 := wordAdd_of_lt (by omega)
  have hneed : wordAdd (size + 24) 24 = size + 48 := wordAdd_of_lt (by omega)
  simp only [Heap.carve, hcharge, hneed, h.dataSize_eq]
  by_cases hsplit : size + 72 ≤ b.size
  · have hshape := h.split hmod hpos (by omega)
    rw [Heap.splitItem_fields] at hshape
    refine ⟨(s.splitItem (total pre) size).mem, ?_, ?_, fun a ha => ?_⟩
    · rw [if_pos (by omega), ← Heap.splitItem_fields, carvedSize, if_pos hsplit, Nat.add_comm]
    · rw [carvedSize, carvedRest, if_pos hsplit, if_pos hsplit]
      exact hshape
    · exact h.splitItem_of_outside (by omega) (by omega)
  · have hwhole : wordSub (s.next (s.heapPtr + total pre)) (s.heapPtr + total pre - s.heapPtr) =
        b.size := by
      rw [h.next_eq, Nat.add_sub_cancel_left, wordSub_of_le (by omega) (by omega), Nat.add_sub_cancel_left]
    refine ⟨s.mem, ?_, ?_, fun _ _ => rfl⟩
    · rw [if_neg (by omega), hwhole, carvedSize, if_neg hsplit]
    · rw [carvedSize, carvedRest, if_neg hsplit, if_neg hsplit]
      exact h

/-- After the item behind `pre` is taken, `lfree` moves on if it named that item. -/
theorem Shape.advanceLfree (h : Shape s (pre ++ b :: post))
    (hlfree : s.lfree = s.heapPtr + firstFree 0 (pre ++ { b with used := false } :: post))
    {mem : ℕ} (hmem : mem = s.heapPtr + total pre) : s.advanceLfree mem =
      some { s with lfree := s.heapPtr + firstFree 0 (pre ++ b :: post) } := by
  subst hmem
  rw [firstFree_append, zero_add] at hlfree
  rw [Heap.advanceLfree, firstFree_append, zero_add]
  cases hall : pre.all Block.used
  · have hsized := h.sized
    rw [sized_append] at hsized
    have hlt : firstFree 0 pre < 0 + total pre := firstFree_lt hsized.1 hall
    rw [hall, if_neg (by simp)] at hlfree
    rw [if_neg (by omega), if_neg (by simp), ← hlfree]
  · rw [hall, if_pos rfl] at hlfree
    simp only [firstFree, Bool.false_eq_true, if_false] at hlfree
    have hwalk := h.nextFree_eq h.length_lt_walkFuel
    rw [if_pos rfl, hlfree, hwalk]
    simp only [Option.bind_eq_bind, Option.bind_some, guard, if_pos h.nextFree_stop]
    rfl

/-- The item carved and marked, before `lfree` is refreshed. -/
def Heap.take (s : Heap) (size ptr : ℕ) : Heap :=
  let mem := s.heapPtr + ptr
  let s := s.carve size ptr
  s.setPoolPtr mem s.memUsed

/-- The taken item is in use, its bytes are charged, and `lfree` is still the old one. -/
theorem Tracks.take (h : Tracks s (pre ++ b :: post) live) (hb : b.used = false)
    (hmod : size % 8 = 0) (hpos : 8 ≤ size) (hfit : size + 24 ≤ b.size) :
    Shape (s.take size (total pre)) (pre ++ ⟨carvedSize size b, true⟩ :: (carvedRest size b ++ post)) ∧
      (s.take size (total pre)).lfree = s.lfree ∧ (s.take size (total pre)).used =
        usedTotal (pre ++ ⟨carvedSize size b, true⟩ :: (carvedRest size b ++ post)) ∧
      Keeps s (s.take size (total pre)) live := by
  obtain ⟨-, -, -, htotal, hend, hlt⟩ := h.toShape.bounds
  obtain ⟨m, hcarve, hshape, hagree⟩ := h.toShape.carve hmod hpos hfit
  have hcarved := le_carvedSize hfit
  have hmark := hshape.mark true (fun _ => by dsimp only; omega)
  rw [show (true.toNat) = 1 from rfl, ← hshape.marks.1] at hmark
  have hused : wordAdd s.used (carvedSize size b) =
      usedTotal (pre ++ ⟨carvedSize size b, true⟩ :: (carvedRest size b ++ post)) := by
    have hle := usedTotal_le_total (pre ++ ⟨carvedSize size b, true⟩ :: (carvedRest size b ++ post))
    rw [hmark.total_eq] at hle
    have hold := h.used_eq
    simp only [usedTotal_append, usedTotal_cons, usedTotal_carvedRest, hb, if_true,
      Bool.false_eq_true, if_false] at hle hold ⊢
    change _ ≤ s.memSizeAligned + 24 at hle
    rw [wordAdd_of_lt (by omega)]
    omega
  have htracks : Tracks s (pre ++ [b] ++ post) live := by simpa using h
  rw [Heap.take, hcarve]
  refine ⟨hmark.of_fields _ _ _, rfl, hused, ⟨rfl, rfl, rfl, rfl⟩, fun p hp => ?_⟩
  refine htracks.keepsBlock hp (by simp [usedOffsets, hb]) rfl fun a ha => ?_
  rw [total_cons, total_nil] at ha
  exact (ByteMemory.store_of_outside (by omega)).trans (hagree a (by omega))

/-- The loop body of `rt_smem_alloc` on a free item that fits: it returns, hands out the item's data
and keeps the invariant with the new block live. -/
theorem Invariant.allocAt (h : Invariant s (pre ++ b :: post) live) (hb : b.used = false)
    (hmod : size % 8 = 0) (hpos : 8 ≤ size) (hfit : size + 24 ≤ b.size) :
    ∃ s', s.allocAt size (total pre) = some (s', s.dataAt (total pre)) ∧
      Invariant s' (pre ++ ⟨carvedSize size b, true⟩ :: (carvedRest size b ++ post))
        (s.dataAt (total pre) :: live) ∧ Keeps s s' live := by
  obtain ⟨hsize, -, hoff, htotal, hend, -⟩ := h.toShape.bounds
  have hptr := h.heapPtr_mod
  obtain ⟨hshape, hlfree, hused, hkeeps⟩ := h.toTracks.take hb hmod hpos hfit
  have htake : s.allocAt size (total pre) = ((s.take size (total pre)).advanceLfree
      (s.heapPtr + total pre) >>= fun t => do
        guard (s.heapPtr + total pre + 24 + size ≤ t.heapEnd)
        guard ((s.heapPtr + total pre + 24) % 8 = 0)
        guard ((s.heapPtr + total pre) % 8 = 0)
        return (t, s.dataAt (total pre))) := rfl
  rw [htake]
  generalize s.take size (total pre) = t at hshape hlfree hused hkeeps ⊢
  have hptrEq := hkeeps.heapPtr_eq
  have hendEq := hkeeps.heapEnd_eq
  have hfirst : t.lfree = t.heapPtr + firstFree 0
      (pre ++ ⟨carvedSize size b, false⟩ :: (carvedRest size b ++ post)) := by
    rw [hlfree, hptrEq, h.lfree_eq, firstFree_append, firstFree_append]
    simp [firstFree, hb]
  refine ⟨{ t with
      lfree := t.heapPtr + firstFree 0
        (pre ++ ⟨carvedSize size b, true⟩ :: (carvedRest size b ++ post)) }, ?_,
    ⟨⟨hshape.of_fields _ _ _, rfl, hused, ?_⟩, coalesced_carve size hb h.coalesced⟩,
    ⟨hkeeps.self_eq, hptrEq, hendEq, hkeeps.memSizeAligned_eq⟩, fun p hp =>
      ⟨(hkeeps.block p hp).dataEnd_eq, (hkeeps.block p hp).data_eq⟩⟩
  · rw [hshape.advanceLfree hfirst (by rw [hptrEq])]
    have hinside : s.heapPtr + total pre + 24 + size ≤ t.heapEnd := by omega
    have haligned : (s.heapPtr + total pre + 24) % 8 = 0 := by omega
    have hheader : (s.heapPtr + total pre) % 8 = 0 := by omega
    simp only [Option.bind_eq_bind, Option.bind_some, guard, if_pos hinside, if_pos haligned,
      if_pos hheader]
    rfl
  · have hdata : t.dataAt = s.dataAt := by
      funext o
      rw [Heap.dataAt, hptrEq]
    rw [hdata]
    exact (((usedOffsets_carve size hb).map s.dataAt).trans
      (h.live_perm.symm.cons (s.dataAt (total pre)))).symm

/-- A rounded request has at least the minimum size and is aligned. -/
theorem requestSize_spec (n : ℕ) : 24 ≤ requestSize n ∧ requestSize n % 8 = 0 := by
  have hmod := rtAlign_mod n
  change 24 ≤ (if rtAlign n < 24 then 24 else rtAlign n) ∧
    (if rtAlign n < 24 then 24 else rtAlign n) % 8 = 0
  split <;> omega

/-- An aligned request is not cut. -/
theorem le_requestSize {n : ℕ} (hmod : n % 8 = 0) (hlt : n < 2 ^ 64) : n ≤ requestSize n := by
  rw [requestSize, rtAlign_of_mod hmod hlt]
  split <;> omega

/-- The search of `rt_smem_alloc` starts behind items in use only, so it finds the first fit of
the whole heap. -/
theorem Tracks.findFit_eq (h : Tracks s blocks live) (hsize : size ≤ s.memSizeAligned) :
    s.findFit size s.walkFuel (s.lfree - s.heapPtr) = some (firstFit size 0 blocks) := by
  obtain ⟨pre, post, rfl, hall, hfirst, -⟩ := exists_firstFree_split 0 blocks
  rw [zero_add] at hfirst
  rw [h.lfree_eq, hfirst, Nat.add_sub_cancel_left,
    h.toShape.findFit_eq hsize h.toShape.length_lt_walkFuel, firstFit_append_of_all post hall, zero_add]

/-- `rt_smem_alloc` refuses a request of no bytes, one that is larger than the heap, and one that no
free item fits; any other request gets the first fit. -/
theorem Invariant.rtSmemAlloc_eq (h : Invariant s blocks live) (hself : s.self ≠ 0) (n : ℕ) :
    rtSmemAlloc s n = if n = 0 ∨ s.memSizeAligned < requestSize n then some (s, 0)
      else match firstFit (requestSize n) 0 blocks with
        | some ptr => s.allocAt (requestSize n) ptr
        | none => some (s, 0) := by
  have hdef : rtSmemAlloc s n = if n = 0 then some (s, 0)
      else guard (s.self ≠ 0) >>= fun _ => if s.memSizeAligned < requestSize n then some (s, 0)
      else s.findFit (requestSize n) s.walkFuel (s.lfree - s.heapPtr) >>= fun found =>
        match found with
        | some ptr => s.allocAt (requestSize n) ptr
        | none => some (s, 0) := rfl
  simp only [hdef, guard, if_pos hself]
  by_cases hn : n = 0
  · rw [if_pos hn, if_pos (.inl hn)]
  by_cases hlarge : s.memSizeAligned < requestSize n
  · rw [if_neg hn, if_pos hlarge, if_pos (.inr hlarge)]
    rfl
  · rw [if_neg hn, if_neg hlarge, if_neg (by tauto), h.findFit_eq (Nat.le_of_not_lt hlarge)]
    rfl

/-- `rt_smem_alloc` on any heap that satisfies the invariant: it returns, either the null address
with nothing changed or the data of a free item that fits, which is then live. -/
theorem Invariant.alloc (h : Invariant s blocks live) (hself : s.self ≠ 0) (n : ℕ) :
    rtSmemAlloc s n = some (s, 0) ∨
    ∃ s' pre b post, blocks = pre ++ b :: post ∧ b.used = false ∧ requestSize n + 24 ≤ b.size ∧
      rtSmemAlloc s n = some (s', s.dataAt (total pre)) ∧
      Invariant s' (pre ++ ⟨carvedSize (requestSize n) b, true⟩ ::
        (carvedRest (requestSize n) b ++ post)) (s.dataAt (total pre) :: live) ∧ Keeps s s' live := by
  obtain ⟨hmin, hmod⟩ := requestSize_spec n
  rw [h.rtSmemAlloc_eq hself n]
  split
  · exact .inl rfl
  · cases hfind : firstFit (requestSize n) 0 blocks with
    | none => exact .inl rfl
    | some ptr =>
      obtain ⟨pre, b, post, rfl, rfl, hb, hfit, -⟩ := firstFit_eq_some hfind
      rw [zero_add]
      obtain ⟨s', heq, hinv, hkeeps⟩ := h.allocAt hb hmod (by omega) hfit
      exact .inr ⟨s', pre, b, post, rfl, hb, hfit, heq, hinv, hkeeps⟩

/-- The first assertion of `rt_smem_alloc` rejects the null address. -/
theorem rtSmemAlloc_of_null (hself : s.self = 0) {n : ℕ} (hn : n ≠ 0) : rtSmemAlloc s n = none := by
  simp only [rtSmemAlloc, if_neg hn, hself, ne_eq, if_false]
  rfl

end RtThread.SmallMem
