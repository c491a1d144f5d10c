import RtThread.SmallMem.Walk
import Mathlib.Data.List.Perm.Basic
import Mathlib.Data.List.Nodup

/-!
# The heap invariant

`Tracks` adds to a well-linked heap what the heap object records about it: the lowest free item,
the bytes in use, and, as a ghost, the list of blocks handed out and not yet returned. `Invariant`
also forbids two free neighbours. Between marking an item free and plugging the holes around it
only `Tracks` holds, so the two are separate.
-/

namespace RtThread.SmallMem

open Lib List

/-- The offsets of the items in use. -/
def usedOffsets : ℕ → List Block → List ℕ
  | _, [] => []
  | off, b :: rest =>
    if b.used then off :: usedOffsets (off + b.size) rest else usedOffsets (off + b.size) rest

/-- Of two neighbours at least one is in use. -/
def Coalesced (blocks : List Block) : Prop :=
  blocks.IsChain fun a b => a.used = true ∨ b.used = true

/-- The data address of the item at offset `off`. -/
abbrev Heap.dataAt (s : Heap) (off : ℕ) : ℕ := s.heapPtr + off + 24

/-- The records of the heap object and the live blocks agree with the items. -/
structure Tracks (s : Heap) (blocks : List Block) (live : List ℕ) : Prop
    extends Shape s blocks where
  lfree_eq : s.lfree = s.heapPtr + firstFree 0 blocks
  used_eq : s.used = usedTotal blocks
  live_perm : live.Perm ((usedOffsets 0 blocks).map s.dataAt)

/-- The invariant between two calls. -/
structure Invariant (s : Heap) (blocks : List Block) (live : List ℕ) : Prop
    extends Tracks s blocks live where
  coalesced : Coalesced blocks

/-- The end of the data area of the block at `p`, as its header gives it. -/
def Heap.dataEnd (s : Heap) (p : ℕ) : ℕ := s.heapPtr + s.next (p - 24)

/-- The address lies in the data area of the block at `p`. -/
def Heap.InData (s : Heap) (p a : ℕ) : Prop := p ≤ a ∧ a < s.dataEnd p

/-- The fields that no operation changes. -/
structure SameLayout (s s' : Heap) : Prop where
  self_eq : s'.self = s.self
  heapPtr_eq : s'.heapPtr = s.heapPtr
  heapEnd_eq : s'.heapEnd = s.heapEnd
  memSizeAligned_eq : s'.memSizeAligned = s.memSizeAligned

variable {blocks post pre : List Block} {live : List ℕ} {p : ℕ} {s s' t u : Heap}

theorem SameLayout.refl (s : Heap) : SameLayout s s := ⟨rfl, rfl, rfl, rfl⟩

theorem SameLayout.trans (h : SameLayout s t) (h' : SameLayout t u) : SameLayout s u :=
  ⟨h'.self_eq.trans h.self_eq, h'.heapPtr_eq.trans h.heapPtr_eq, h'.heapEnd_eq.trans h.heapEnd_eq,
    h'.memSizeAligned_eq.trans h.memSizeAligned_eq⟩

/-- The block keeps its size and its contents. -/
structure KeepsBlock (s s' : Heap) (p : ℕ) : Prop where
  dataEnd_eq : s'.dataEnd p = s.dataEnd p
  data_eq : ∀ a, s.InData p a → s'.mem a = s.mem a

theorem KeepsBlock.refl (s : Heap) (p : ℕ) : KeepsBlock s s p := ⟨rfl, fun _ _ => rfl⟩

theorem KeepsBlock.trans (h : KeepsBlock s t p) (h' : KeepsBlock t u p) : KeepsBlock s u p := by
  refine ⟨h'.dataEnd_eq.trans h.dataEnd_eq, fun a ha => (h'.data_eq a ?_).trans (h.data_eq a ha)⟩
  rw [Heap.InData, h.dataEnd_eq]
  exact ha

/-- An operation keeps the layout, and these blocks with their sizes and contents. -/
structure Keeps (s s' : Heap) (live : List ℕ) : Prop extends SameLayout s s' where
  block : ∀ p ∈ live, KeepsBlock s s' p

theorem Keeps.refl (s : Heap) (live : List ℕ) : Keeps s s live :=
  ⟨SameLayout.refl s, fun p _ => KeepsBlock.refl s p⟩

/-- Two operations that keep the same blocks. -/
theorem Keeps.trans (h : Keeps s t live) (h' : Keeps t u live) : Keeps s u live :=
  ⟨h.toSameLayout.trans h'.toSameLayout, fun p hp => (h.block p hp).trans (h'.block p hp)⟩

theorem Keeps.mono {live' : List ℕ} (h : Keeps s s' live)
    (hsub : ∀ p ∈ live', p ∈ live) : Keeps s s' live' :=
  ⟨h.toSameLayout, fun p hp => h.block p (hsub p hp)⟩

section Lists

variable {pre post : List Block} {b c : Block}

/-- The used offsets of a concatenation. -/
theorem usedOffsets_append (off : ℕ) (xs ys : List Block) :
    usedOffsets off (xs ++ ys) = usedOffsets off xs ++ usedOffsets (off + total xs) ys := by
  induction xs generalizing off with
  | nil => simp [usedOffsets]
  | cons b rest ih =>
    simp only [cons_append, usedOffsets, ih, Nat.add_assoc]
    split <;> rfl

/-- An offset is in use exactly when an item in use starts there. -/
theorem mem_usedOffsets {off o : ℕ} {blocks : List Block} : o ∈ usedOffsets off blocks ↔
      ∃ pre b post, blocks = pre ++ b :: post ∧ o = off + total pre ∧ b.used = true := by
  induction blocks generalizing off with
  | nil => simp [usedOffsets]
  | cons b rest ih =>
    constructor
    · intro h
      have hcases : (o = off ∧ b.used = true) ∨ o ∈ usedOffsets (off + b.size) rest := by
        rw [usedOffsets] at h
        split at h
        next hb =>
          exact (mem_cons.mp h).imp (fun ho => ⟨ho, hb⟩) id
        · exact .inr h
      rcases hcases with ⟨rfl, hb⟩ | hrest
      · exact ⟨[], b, rest, rfl, rfl, hb⟩
      · obtain ⟨pre, c, post, rfl, rfl, hc⟩ := ih.mp hrest
        exact ⟨b :: pre, c, post, rfl, by rw [total_cons, Nat.add_assoc], hc⟩
    · rintro ⟨pre, c, post, heq, rfl, hc⟩
      rw [heq, usedOffsets_append]
      refine mem_append_right _ ?_
      rw [usedOffsets, if_pos hc]
      exact mem_cons_self

/-- Freeing an item lowers the first free offset to it, if that was higher. -/
theorem firstFree_release (off size : ℕ) (hsized : Sized pre) (hsize : 0 < size) :
    firstFree off (pre ++ ⟨size, false⟩ :: post) =
      if off + total pre < firstFree off (pre ++ ⟨size, true⟩ :: post) then off + total pre
      else firstFree off (pre ++ ⟨size, true⟩ :: post) := by
  rw [firstFree_append, firstFree_append]
  cases hall : pre.all Block.used
  · have hlt : firstFree off pre < off + total pre := firstFree_lt hsized hall
    simp only [Bool.false_eq_true, ↓reduceIte]
    rw [if_neg (by omega)]
  · have hle := (firstFree_bounds (off + total pre + size) post).1
    simp only [firstFree, Bool.false_eq_true, ↓reduceIte]
    rw [if_pos (by omega)]

/-- What `Coalesced` says at the front. -/
theorem coalesced_cons :
    Coalesced (b :: post) ↔ (∀ d ∈ post.head?, b.used = true ∨ d.used = true) ∧ Coalesced post :=
  isChain_cons

/-- What `Coalesced` says around one item. -/
theorem coalesced_middle : Coalesced (pre ++ b :: post) ↔
      Coalesced pre ∧ (∀ a ∈ pre.getLast?, a.used = true ∨ b.used = true) ∧
        (∀ d ∈ post.head?, b.used = true ∨ d.used = true) ∧ Coalesced post := by
  unfold Coalesced
  rw [isChain_append, isChain_cons]
  simp only [head?_cons, Option.mem_some_iff, forall_eq']
  tauto

end Lists

/-- The items lie one behind the other, header and all. -/
theorem offsets_pairwise {off : ℕ} (h : Sized blocks) :
    (offsets off blocks).Pairwise fun a b => a + 24 ≤ b := by
  induction blocks generalizing off with
  | nil => exact List.Pairwise.nil
  | cons b rest ih =>
    rw [sized_cons] at h
    refine List.Pairwise.cons (fun o ho => ?_) (ih h.2)
    have := (mem_offsets_bounds h.2 ho).1
    omega

/-- The items in use are some of the items. -/
theorem usedOffsets_sublist (off : ℕ) (blocks : List Block) :
    (usedOffsets off blocks).Sublist (offsets off blocks) := by
  induction blocks generalizing off with
  | nil => exact List.Sublist.refl []
  | cons b rest ih =>
    rw [usedOffsets]
    split
    · exact (ih _).cons_cons off
    · exact (ih _).cons off

/-- No block is handed out twice. -/
theorem Tracks.live_nodup (h : Tracks s blocks live) : live.Nodup := by
  have hused : (usedOffsets 0 blocks).Nodup := by
    refine ((offsets_pairwise h.sized).sublist (usedOffsets_sublist 0 blocks)).imp ?_
    omega
  have hinj : Function.Injective s.dataAt := by
    intro a b hab
    unfold Heap.dataAt at hab
    omega
  exact h.live_perm.nodup_iff.mpr (List.Nodup.map hinj hused)

/-- A live block is the data of an item in use. -/
theorem Tracks.exists_item (h : Tracks s blocks live) (hp : p ∈ live) :
    ∃ pre b post, blocks = pre ++ b :: post ∧ p = s.dataAt (total pre) ∧ b.used = true := by
  obtain ⟨o, ho, rfl⟩ := mem_map.mp (h.live_perm.mem_iff.mp hp)
  obtain ⟨pre, b, post, rfl, rfl, hb⟩ := mem_usedOffsets.mp ho
  exact ⟨pre, b, post, rfl, by rw [zero_add], hb⟩

/-- The data of an item ends where the next item starts. -/
theorem Shape.dataEnd_eq {b : Block} (h : Shape s (pre ++ b :: post)) :
    s.dataEnd (s.dataAt (total pre)) = s.heapPtr + (total pre + b.size) := by
  rw [Heap.dataEnd, Nat.add_sub_cancel, h.next_eq]

/-- A live block that is not among some neighbouring items lies before or behind them. -/
theorem Tracks.live_sides {mid : List Block} (h : Tracks s (pre ++ mid ++ post) live) (hp : p ∈ live)
    (hmid : ∀ o ∈ usedOffsets (total pre) mid, p ≠ s.dataAt o) :
    (24 ≤ p ∧ s.dataEnd p ≤ s.heapPtr + total pre) ∨
      p = s.heapPtr + total pre + total mid + 24 ∨ s.heapPtr + total pre + total mid + 48 ≤ p := by
  obtain ⟨o, ho, rfl⟩ := mem_map.mp (h.live_perm.mem_iff.mp hp)
  have hsized := h.sized
  rw [sized_append, sized_append] at hsized
  rw [usedOffsets_append, usedOffsets_append, mem_append, mem_append, total_append, zero_add] at ho
  obtain (ho | ho) | ho := ho
  · obtain ⟨front, b, back, rfl, rfl, -⟩ := mem_usedOffsets.mp ho
    have hshape : Shape s (front ++ b :: (back ++ mid ++ post)) := by
      simpa using h.toShape
    rw [zero_add, hshape.dataEnd_eq, total_append, total_cons]
    unfold Heap.dataAt
    omega
  · exact absurd rfl (hmid o ho)
  · obtain ⟨front, b, back, rfl, rfl, -⟩ := mem_usedOffsets.mp ho
    unfold Heap.dataAt
    cases front with
    | nil =>
      rw [total_nil]
      omega
    | cons c rest =>
      rw [sized_append] at hsized
      have hpos := total_pos hsized.2.1 (cons_ne_nil c rest)
      omega

/-- Writing headers and data of some neighbouring items, and the back link behind them, keeps every live
block that is not among them. -/
theorem Tracks.keepsBlock {mid : List Block} (h : Tracks s (pre ++ mid ++ post) live) (hp : p ∈ live)
    (hmid : ∀ o ∈ usedOffsets (total pre) mid, p ≠ s.dataAt o) (hptr : s'.heapPtr = s.heapPtr)
    (hagree : ∀ a, a < s.heapPtr + total pre ∨ (s.heapPtr + total pre + total mid ≤ a ∧
        a < s.heapPtr + total pre + total mid + 16) ∨
        s.heapPtr + total pre + total mid + 24 ≤ a → s'.mem a = s.mem a) : KeepsBlock s s' p := by
  have hsides := h.live_sides hp hmid
  have hend : s'.dataEnd p = s.dataEnd p := by
    obtain ⟨pre', b, post', hblocks, rfl, hused⟩ := h.exists_item hp
    have hshape : Shape s (pre' ++ b :: post') := hblocks ▸ h.toShape
    have hsize := hshape.bounds.1
    rw [hshape.dataEnd_eq] at hsides
    unfold Heap.dataEnd Heap.next
    rw [hptr, ByteMemory.load_congr fun a hlo hhi => hagree a ?_]
    unfold Heap.dataAt at *
    omega
  refine ⟨hend, fun a ⟨hlo, hhi⟩ => hagree a ?_⟩
  omega

/-- Writing one item and the back link behind it keeps every live block but that of the item. -/
theorem Tracks.keeps_others {b : Block} (h : Tracks s (pre ++ b :: post) live) (hlayout : SameLayout s s')
    (hagree : ∀ a, a < s.heapPtr + total pre ∨ (s.heapPtr + total pre + b.size ≤ a ∧
        a < s.heapPtr + total pre + b.size + 16) ∨
        s.heapPtr + total pre + b.size + 24 ≤ a → s'.mem a = s.mem a) :
    Keeps s s' (live.erase (s.dataAt (total pre))) := by
  have htracks : Tracks s (pre ++ [b] ++ post) live := by simpa using h
  refine ⟨hlayout, fun p hp => ?_⟩
  obtain ⟨hne, hp⟩ := (List.Nodup.mem_erase_iff h.live_nodup).mp hp
  refine htracks.keepsBlock hp (fun o ho => ?_) hlayout.heapPtr_eq fun a ha => hagree a ?_
  · have hoff := (usedOffsets_sublist (total pre) [b]).subset ho
    rw [offsets, offsets, mem_singleton] at hoff
    rwa [hoff]
  · rw [total_cons, total_nil] at ha
    omega

end RtThread.SmallMem
