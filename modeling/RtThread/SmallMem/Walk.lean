import RtThread.SmallMem.Shape

/-!
# The two walks over the items

`rt_smem_alloc` looks for a free item that is large enough, starting at `lfree`, and moves `lfree`
to the next free item. On a well-linked heap both loops end within the fuel the model gives them
and compute what a plain recursion over the list of items computes.
-/

namespace RtThread.SmallMem

open List

/-- The offset of the first free item that holds `size` data bytes. -/
def firstFit (size : ℕ) : ℕ → List Block → Option ℕ
  | _, [] => none
  | off, b :: rest =>
    if b.used = false ∧ size + 24 ≤ b.size then some off else firstFit size (off + b.size) rest

/-- A list that is too short as a whole has no fitting item. -/
theorem firstFit_of_total_lt {size off : ℕ} {blocks : List Block} (h : total blocks < size + 24) :
    firstFit size off blocks = none := by
  induction blocks generalizing off with
  | nil => rfl
  | cons b rest ih =>
    rw [total_cons] at h
    rw [firstFit, if_neg (by omega), ih (by omega)]

/-- Items in use are passed over. -/
theorem firstFit_append_of_all {size off : ℕ} {xs : List Block} (ys : List Block)
    (h : xs.all Block.used = true) : firstFit size off (xs ++ ys) = firstFit size (off + total xs) ys := by
  induction xs generalizing off with
  | nil => rfl
  | cons b rest ih =>
    rw [all_cons, Bool.and_eq_true] at h
    rw [cons_append, firstFit, if_neg (by simp [h.1]), ih h.2, total_cons, Nat.add_assoc]

/-- A found offset is that of a free item of the wanted size, and no earlier item fits. -/
theorem firstFit_eq_some {size off o : ℕ} {blocks : List Block} (h : firstFit size off blocks = some o) :
    ∃ pre b post, blocks = pre ++ b :: post ∧ o = off + total pre ∧ b.used = false ∧
      size + 24 ≤ b.size ∧ ∀ a ∈ pre, a.used = false → a.size < size + 24 := by
  induction blocks generalizing off with
  | nil => cases h
  | cons b rest ih =>
    rw [firstFit] at h
    split at h
    next hfit =>
      cases h
      exact ⟨[], b, rest, rfl, rfl, hfit.1, hfit.2, by simp⟩
    next hfit =>
      obtain ⟨pre, c, post, rfl, rfl, hfree, hsize, hearlier⟩ := ih h
      refine ⟨b :: pre, c, post, rfl, ?_, hfree, hsize, ?_⟩
      · rw [total_cons, Nat.add_assoc]
      · rw [forall_mem_cons]
        exact ⟨fun hb => Nat.lt_of_not_le fun hle => hfit ⟨hb, hle⟩, hearlier⟩

/-- The items before the first free one are in use, and end at its offset. -/
theorem exists_firstFree_split (off : ℕ) (blocks : List Block) :
    ∃ pre post, blocks = pre ++ post ∧ pre.all Block.used = true ∧
      firstFree off blocks = off + total pre ∧ ∀ b ∈ post.head?, b.used = false := by
  induction blocks generalizing off with
  | nil => exact ⟨[], [], rfl, rfl, rfl, by simp⟩
  | cons b rest ih =>
    cases hb : b.used
    · exact ⟨[], b :: rest, rfl, rfl, by simp [firstFree, hb], by simpa using hb⟩
    · obtain ⟨pre, post, rfl, hall, hfirst, hhead⟩ := ih (off + b.size)
      refine ⟨b :: pre, post, rfl, by rw [all_cons, hb, hall]; rfl, ?_, hhead⟩
      rw [firstFree, if_pos hb, hfirst, total_cons, Nat.add_assoc]

/-- Every item takes some of the bytes. -/
theorem length_le_total {blocks : List Block} (h : Sized blocks) : blocks.length ≤ total blocks := by
  induction blocks with
  | nil => rfl
  | cons b rest ih =>
    rw [sized_cons] at h
    have := ih h.2
    rw [length_cons, total_cons]
    omega

variable {s : Heap} {pre post : List Block}

/-- The fuel of a walk covers every item. -/
theorem Shape.length_lt_walkFuel (h : Shape s (pre ++ post)) : post.length < s.walkFuel := by
  have hlength := length_le_total h.sized
  rw [h.total_eq, length_append] at hlength
  change post.length < s.memSizeAligned + 24 + 1
  omega

/-- The search loop of `rt_smem_alloc` returns the first fit from where it starts. -/
theorem Shape.findFit_eq (h : Shape s (pre ++ post)) {size fuel : ℕ}
    (hsize : size ≤ s.memSizeAligned) (hfuel : post.length < fuel) :
    s.findFit size fuel (total pre) = some (firstFit size (total pre) post) := by
  have hlt := h.heapEnd_lt
  have hend := h.heapEnd_eq
  induction post generalizing pre fuel with
  | nil =>
    obtain ⟨fuel, rfl⟩ : ∃ k, fuel = k + 1 := ⟨fuel - 1, by simp at hfuel; omega⟩
    have htotal := h.total_eq
    rw [append_nil] at htotal
    rw [Heap.findFit, wordSub_of_le hsize (by omega), if_neg (by omega), firstFit]
  | cons b rest ih =>
    obtain ⟨fuel, rfl⟩ : ∃ k, fuel = k + 1 := ⟨fuel - 1, by simp at hfuel; omega⟩
    obtain ⟨hbsize, -, -, htotal, -⟩ := h.bounds
    have hstep := ih h.snoc (by simpa using hfuel)
    rw [total_append, total_cons, total_nil, add_zero] at hstep
    rw [Heap.findFit, wordSub_of_le hsize (by omega)]
    dsimp only
    rw [h.dataSize_eq, h.next_eq, h.memIsUsed_eq, hstep]
    split
    · have hfit : (¬ b.used = true ∧ size ≤ b.size - 24) ↔ (b.used = false ∧ size + 24 ≤ b.size) := by
        rw [Bool.not_eq_true]
        exact and_congr_right fun _ => by omega
      simp only [firstFit, hfit]
      split <;> rfl
    · rw [firstFit_of_total_lt]
      rw [total_cons]
      omega

/-- The loop that moves `lfree` stops at the first free item, or at the sentinel. -/
theorem Shape.nextFree_eq (h : Shape s (pre ++ post)) {fuel : ℕ} (hfuel : post.length < fuel) :
    s.nextFree fuel (s.heapPtr + total pre) = some (s.heapPtr + firstFree (total pre) post) := by
  have hend := h.heapEnd_eq
  induction post generalizing pre fuel with
  | nil =>
    obtain ⟨fuel, rfl⟩ : ∃ k, fuel = k + 1 := ⟨fuel - 1, by simp at hfuel; omega⟩
    have htotal := h.total_eq
    rw [append_nil] at htotal
    rw [Heap.nextFree, if_neg (by rw [htotal, ← hend]; simp), firstFree]
  | cons b rest ih =>
    obtain ⟨fuel, rfl⟩ : ∃ k, fuel = k + 1 := ⟨fuel - 1, by simp at hfuel; omega⟩
    obtain ⟨hbsize, -, -, htotal, -⟩ := h.bounds
    have hstep := ih h.snoc (by simpa using hfuel)
    rw [total_append, total_cons, total_nil, add_zero] at hstep
    rw [Heap.nextFree, h.next_eq, h.memIsUsed_eq, hstep, firstFree]
    cases b.used
    · rfl
    · rw [if_pos ⟨rfl, by omega⟩, if_pos rfl]

/-- Where the walk stops there is the sentinel or a free item. -/
theorem Shape.nextFree_stop (h : Shape s (pre ++ post)) :
    s.heapPtr + firstFree (total pre) post = s.heapEnd ∨
      ¬ s.memIsUsed (s.heapPtr + firstFree (total pre) post) = true := by
  obtain ⟨front, back, rfl, -, hfirst, hhead⟩ := exists_firstFree_split (total pre) post
  rw [hfirst]
  cases back with
  | nil =>
    left
    have htotal := h.total_eq
    rw [append_nil, total_append] at htotal
    rw [htotal, h.heapEnd_eq]
  | cons c rest =>
    have hc : Shape s ((pre ++ front) ++ c :: rest) := by simpa using h
    have hused := hc.memIsUsed_eq
    rw [total_append, hhead c (by simp)] at hused
    simp [hused]

end RtThread.SmallMem
