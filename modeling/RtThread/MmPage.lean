import Mathlib.Algebra.BigOperators.Group.Finset.Piecewise
import Mathlib.Data.Nat.Bitwise
import Mathlib.Order.Bounds.Basic

/-!
# The page allocator by size

`rt_page_bits` and `_pages_alloc` of `mm_page.c`. A page is its number: `rt_page_page2addr` shifted by
`ARCH_PAGE_SHIFT`, which is 12. Each page list is the list of the first pages of its blocks.
-/

namespace RtThread.MmPage

open Function List

/-- `rt_hw_clz`, for a positive number. -/
def rtHwClz (n : ℕ) : ℕ := 63 - n.log2

/-- `rt_page_bits`; the subtraction stops at 0, as a negative `bit` becomes 0. -/
def rtPageBits (size : ℕ) : ℕ :=
  let bit := 64 - rtHwClz size - 1
  (if size ^^^ 2 ^ bit ≠ 0 then bit + 1 else bit) - 12

/-- `_buddy_get`. -/
def buddyGet (p sizeBits : ℕ) : ℕ := p ^^^ 2 ^ sizeBits

/-- `_page_insert`. -/
def pageInsert (pageList : ℕ → List ℕ) (p sizeBits : ℕ) : ℕ → List ℕ :=
  update pageList sizeBits (p :: pageList sizeBits)

/-- `_page_remove` of the first block of a list. -/
def pageRemove (pageList : ℕ → List ℕ) (sizeBits : ℕ) : ℕ → List ℕ :=
  update pageList sizeBits (pageList sizeBits).tail

/-- The search for a larger block, with the entries that it reads; the number counts the levels left. -/
def findLevel (pageList : ℕ → List ℕ) (level : ℕ) : ℕ → ℕ × List ℕ
  | 0 => (level, [])
  | n + 1 =>
    if pageList level = [] then
      ((findLevel pageList (level + 1) n).1, level :: (findLevel pageList (level + 1) n).2)
    else (level, [level])

/-- The loop that halves a block down to `size_bits`; the number counts the levels left. -/
def splitBlock (sizeBits : ℕ) (pageList : ℕ → List ℕ) (p : ℕ) : ℕ → ℕ × (ℕ → List ℕ)
  | 0 => (p, pageList)
  | n + 1 =>
    splitBlock sizeBits (pageInsert pageList p (sizeBits + n)) (buddyGet p (sizeBits + n)) n

/-- What `_pages_alloc` returns, the lists after it, and the entries of `page_list` that it accesses. -/
structure Outcome where
  page : Option ℕ
  pageList : ℕ → List ℕ
  accesses : List ℕ

/-- `_pages_alloc`; `none` when it follows a null pointer. -/
def pagesAlloc (maxOrder : ℕ) (pageList : ℕ → List ℕ) (sizeBits : ℕ) : Option Outcome :=
  match pageList sizeBits with
  | p :: _ => some ⟨some p, pageRemove pageList sizeBits, [sizeBits]⟩
  | [] =>
    let (level, read) := findLevel pageList (sizeBits + 1) (maxOrder - (sizeBits + 1))
    if level = maxOrder then some ⟨none, pageList, sizeBits :: read⟩
    else match pageList level with
      | [] => none
      | p :: _ =>
        let r := splitBlock sizeBits (pageRemove pageList level) p (level - sizeBits)
        some ⟨some r.1, r.2, sizeBits :: read ++ level :: List.range' sizeBits (level - sizeBits)⟩

/-- The number of blocks in the lists that a page is in. -/
def cover (maxOrder : ℕ) (pageList : ℕ → List ℕ) (n : ℕ) : ℕ :=
  ∑ i ∈ Finset.range maxOrder, (pageList i).countP fun p => p ≤ n ∧ n < p + 2 ^ i

/-- The call stays inside `page_list`, and returns nothing or a block of the least power of two of pages
that hold `size` bytes: its pages leave the lists, and all other pages stay. -/
def Served (maxOrder : ℕ) (pageList : ℕ → List ℕ) (size : ℕ) : Prop :=
  ∃ r, pagesAlloc maxOrder pageList (rtPageBits size) = some r ∧ (∀ i ∈ r.accesses, i < maxOrder) ∧
    ∀ p ∈ r.page, ∃ k, IsLeast {k | size ≤ 2 ^ k * 2 ^ 12} k ∧ ∀ n, cover maxOrder pageList n =
      cover maxOrder r.pageList n + if p ≤ n ∧ n < p + 2 ^ k then 1 else 0

variable {maxOrder : ℕ} {pageList : ℕ → List ℕ} {p k i size : ℕ}

/-- `rt_page_bits` is the least order that is large enough. -/
theorem rtPageBits_le_iff (hpos : 0 < size) (hle : size ≤ 2 ^ 63) (j : ℕ) :
    rtPageBits size ≤ j ↔ size ≤ 2 ^ (j + 12) := by
  have hlog : size.log2 < 64 := (Nat.log2_lt hpos.ne').mpr (hle.trans_lt (by decide))
  have hbit : 64 - rtHwClz size - 1 = size.log2 := by
    unfold rtHwClz
    omega
  simp only [rtPageBits, hbit, ne_eq, Nat.xor_eq_zero_iff]
  split_ifs with hpow
  · rw [Nat.sub_le_iff_le_add]
    nth_rewrite 2 [hpow]
    exact (Nat.pow_le_pow_iff_right (by decide)).symm
  · have hne : size ≠ 2 ^ (j + 12) := fun heq => hpow (by rw [heq, Nat.log2_two_pow])
    rw [Nat.sub_le_iff_le_add, Nat.succ_le_iff, Nat.log2_lt hpos.ne']
    exact ⟨Nat.le_of_lt, fun h => h.lt_of_ne hne⟩

/-- The search reads below the bound, and ends there or at a list with a block. -/
theorem findLevel_spec (pageList : ℕ → List ℕ) (level n : ℕ) :
    (∀ i ∈ (findLevel pageList level n).2, i < level + n) ∧ level ≤ (findLevel pageList level n).1 ∧
    ((findLevel pageList level n).1 = level + n ∨ (findLevel pageList level n).1 < level + n ∧
      pageList (findLevel pageList level n).1 ≠ []) := by
  induction n generalizing level with
  | zero => simp [findLevel]
  | succ n ih =>
    obtain ⟨hread, hle, hend⟩ := ih (level + 1)
    unfold findLevel
    split_ifs with hnil
    · refine ⟨forall_mem_cons.mpr ⟨by omega, fun i hi => ?_⟩, by omega, hend.imp (by omega) ?_⟩
      · have := hread i hi
        omega
      · exact fun h => ⟨by omega, h.2⟩
    · simpa using hnil

/-- One list is written. -/
theorem cover_update (pageList : ℕ → List ℕ) (hi : i < maxOrder) (list : List ℕ) (n : ℕ) :
    cover maxOrder (update pageList i list) n + (pageList i).countP (fun p => p ≤ n ∧ n < p + 2 ^ i) =
      cover maxOrder pageList n + list.countP fun p => p ≤ n ∧ n < p + 2 ^ i := by
  have hsum : ∀ list, cover maxOrder (update pageList i list) n =
      list.countP (fun p => p ≤ n ∧ n < p + 2 ^ i) +
        ∑ j ∈ Finset.range maxOrder \ {i}, (pageList j).countP fun p => p ≤ n ∧ n < p + 2 ^ j := by
    intro list
    rw [← Finset.sum_update_of_mem (Finset.mem_range.mpr hi)]
    refine Finset.sum_congr rfl fun j _ => ?_
    exact apply_update (fun j (l : List ℕ) => l.countP fun p => p ≤ n ∧ n < p + 2 ^ j) ..
  have hself := hsum (pageList i)
  rw [update_eq_self] at hself
  rw [hsum]
  omega

/-- A block is put into a list. -/
theorem cover_pageInsert (hi : i < maxOrder) (p n : ℕ) : cover maxOrder (pageInsert pageList p i) n =
    cover maxOrder pageList n + if p ≤ n ∧ n < p + 2 ^ i then 1 else 0 := by
  have h := cover_update pageList hi (p :: pageList i) n
  rw [countP_cons] at h
  simp only [decide_eq_true_eq] at h
  unfold pageInsert
  omega

/-- The first block of a list is taken out. -/
theorem cover_pageRemove (hi : i < maxOrder) {rest : List ℕ} (hlist : pageList i = p :: rest) (n : ℕ) :
    cover maxOrder pageList n = cover maxOrder (pageRemove pageList i) n +
      if p ≤ n ∧ n < p + 2 ^ i then 1 else 0 := by
  have h := cover_update pageList hi rest n
  rw [hlist, countP_cons] at h
  simp only [decide_eq_true_eq] at h
  rw [pageRemove, hlist, tail_cons]
  omega

/-- The buddy of the first half of a block is its second half. -/
theorem buddyGet_eq (h : 2 ^ (k + 1) ∣ p) : buddyGet p k = p + 2 ^ k := by
  obtain ⟨a, rfl⟩ := h
  rw [buddyGet, Nat.two_pow_add_eq_or_of_lt (Nat.pow_lt_pow_right (by decide) (Nat.lt_succ_self k))]
  refine Nat.eq_of_testBit_eq fun i => ?_
  rw [Nat.testBit_xor, Nat.testBit_or, Nat.testBit_two_pow_mul]
  by_cases hi : k = i
  · simp [← hi]
  · simp [hi]

/-- Halving a block keeps its pages: all but those of the block that is left are in the lists. -/
theorem cover_splitBlock (pageList : ℕ → List ℕ) (n : ℕ) (hmax : k + n ≤ maxOrder)
    (hdvd : 2 ^ (k + n) ∣ p) (x : ℕ) :
    cover maxOrder pageList x + (if p ≤ x ∧ x < p + 2 ^ (k + n) then 1 else 0) =
      cover maxOrder (splitBlock k pageList p n).2 x +
        if (splitBlock k pageList p n).1 ≤ x ∧ x < (splitBlock k pageList p n).1 + 2 ^ k then 1 else 0 := by
  induction n generalizing pageList p with
  | zero => rfl
  | succ n ih =>
    have hbuddy : buddyGet p (k + n) = p + 2 ^ (k + n) := buddyGet_eq hdvd
    have hhalf : 2 ^ (k + n) ∣ p := (Nat.pow_dvd_pow 2 (by omega)).trans hdvd
    rw [splitBlock, hbuddy, ← ih _ (by omega) ((Nat.dvd_add_right hhalf).mpr (dvd_refl _)),
      cover_pageInsert (by omega), ← Nat.add_assoc k n 1]
    split_ifs <;> omega

/-- The first entry that is read. -/
theorem mem_accesses {r : Outcome} (h : pagesAlloc maxOrder pageList k = some r) : k ∈ r.accesses := by
  unfold pagesAlloc at h
  split at h
  · cases h
    exact mem_cons_self
  · dsimp only at h
    split_ifs at h
    · cases h
      exact mem_cons_self
    · split at h
      · cases h
      · cases h
        exact mem_cons_self

/-- For lists of aligned blocks, a call is served exactly when a block of the largest order holds it. -/
theorem served_iff (hmax : 10 < maxOrder) (haligned : ∀ i, ∀ p ∈ pageList i, 2 ^ i ∣ p) (hpos : 0 < size)
    (hle : size ≤ 2 ^ 63) : Served maxOrder pageList size ↔ size ≤ 2 ^ (maxOrder + 11) := by
  have hleast : IsLeast {k | size ≤ 2 ^ k * 2 ^ 12} (rtPageBits size) := by
    simp only [← Nat.pow_add, ← rtPageBits_le_iff hpos hle]
    exact isLeast_Ici
  have hbits := rtPageBits_le_iff hpos hle (maxOrder - 1)
  rw [show maxOrder - 1 + 12 = maxOrder + 11 by omega] at hbits
  rw [← hbits, Served]
  generalize rtPageBits size = k at hleast
  constructor
  · rintro ⟨r, hr, haccesses, -⟩
    exact Nat.le_sub_one_of_lt (haccesses k (mem_accesses hr))
  intro hk
  unfold pagesAlloc
  split
  next p rest hlist =>
    refine ⟨_, rfl, by simp; omega, ?_⟩
    rintro _ ⟨⟩
    exact ⟨k, hleast, cover_pageRemove (by omega) hlist⟩
  next hlist =>
    obtain ⟨hread, hlevel, hend⟩ := findLevel_spec pageList (k + 1) (maxOrder - (k + 1))
    rw [Nat.add_sub_cancel' (by omega)] at hread hend
    generalize findLevel pageList (k + 1) (maxOrder - (k + 1)) = found at hread hlevel hend
    obtain ⟨level, read⟩ := found
    have hheads : ∀ i ∈ k :: read, i < maxOrder := forall_mem_cons.mpr ⟨by omega, hread⟩
    dsimp only at hlevel hend ⊢
    split_ifs with hnone
    · exact ⟨_, rfl, hheads, by simp⟩
    · obtain ⟨hlt, hne⟩ := hend.resolve_left hnone
      obtain ⟨p, rest, hlist'⟩ := exists_cons_of_ne_nil hne
      rw [hlist']
      refine ⟨_, rfl, ?_, ?_⟩
      · refine forall_mem_append.mpr ⟨hheads, forall_mem_cons.mpr ⟨hlt, fun i hi => ?_⟩⟩
        rw [mem_range'_1] at hi
        omega
      · rintro _ ⟨⟩
        refine ⟨k, hleast, fun n => ?_⟩
        have horder : k + (level - k) = level := by omega
        have hsplit := cover_splitBlock (pageRemove pageList level) (level - k) (horder.trans_le hlt.le)
          (horder.symm ▸ haligned level p (hlist' ▸ mem_cons_self)) n
        rw [horder] at hsplit
        rw [cover_pageRemove hlt hlist', hsplit]

/-- One free block of 16 pages, and a call for 5000 bytes. -/
theorem served_two_pages : (∀ i, ∀ p ∈ update (fun _ => []) 4 [32] i, 2 ^ i ∣ p) ∧
    Served 11 (update (fun _ => []) 4 [32]) 5000 := by
  have haligned : ∀ i, ∀ p ∈ update (fun _ => []) 4 [32] i, 2 ^ i ∣ p :=
    (forall_update_iff _ fun i l => ∀ p ∈ l, 2 ^ i ∣ p).mpr ⟨by decide, by simp⟩
  exact ⟨haligned, (served_iff (by decide) haligned (by decide) (by decide)).mpr (by decide)⟩

/-- A call for 8 MiB reads the entry 11 of 11. -/
theorem not_served_large : ¬ Served 11 (fun _ => []) (2 ^ 23) := by
  rintro ⟨r, hr, -⟩
  have hnull : pagesAlloc 11 (fun _ => []) (rtPageBits (2 ^ 23)) = none := by decide
  cases hnull.symm.trans hr

end RtThread.MmPage
