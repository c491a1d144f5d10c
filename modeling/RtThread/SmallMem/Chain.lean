import RtThread.SmallMem.Basic
import Mathlib.Data.List.Chain

/-!
# The item chain as a list of blocks

A heap is seen as the list of its items in address order, each with its total size (header
included) and whether it is in use. `Chain` says that the headers found in memory spell such a
list: the low bit of `pool_ptr`, the offset in `next` and the predecessor's offset in `prev`.

The end sentinel is not part of the list, because the source does not maintain its `prev`.
-/

namespace RtThread.SmallMem

open Lib List ByteMemory

/-- One item: the distance to the next header, and whether the item is in use. -/
structure Block where
  size : ℕ
  used : Bool
  deriving Repr, DecidableEq

/-- The bytes from the first header to the end of the last item. -/
def total (blocks : List Block) : ℕ := (blocks.map Block.size).sum

/-- The bytes of the items in use, headers included. -/
def usedTotal (blocks : List Block) : ℕ := ((blocks.filter Block.used).map Block.size).sum

/-- The offset of the first free item from `off` on, or the offset behind the list. -/
def firstFree : ℕ → List Block → ℕ
  | off, [] => off
  | off, b :: rest => if b.used then firstFree (off + b.size) rest else off

/-- The offset that the item behind the list finds in its `prev` field. -/
def lastOff : ℕ → ℕ → List Block → ℕ
  | prev, _, [] => prev
  | _, off, b :: rest => lastOff off (off + b.size) rest

/-- The offsets of the items, in address order. -/
def offsets : ℕ → List Block → List ℕ
  | _, [] => []
  | off, b :: rest => off :: offsets (off + b.size) rest

/-- Every item has room for its 24 header bytes and an aligned size; one in use also has data. -/
def Sized (blocks : List Block) : Prop :=
  ∀ b ∈ blocks, 24 ≤ b.size ∧ b.size % 8 = 0 ∧ (b.used = true → 32 ≤ b.size)

/-- The header at offset `off` describes `b`, with predecessor offset `prev`. -/
structure ItemAt (m : ByteMemory) (base pool prev off : ℕ) (b : Block) : Prop where
  poolPtr : m.load (base + off) 8 = pool + b.used.toNat
  next : m.load (base + off + 8) 8 = off + b.size
  prev : m.load (base + off + 16) 8 = prev

/-- The headers from offset `off` on spell the list, the first one naming `prev`. -/
def Chain (m : ByteMemory) (base pool : ℕ) : ℕ → ℕ → List Block → Prop
  | _, _, [] => True
  | prev, off, b :: rest =>
    ItemAt m base pool prev off b ∧ Chain m base pool off (off + b.size) rest

section Lists

variable {blocks : List Block}

@[simp] theorem total_nil : total [] = 0 := rfl

@[simp] theorem total_cons (b : Block) (rest : List Block) : total (b :: rest) = b.size + total rest := by
  simp [total]

@[simp] theorem total_append (xs ys : List Block) : total (xs ++ ys) = total xs + total ys := by
  simp [total]

@[simp] theorem usedTotal_nil : usedTotal [] = 0 := rfl

@[simp] theorem usedTotal_cons (b : Block) (rest : List Block) :
    usedTotal (b :: rest) = (if b.used then b.size else 0) + usedTotal rest := by
  cases hb : b.used <;> simp [usedTotal, hb]

@[simp] theorem usedTotal_append (xs ys : List Block) :
    usedTotal (xs ++ ys) = usedTotal xs + usedTotal ys := by
  simp [usedTotal]

/-- The used bytes are part of all bytes. -/
theorem usedTotal_le_total (blocks : List Block) : usedTotal blocks ≤ total blocks := by
  induction blocks with
  | nil => rfl
  | cons b rest ih =>
    rw [usedTotal_cons, total_cons]
    split <;> omega

@[simp] theorem sized_cons (b : Block) (rest : List Block) : Sized (b :: rest) ↔
      (24 ≤ b.size ∧ b.size % 8 = 0 ∧ (b.used = true → 32 ≤ b.size)) ∧ Sized rest := by
  simp [Sized]

@[simp] theorem sized_append (xs ys : List Block) : Sized (xs ++ ys) ↔ Sized xs ∧ Sized ys := by
  simp only [Sized, mem_append, or_imp]
  exact forall_and

/-- A sized list has an aligned total. -/
theorem total_mod (h : Sized blocks) : total blocks % 8 = 0 := by
  induction blocks with
  | nil => rfl
  | cons b rest ih =>
    rw [sized_cons] at h
    have := ih h.2
    rw [total_cons]
    omega

/-- Only the empty list has no bytes. -/
theorem total_pos (h : Sized blocks) (hne : blocks ≠ []) : 24 ≤ total blocks := by
  cases blocks with
  | nil => contradiction
  | cons b rest =>
    rw [sized_cons] at h
    rw [total_cons]
    omega

/-- Every item's header lies in the range of the list. -/
theorem mem_offsets_bounds {off o : ℕ} (hsized : Sized blocks)
    (h : o ∈ offsets off blocks) : off ≤ o ∧ o + 24 ≤ off + total blocks := by
  induction blocks generalizing off with
  | nil => simp [offsets] at h
  | cons b rest ih =>
    rw [sized_cons] at hsized
    rw [offsets, mem_cons] at h
    rw [total_cons]
    rcases h with rfl | h
    · omega
    · have := ih hsized.2 h
      omega

/-- The first free offset lies in the range of the list. -/
theorem firstFree_bounds (off : ℕ) (blocks : List Block) :
    off ≤ firstFree off blocks ∧ firstFree off blocks ≤ off + total blocks := by
  induction blocks generalizing off with
  | nil => simp [firstFree]
  | cons b rest ih =>
    obtain ⟨hlow, hhigh⟩ := ih (off + b.size)
    rw [firstFree, total_cons]
    split <;> omega

/-- The first free item of a concatenation: in the first part if that has one. -/
theorem firstFree_append (off : ℕ) (xs ys : List Block) : firstFree off (xs ++ ys) =
      if xs.all Block.used then firstFree (off + total xs) ys else firstFree off xs := by
  induction xs generalizing off with
  | nil => simp
  | cons b rest ih =>
    cases hb : b.used
    · simp [firstFree, hb]
    · simp [firstFree, hb, ih, Nat.add_assoc]

/-- A list with a free item has its first free offset inside. -/
theorem firstFree_lt {off : ℕ} (hsized : Sized blocks)
    (h : blocks.all Block.used = false) : firstFree off blocks < off + total blocks := by
  induction blocks generalizing off with
  | nil => simp at h
  | cons b rest ih =>
    rw [sized_cons] at hsized
    rw [firstFree, total_cons]
    cases hb : b.used
    · simp only [Bool.false_eq_true, ↓reduceIte]
      omega
    · have hrest : firstFree (off + b.size) rest < off + b.size + total rest :=
        ih hsized.2 (by simpa [hb] using h)
      simp only [↓reduceIte]
      omega

end Lists

section Memory

variable {m m' : ByteMemory} {base pool prev off : ℕ}
variable {blocks : List Block}

/-- A chain of a concatenation is a chain of both parts, joined at the seam. -/
theorem chain_append (xs ys : List Block) : Chain m base pool prev off (xs ++ ys) ↔
      Chain m base pool prev off xs ∧ Chain m base pool (lastOff prev off xs) (off + total xs) ys := by
  induction xs generalizing prev off with
  | nil => simp [Chain, lastOff]
  | cons b rest ih =>
    simp only [cons_append, Chain, lastOff, total_cons, ih, ← Nat.add_assoc, and_assoc]

/-- The last offset of a concatenation is that of its last part. -/
theorem lastOff_append (xs ys : List Block) :
    lastOff prev off (xs ++ ys) = lastOff (lastOff prev off xs) (off + total xs) ys := by
  induction xs generalizing prev off with
  | nil => simp [lastOff]
  | cons b rest ih => simp only [cons_append, lastOff, total_cons, ih, ← Nat.add_assoc]

/-- A header reads only its own 24 bytes. -/
theorem ItemAt.congr {b : Block} (h : ItemAt m base pool prev off b)
    (hsame : ∀ a, base + off ≤ a → a < base + off + 24 → m' a = m a) : ItemAt m' base pool prev off b where
  poolPtr := by
    rw [← h.poolPtr]
    exact load_congr fun a _ _ => hsame a (by omega) (by omega)
  next := by
    rw [← h.next]
    exact load_congr fun a _ _ => hsame a (by omega) (by omega)
  prev := by
    rw [← h.prev]
    exact load_congr fun a _ _ => hsame a (by omega) (by omega)

/-- A chain reads only its headers. -/
theorem Chain.congr_headers (h : Chain m base pool prev off blocks)
    (hsame : ∀ o ∈ offsets off blocks, ∀ a, base + o ≤ a → a < base + o + 24 → m' a = m a) :
    Chain m' base pool prev off blocks := by
  induction blocks generalizing prev off with
  | nil => trivial
  | cons b rest ih =>
    simp only [offsets, forall_mem_cons] at hsame
    exact ⟨h.1.congr hsame.1, ih h.2 hsame.2⟩

/-- A chain reads nothing outside the range from its first header to its end. -/
theorem Chain.congr (h : Chain m base pool prev off blocks)
    (hsized : Sized blocks) (hsame : ∀ a, base + off ≤ a → a < base + off + total blocks → m' a = m a) :
    Chain m' base pool prev off blocks := by
  refine h.congr_headers fun o ho a hlo hhi => hsame a ?_ ?_ <;>
    have := mem_offsets_bounds hsized ho <;> omega

/-- A store before or behind a chain keeps it. -/
theorem Chain.store {a v : ℕ} (h : Chain m base pool prev off blocks)
    (hsized : Sized blocks) (hout : a + 8 ≤ base + off ∨ base + off + total blocks ≤ a) :
    Chain (m.store a 8 v) base pool prev off blocks :=
  h.congr hsized fun _ _ _ => store_of_outside (by omega)

/-- Rewriting the first header's `prev` field changes what the chain hangs on. -/
theorem Chain.storePrev {b : Block} {rest : List Block} {v : ℕ}
    (h : Chain m base pool prev off (b :: rest)) (hsized : Sized (b :: rest)) (hv : v < 2 ^ 64) :
    Chain (m.store (base + off + 16) 8 v) base pool v off (b :: rest) := by
  rw [sized_cons] at hsized
  refine ⟨⟨?_, ?_, ?_⟩, h.2.store hsized.2 (by omega)⟩
  · rw [load_store_of_disjoint (by omega), h.1.poolPtr]
  · rw [load_store_of_disjoint (by omega), h.1.next]
  · exact load_store_self (by omega)

end Memory

end RtThread.SmallMem
