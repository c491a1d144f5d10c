import RtThread.Lib.ByteMemory
import RtThread.Lib.Linked
import RtThread.Target

/-!
# Initialising a memory pool

`rt_mp_init` cuts a buffer into blocks, each behind a pointer, and links them. A loop writes every
pointer, and then the last one is set to null, whether there is a block or not: a buffer that is too
small for one block gets a null pointer in front of it, and a list that starts at the buffer.
-/

namespace RtThread.MemPool

open Lib ByteMemory List

/-- `struct rt_mempool`, without the object, the spinlock and the list of suspended threads. -/
structure Mempool where
  startAddress : ℕ
  size : ℕ
  blockSize : ℕ
  blockList : ℕ
  blockTotalCount : ℕ
  blockFreeCount : ℕ
  deriving DecidableEq

/-- The pointers that `rt_mp_init` writes, with their addresses: those of the loop, and the last. -/
def initStores (blockPtr stride count : ℕ) : List (ℕ × ℕ) :=
  (List.range count).map (fun offset => (wordAdd blockPtr (wordMul offset stride),
    wordAdd blockPtr (wordMul (offset + 1) stride))) ++
    [(wordAdd blockPtr (wordMul (wordSub count 1) stride), 0)]

/-- `rt_mp_init`, with the pointers that it writes; a failed assertion and a division by zero end it. -/
def rtMpInit (start size blockSize : ℕ) : Option (Mempool × List (ℕ × ℕ)) :=
  if start = 0 ∨ size = 0 ∨ blockSize = 0 then none
  else
    let size := rtAlignDown size
    let blockSize := rtAlign blockSize
    let stride := wordAdd blockSize 8
    if stride = 0 then none
    else
      let count := size / stride
      some (⟨start, size, blockSize, start, count, count⟩, initStores start stride count)

/-- The memory after some pointers have been written. -/
def storeAll (m : ByteMemory) (stores : List (ℕ × ℕ)) : ByteMemory :=
  stores.foldl (fun m w => m.store w.1 8 w.2) m

/-- A pointer, or null. -/
def toPointer (a : ℕ) : Option ℕ := if a = 0 then none else some a

/-- Every write is in the buffer, and from `block_list` on there are `block_total_count` blocks, all in
the buffer. -/
def InBuffer (start size : ℕ) (mp : Mempool) (stores : List (ℕ × ℕ)) : Prop :=
  (∀ w ∈ stores, start ≤ w.1 ∧ w.1 + 8 ≤ start + size) ∧
  ∀ m : ByteMemory, ∃ blocks : List ℕ, blocks.length = mp.blockTotalCount ∧
    Linked (fun b => toPointer ((storeAll m stores).load b 8)) (toPointer mp.blockList) blocks none ∧
    ∀ b ∈ blocks, start ≤ b ∧ b + 8 + mp.blockSize ≤ start + size

/-- One more pointer is written. -/
theorem storeAll_concat (m : ByteMemory) (stores : List (ℕ × ℕ)) (w : ℕ × ℕ) :
    storeAll m (stores ++ [w]) = (storeAll m stores).store w.1 8 w.2 :=
  foldl_append

/-- A pointer of the loop is read back when the later ones are behind it. -/
theorem load_storeAll {f : ℕ → ℕ × ℕ} {n i : ℕ} (m : ByteMemory) (hi : i < n) (hvalue : (f i).2 < 256 ^ 8)
    (hbehind : ∀ j, i < j → j < n → (f i).1 + 8 ≤ (f j).1) :
    (storeAll m ((List.range n).map f)).load (f i).1 8 = (f i).2 := by
  induction n with
  | zero => cases hi
  | succ n ih =>
    rw [range_succ, map_append, map_singleton, storeAll_concat]
    obtain hlt | rfl := Nat.lt_succ_iff_lt_or_eq.mp hi
    · rw [load_store_of_disjoint (.inr (hbehind n hlt (Nat.lt_succ_self n)))]
      exact ih hlt fun j hij hj => hbehind j hij (Nat.lt_succ_of_lt hj)
    · exact load_store_self hvalue

section

variable {start size blockSize n i : ℕ} (hfit : (n + 1) * (blockSize + 8) ≤ size)
  (hend : start + size ≤ 2 ^ 64)
include hfit hend

/-- The blocks that fit the buffer. -/
theorem node_eq (hi : i ≤ n) : wordAdd start (wordMul i (blockSize + 8)) = start + i * (blockSize + 8) ∧
    start + i * (blockSize + 8) + 8 + blockSize ≤ start + size := by
  have hle := (Nat.mul_le_mul_right (blockSize + 8) (Nat.succ_le_succ hi)).trans hfit
  rw [Nat.succ_mul] at hle
  refine ⟨?_, by omega⟩
  rw [wordMul, wordLimit, Nat.mod_eq_of_lt (by omega), wordAdd_of_lt (by omega)]

/-- The stores of the loop go to the blocks, and the last one to the last block. -/
theorem initStores_eq : initStores start (blockSize + 8) (n + 1) =
    (List.range (n + 1)).map (fun i => (start + i * (blockSize + 8),
      wordAdd start (wordMul (i + 1) (blockSize + 8)))) ++ [(start + n * (blockSize + 8), 0)] := by
  have hcount : wordSub (n + 1) 1 = n := by
    have := Nat.mul_le_mul_left (n + 1) (Nat.le_add_left 8 blockSize)
    exact wordSub_of_le (by omega) (by omega)
  rw [initStores, hcount, (node_eq hfit hend le_rfl).1]
  refine congrArg (· ++ _) (map_congr_left fun i hi => ?_)
  rw [(node_eq hfit hend (Nat.le_of_lt_succ (mem_range.mp hi))).1]

/-- With `n + 1` blocks that fit the buffer, the pool is linked up inside it. -/
theorem inBuffer_initStores {size' : ℕ} (hstart : start ≠ 0) :
    InBuffer start size ⟨start, size', blockSize, start, n + 1, n + 1⟩
      (initStores start (blockSize + 8) (n + 1)) := by
  have hin : ∀ i ∈ List.range (n + 1), start + i * (blockSize + 8) + 8 + blockSize ≤ start + size :=
    fun i hi => (node_eq hfit hend (Nat.le_of_lt_succ (mem_range.mp hi))).2
  rw [initStores_eq hfit hend]
  refine ⟨fun w hw => ?_, fun m => ⟨(List.range (n + 1)).map fun i => start + i * (blockSize + 8), by simp,
    ?_, fun b hb => ?_⟩⟩
  · obtain hw | hw := mem_append.mp hw
    · obtain ⟨i, hi, rfl⟩ := mem_map.mp hw
      have := hin i hi
      omega
    · have := hin n self_mem_range_succ
      cases mem_singleton.mp hw
      omega
  · have hbehind : ∀ i j, i < j → start + i * (blockSize + 8) + 8 ≤ start + j * (blockSize + 8) := by
      intro i j hij
      have hmul := Nat.mul_le_mul_right (blockSize + 8) hij
      rw [Nat.succ_mul] at hmul
      omega
    have hfirst : toPointer start = some (start + 0 * (blockSize + 8)) := by simp [toPointer, hstart]
    rw [hfirst, storeAll_concat]
    refine .of_range (fun i => start + i * (blockSize + 8)) (fun i hi => ?_) ?_
    · rw [load_store_of_disjoint (.inr (hbehind i n hi)), load_storeAll m (Nat.lt_succ_of_lt hi)
        (Nat.mod_lt _ (by decide)) fun j hij _ => hbehind i j hij, (node_eq hfit hend hi).1, toPointer,
        if_neg (by omega)]
    · rw [load_store_self (Nat.two_pow_pos 64)]
      rfl
  · obtain ⟨i, hi, rfl⟩ := mem_map.mp hb
    exact ⟨Nat.le_add_right .., hin i hi⟩

end

/-- `rt_mp_init` stays in the buffer and links up all blocks exactly when the buffer, rounded down, has
room for one block. -/
theorem rtMpInit_inBuffer_iff {start size blockSize : ℕ} (hstart : start ≠ 0) (hsize : 0 < size)
    (hblock : 0 < blockSize) (hend : start + size ≤ 2 ^ 64) :
    (∃ mp stores, rtMpInit start size blockSize = some (mp, stores) ∧ InBuffer start size mp stores) ↔
      rtAlign blockSize + 8 ≤ rtAlignDown size := by
  have hdown : rtAlignDown size ≤ size := Nat.div_mul_le_self ..
  unfold rtMpInit
  rw [if_neg (by omega)]
  dsimp only
  constructor
  · rintro ⟨mp, stores, heq, hin⟩
    split_ifs at heq with hstride
    cases heq
    obtain ⟨blocks, hlength, hlinked, -⟩ := hin.2 fun _ => 0
    by_contra hsmall
    -- No block fits, and the list is not empty.
    have hcount : rtAlignDown size / wordAdd (rtAlign blockSize) 8 = 0 := by
      have hmod := rtAlign_mod blockSize
      have hlt := rtAlign_lt blockSize
      unfold wordAdd wordLimit at hstride ⊢
      exact Nat.div_eq_of_lt (by omega)
    rw [hcount, length_eq_zero_iff] at hlength
    rw [hlength] at hlinked
    simp [Linked, toPointer, hstart] at hlinked
  · intro hfit
    have hstride : wordAdd (rtAlign blockSize) 8 = rtAlign blockSize + 8 := wordAdd_of_lt (by omega)
    obtain ⟨n, hn⟩ := Nat.exists_eq_succ_of_ne_zero (Nat.div_pos hfit (Nat.succ_pos _)).ne'
    have hmul := Nat.div_mul_le_self (rtAlignDown size) (rtAlign blockSize + 8)
    rw [hstride, hn]
    rw [hn] at hmul
    exact ⟨_, _, rfl, inBuffer_initStores (hmul.trans hdown) hend hstart⟩

/-- A buffer of 64 bytes has room for blocks of 10 bytes. -/
theorem rtMpInit_inBuffer_ten : ∃ mp stores, rtMpInit 16 64 10 = some (mp, stores) ∧
    InBuffer 16 64 mp stores :=
  (rtMpInit_inBuffer_iff (by decide) (by decide) (by decide) (by decide)).mpr (by decide)

/-- A buffer of 8 bytes at address 64 has no room for a block of 8 bytes; a null pointer is written to
address 48, and the list of no blocks starts at the buffer. -/
theorem rtMpInit_before_buffer : rtMpInit 64 8 8 = some (⟨64, 8, 8, 64, 0, 0⟩, [(48, 0)]) := by decide

end RtThread.MemPool
