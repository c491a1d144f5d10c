import RtThread.RingBlock.Space

/-!
# Block queues

`rt_rbb_blk_queue_get` takes the first block that is put and those behind it, as long as they are put, do not
wrap and fit the size that is asked for. It does not compare the first block with that size, and takes two
blocks as continuous although one between them has been freed.
-/

namespace RtThread.RingBlock.Rbb

open Lib List TransitionSystem

variable {s s' : Rbb} {l : List ℕ} {last : Option ℕ} {len total : ℕ}

/-- The blocks that the loop of `rt_rbb_blk_queue_get` takes: `blk_num` blocks from `blocks` on. -/
def queueBlocks (s : Rbb) (queueDataLen : ℕ) : List ℕ → Option ℕ → ℕ → List ℕ
  | [], _, _ => []
  | n :: rest, none, total =>
    if (s.blk n).status = .put then n :: s.queueBlocks queueDataLen rest (some n) (total + (s.blk n).size)
    else s.queueBlocks queueDataLen rest none total
  | n :: rest, some last, total =>
    if (s.blk n).status ≠ .put ∨ (s.blk n).buf < (s.blk last).buf ∨
        queueDataLen < total + (s.blk n).size then []
    else n :: s.queueBlocks queueDataLen rest (some n) (total + (s.blk n).size)

/-- `blk_queue` after the call. -/
def blkQueue (s : Rbb) (queueDataLen : ℕ) : List ℕ := s.queueBlocks queueDataLen s.blkList none 0

/-- Blocks are taken. -/
def taken (s : Rbb) (queue : List ℕ) : Rbb :=
  { s with blk := fun n => if n ∈ queue then { s.blk n with status := .get } else s.blk n }

/-- The sizes of the blocks. -/
def dataLen (s : Rbb) (queue : List ℕ) : ℕ := (queue.map fun n => (s.blk n).size).sum

theorem taken_cons (n : ℕ) (queue : List ℕ) : (s.setStatus n .get).taken queue = s.taken (n :: queue) := by
  simp only [taken, setStatus, setBlk, Rbb.mk.injEq, and_true, true_and]
  funext m
  by_cases hm : m = n <;> simp [hm]

/-- The loop takes these blocks, when it has changed none of those ahead. -/
theorem queueGetLoop_eq (hl : l.Nodup) (hsame : ∀ n ∈ l, s'.blk n = s.blk n)
    (hlast : ∀ n ∈ last, (s'.blk n).buf = (s.blk n).buf) : queueGetLoop len l last total s' =
      (s'.taken (s.queueBlocks len l last total), total + s.dataLen (s.queueBlocks len l last total)) := by
  induction l generalizing last total s' with
  | nil => simp [queueGetLoop, queueBlocks, taken, dataLen]
  | cons n rest ih =>
    obtain ⟨hn, hrest⟩ := forall_mem_cons.mp hsame
    obtain ⟨hnot, hnodup⟩ := nodup_cons.mp hl
    have hstep : queueGetLoop len rest (some n) (total + (s.blk n).size) (s'.setStatus n .get) = _ := ih hnodup
      (fun m hm => (Function.update_of_ne (ne_of_mem_of_not_mem hm hnot) ..).trans (hrest m hm))
      (by simp [setStatus, setBlk, hn])
    rw [taken_cons, Nat.add_assoc] at hstep
    cases last with
    | none =>
      rw [queueGetLoop, queueBlocks, hn]
      split
      · exact hstep
      · exact ih hnodup hrest hlast
    | some last =>
      rw [queueGetLoop, queueBlocks, hn, hlast last rfl]
      split
      · simp [taken, dataLen]
      · exact hstep

/-- Only blocks that are put are taken, and they fit when the first one does. -/
theorem queueBlocks_spec (htotal : total ≤ len)
    (hfirst : last = none → ∀ n ∈ (s.queueBlocks len l last total).head?, total + (s.blk n).size ≤ len) :
    (∀ n ∈ s.queueBlocks len l last total, (s.blk n).status = .put) ∧
      total + s.dataLen (s.queueBlocks len l last total) ≤ len := by
  fun_induction queueBlocks s len l last total with
  | case1 | case4 => simpa [dataLen] using htotal
  | case2 n rest total hput ih =>
    obtain ⟨hrest, hle⟩ := ih (hfirst rfl n rfl) nofun
    exact ⟨forall_mem_cons.mpr ⟨hput, hrest⟩, by simpa [dataLen, Nat.add_assoc] using hle⟩
  | case3 n rest total hput ih => exact ih htotal hfirst
  | case5 n rest last total hnot ih =>
    obtain ⟨hput, hfits⟩ := not_or.mp hnot
    obtain ⟨hrest, hle⟩ := ih (by omega) nofun
    exact ⟨forall_mem_cons.mpr ⟨not_not.mp hput, hrest⟩, by simpa [dataLen, Nat.add_assoc] using hle⟩

/-- The first block ends where the second starts. -/
abbrev Adjacent (s : Rbb) (a b : ℕ) : Prop := (s.blk a).buf + (s.blk a).size = (s.blk b).buf

/-- What a call of `rt_rbb_blk_queue_get` is to do. -/
structure QueueGot (s : Rbb) (queueDataLen : ℕ) : Prop where
  contiguous : (s.blkQueue queueDataLen).IsChain s.Adjacent
  total_eq : (s.rtRbbBlkQueueGet queueDataLen).2 = s.dataLen (s.blkQueue queueDataLen)
  total_le : (s.rtRbbBlkQueueGet queueDataLen).2 ≤ queueDataLen
  put : ∀ n ∈ s.blkQueue queueDataLen, (s.blk n).status = .put
  changed : (s.rtRbbBlkQueueGet queueDataLen).1 = s.taken (s.blkQueue queueDataLen)

end RtThread.RingBlock.Rbb
