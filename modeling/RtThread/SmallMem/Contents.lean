import RtThread.SmallMem.Reachable

/-!
# The contents of the blocks across `rt_smem_realloc`

The data of a live block is changed by its owner only. A change of size copies it at most: the block that
comes back holds the old bytes as far as both sizes reach, every other block keeps its place, its size and
its bytes, and a refusal leaves the whole heap as it was.
-/

namespace RtThread.SmallMem

open Lib List

variable {s start : Heap} {live : List ℕ}

/-- A heap object at the null address never gets a live block: its assertion fails on every
allocation. -/
theorem Reachable.self_ne_zero (hstart : ∃ blocks, Invariant start blocks [])
    (h : Reachable start s live) : s.self = 0 → live = [] := by
  induction h with
  | init => exact fun _ => rfl
  | @alloc s s' live n p hreach hstep ih =>
    obtain ⟨blocks, hinv⟩ := hreach.invariant hstart
    intro hself'
    by_cases hself : s.self = 0
    · by_cases hn : n = 0
      · rw [rtSmemAlloc, if_pos hn] at hstep
        cases hstep
        exact ih hself
      · rw [rtSmemAlloc_of_null hself hn] at hstep
        cases hstep
    · rcases hinv.alloc hself n with heq | ⟨t, pre, b, post, -, -, -, heq, -, hkeeps⟩
      · rw [heq] at hstep
        cases hstep
        exact absurd hself' hself
      · rw [heq] at hstep
        cases hstep
        exact absurd (hkeeps.self_eq ▸ hself') hself
  | @realloc s s' live p n q hreach hp hstep ih =>
    obtain ⟨blocks, hinv⟩ := hreach.invariant hstart
    intro hself'
    by_cases hself : s.self = 0
    · rw [rtSmemRealloc_of_null hself] at hstep
      cases hstep
    · obtain ⟨t, r, blocks', heq, -, hlayout⟩ := hinv.realloc hself hp n
      rw [heq] at hstep
      cases hstep
      exact absurd (hlayout.self_eq ▸ hself') hself
  | @free s s' live p hreach hp hstep ih =>
    obtain ⟨blocks, hinv⟩ := hreach.invariant hstart
    intro hself'
    rcases hp with rfl | hp
    · cases hstep
      rw [ih hself']
      rfl
    · by_cases hself : s.self = 0
      · rw [ih hself] at hp
        cases hp
      · obtain ⟨t, blocks', heq, -, hkeeps⟩ := hinv.free hself hp
        rw [heq] at hstep
        cases hstep
        exact absurd (hkeeps.self_eq ▸ hself') hself
  | write _ _ ih => exact ih

/-- A block that holds more bytes holds fewer. -/
theorem HoldsDataOf.mono {s s' : Heap} {p q n m : ℕ} (h : HoldsDataOf s s' p q n) (hle : m ≤ n) :
    HoldsDataOf s s' p q m :=
  ⟨(Nat.add_le_add_left hle q).trans h.size_le, fun i hi => h.data_eq i (hi.trans_le hle)⟩

/-- Rounding a size up loses nothing, unless the sum wraps. -/
theorem le_rtAlign {n : ℕ} (hn : n + 7 < 2 ^ 64) : n ≤ rtAlign n := by
  rw [rtAlign, wordAdd_of_lt hn]
  omega

/-- Only no bytes are rounded to no bytes, unless the sum wraps. -/
theorem rtAlign_eq_zero {n : ℕ} (hn : n + 7 < 2 ^ 64) : rtAlign n = 0 ↔ n = 0 := by
  rw [rtAlign, wordAdd_of_lt hn]
  omega

/-- In every heap that a program reaches, `rt_smem_realloc` on a live block frees it, refuses and leaves
the heap as it was, or returns a live block of the new size with the old data. The other live blocks
stay live and keep their place, size and data. -/
theorem rtSmemRealloc_keeps_data {mem : ByteMemory} {objectSize beginAddr size : ℕ}
    (hinit : rtSmemInit mem objectSize beginAddr size = some start)
    (hreach : Reachable start s live) {p n : ℕ} (hp : p ∈ live) (hn : n + 7 < 2 ^ 64) :
    ∃ s' q live', rtSmemRealloc s p n = some (s', q) ∧ Reachable start s' live' ∧
      (∀ r ∈ live, r ≠ p → r ∈ live' ∧ KeepsBlock s s' r) ∧
      ((n = 0 ∧ q = 0 ∧ rtSmemFree s p = some s' ∧ live' = live.erase p) ∨
        (n ≠ 0 ∧ q = 0 ∧ s' = s ∧ live' = live) ∨ (q ≠ 0 ∧ q ∈ live' ∧ HoldsDataOf s s' p q n)) := by
  have hstart := rtSmemInit_invariant hinit
  obtain ⟨blocks, hinv⟩ := hreach.invariant hstart
  have hself : s.self ≠ 0 := fun hzero => by
    rw [hreach.self_ne_zero hstart hzero] at hp
    cases hp
  obtain ⟨s', q, blocks', heq, hinv', hkeeps, houtcome⟩ := hinv.realloc_live hself hp n
  refine ⟨s', q, liveAfterRealloc live p n q, heq, hreach.realloc (.inr hp) heq,
    fun r hr hne => ⟨?_, ?_⟩, ?_⟩
  · have herase : r ∈ live.erase p := (mem_erase_of_ne hne).mpr hr
    unfold liveAfterRealloc
    split
    · exact mem_cons_of_mem q herase
    · split
      · exact herase
      · exact hr
  · exact hkeeps.block r ((mem_erase_of_ne hne).mpr hr)
  · rcases houtcome with ⟨hzero, rfl, hfree⟩ | ⟨hzero, rfl, rfl⟩ | ⟨hq, hholds⟩
    · refine .inl ⟨(rtAlign_eq_zero hn).mp hzero, rfl, hfree, ?_⟩
      rw [liveAfterRealloc, if_neg (by simp), if_pos hzero]
    · refine .inr (.inl ⟨fun hnz => hzero ((rtAlign_eq_zero hn).mpr hnz), rfl, rfl, ?_⟩)
      rw [liveAfterRealloc, if_neg (by simp), if_neg hzero]
    · refine .inr (.inr ⟨hq, ?_, hholds.mono (le_rtAlign hn)⟩)
      rw [liveAfterRealloc, if_pos hq]
      exact mem_cons_self

/-- Growing the first of two blocks moves it behind the second. -/
theorem rtSmemRealloc_keeps_data_moved :
    ∃ start s s' live', rtSmemInit (fun _ => 0) 88 4096 1024 = some start ∧
      Reachable start s [4336, 4208] ∧ rtSmemRealloc s 4208 200 = some (s', 4432) ∧
      Reachable start s' live' ∧ 4336 ∈ live' ∧ KeepsBlock s s' 4336 ∧ HoldsDataOf s s' 4208 4432 200 := by
  obtain ⟨start, hinit, s₁, halloc, s, halloc', t, hrealloc⟩ :
      ∃ start, rtSmemInit (fun _ => 0) 88 4096 1024 = some start ∧
      ∃ s₁, rtSmemAlloc start 100 = some (s₁, 4208) ∧ ∃ s, rtSmemAlloc s₁ 70 = some (s, 4336) ∧
      ∃ t, rtSmemRealloc s 4208 200 = some (t, 4432) := by decide +kernel
  have hstart : Reachable start start [] := Reachable.init
  have hreach : Reachable start s [4336, 4208] := (hstart.alloc halloc).alloc halloc'
  obtain ⟨s', q, live', heq, hreach', hothers, hcases⟩ :=
    rtSmemRealloc_keeps_data hinit hreach (p := 4208) (n := 200) (by decide) (by decide)
  rw [hrealloc] at heq
  cases heq
  have hother := hothers 4336 (by decide) (by decide)
  refine ⟨start, s, t, live', hinit, hreach, hrealloc, hreach', hother.1, hother.2, ?_⟩
  rcases hcases with ⟨h, -⟩ | ⟨-, h, -⟩ | ⟨-, -, h⟩
  · cases h
  · cases h
  · exact h

end RtThread.SmallMem
