import RtThread.Memblock.Walk

/-!
# The hand-over of boot memory

After any sequence of successful calls, what `rt_memblock_setup_memory_environment` passes to the page
allocator is exactly the memory that was added and not reserved. The walk takes the list head for a first
region, so this depends on what it reads there: an empty region that is not at the null address is passed on
as it is, or makes the walk leave out what is free below it.
-/

namespace RtThread.Memblock

open Lib List Option TransitionSystem

variable {memory rest : List Reg} {rStart x a : ℕ} {s : State} {calls : List Call} {head : Reg}

/-- The address is at or in front of the place, at the top, or touches a reserved region behind it. -/
def Touched (x rStart : ℕ) (rest : List Reg) : Prop :=
  x ≤ rStart ∨ physAddrMax ≤ x ∨ ∃ r ∈ rest, r.start ≤ x ∧ x ≤ r.finish

/-- The scan for an empty region leaves the gaps below it behind where it touches something, and else gives the
region. -/
theorem scanReserved_empty (hok : GapOk (some (rStart, rest))) (hmax : rStart ≤ physAddrMax)
    (hx : x ≤ physAddrMax) : ∃ r', GapOk r' ∧ gapCount r' ≤ gapCount (some (rStart, rest)) ∧
      (Touched x rStart rest ∧ scanReserved x x rStart rest = (none, r') ∧
          (∀ a < physAddrMax, GapFree r' a ↔ GapFree (some (rStart, rest)) a ∧ x ≤ a) ∨
        ¬ Touched x rStart rest ∧ scanReserved x x rStart rest = (some ((x, x), true), r')) := by
  fun_induction scanReserved x x rStart rest with
  | case1 rest rStart _ hstop =>
    refine ⟨_, hok, le_rfl, .inl ⟨.inl hstop.2, rfl, fun a _ => ⟨fun hfree => ⟨hfree, ?_⟩, And.left⟩⟩⟩
    exact hstop.2.trans hfree.1
  | case2 rest rStart rEnd hbreak hhit =>
    refine ⟨some (rStart, rest), hok, le_rfl, .inr ⟨?_, ?_⟩⟩
    · obtain ⟨hend, hout⟩ := hok.gapEnd_le
      rintro (hle | hle | ⟨r, hr, hin, -⟩)
      · omega
      · omega
      · have hge := hout r hr
        omega
    · rw [max_eq_left (by omega)]
      simp [hhit.2.le]
  | case3 rStart rEnd hbreak hmiss =>
    rw [show rEnd = physAddrMax from rfl] at hbreak hmiss
    refine ⟨none, trivial, Nat.zero_le _, .inl ⟨by unfold Touched; omega, rfl, fun a ha => iff_of_false id ?_⟩⟩
    rintro ⟨⟨hge, -⟩, hxa⟩
    omega
  | case4 rStart n rest rEnd hbreak hmiss ih =>
    obtain ⟨hn, hn', hnmax, hnext⟩ := hok.next
    rw [show rEnd = n.start from rfl] at hbreak hmiss
    have htouched : Touched x rStart (n :: rest) ↔ Touched x n.finish rest := by
      simp only [Touched, exists_mem_cons_iff]
      by_cases hrest : ∃ r ∈ rest, r.start ≤ x ∧ x ≤ r.finish
      · simp [hrest]
      · simp only [hrest, or_false]
        omega
    obtain ⟨r', hok', hcount, hcase⟩ := ih hnext hnmax
    rw [htouched]
    refine ⟨r', hok', hcount.trans (by simp [gapCount]),
      hcase.imp_left (And.imp_right (And.imp_right fun hfree a ha => ?_))⟩
    rw [hfree a ha]
    refine and_congr_left fun hxa => (gapFree_next hn hn' ?_).symm
    omega

/-- With only normal regions reserved, no memory region is cut or flagged. -/
theorem separateReserved_of_none (h : ∀ r ∈ rest, r.flags = memblockNone) :
    separateReserved rest s = some s := by
  induction rest with
  | nil => rfl
  | cons r rest ih =>
    rw [separateReserved, if_neg (not_not.mpr (h r mem_cons_self))]
    exact ih fun x hx => h x (mem_cons_of_mem _ hx)

/-- The regions are the memory that was added and not reserved, in ascending pieces that are not empty. -/
structure Exact (calls : List Call) (regions : List (ℕ × ℕ)) : Prop where
  ascending : Ascending Prod.fst Prod.snd regions
  covers : ∀ a, Covers Prod.fst Prod.snd regions a ↔
    Requested calls .memory a ∧ ¬ Requested calls .reserved a

/-- The regions are words. -/
theorem lt_word_of_covers {regions : List (ℕ × ℕ)} (hproper : ∀ p ∈ regions, p.1 < p.2)
    (hcovers : ∀ a, Covers Prod.fst Prod.snd regions a → a < physAddrMax) :
    ∀ p ∈ regions, p.1 < 2 ^ 64 ∧ p.2 < 2 ^ 64 := by
  intro p hp
  have hlt := hproper p hp
  have hlast := hcovers (p.2 - 1) ⟨p, hp, by omega, by omega⟩
  unfold physAddrMax at hlast
  omega

/-- The list head reads as a region that is skipped, or as an empty one that touches the null address, the top
or a reserved region and has nothing free below it. -/
def HeadHarmless (calls : List Call) (s : State) (head : Reg) : Prop :=
  head.flags ≠ memblockNone ∨
    Touched head.finish 0 s.reserved ∧
      ∀ a < head.finish, ¬ (Requested calls .memory a ∧ ¬ Requested calls .reserved a)

/-- The memory list and the first gap of the walk after the lists were set up. -/
theorem walk_ok (hvalid : ∀ kind, Valid calls kind (s.list kind)) (hwords : ∀ c ∈ calls, c.finish < 2 ^ 64) :
    MemoryOk memblockNone (memblockMergeMemory s).memory ∧ GapOk (some (0, s.reserved)) ∧
      ∀ a, FreeAt (memblockMergeMemory s).memory (some (0, s.reserved)) a ↔
        Requested calls .memory a ∧ ¬ Requested calls .reserved a := by
  have hmemory : Valid calls .memory s.memory := hvalid .memory
  have hreserved : Valid calls .reserved s.reserved := hvalid .reserved
  obtain ⟨hsorted, hholds, hflags, -, -⟩ := memblockMergeMemory_spec hmemory.sorted hmemory.flags
  have hbound : ∀ {kind l}, Valid calls kind l → ∀ a, Holds l a → a < physAddrMax := by
    rintro kind l hl a ⟨r, hr, -, hlt⟩
    obtain ⟨c, hc, heq⟩ := hl.bound r hr
    have hword := hwords c hc
    unfold physAddrMax
    omega
  refine ⟨⟨hsorted, hflags, fun m hm => ?_⟩, ⟨hreserved.sorted, by simp, fun r hr => ?_⟩, fun a => ?_⟩
  · have hproper := hsorted.proper m hm
    have hlast : Holds (memblockMergeMemory s).memory (m.finish - 1) := ⟨m, hm, by omega, by omega⟩
    have hlt := hbound hmemory _ ((hholds _).mp hlast)
    omega
  · have hproper := hreserved.sorted.proper r hr
    have hlt := hbound hreserved (r.finish - 1) ⟨r, hr, by omega, by omega⟩
    omega
  · simp only [FreeAt, GapFree, hholds, hmemory.holds, hreserved.holds, Nat.zero_le, true_and]

/-- The loop depends on its places only through the first free region. -/
theorem freeRegions_congr {flags count fuel : ℕ} {memory' : List Reg} {r r' : Option Gap}
    (h : nextFreeRegion flags memory r = nextFreeRegion flags memory' r') :
    freeRegions flags count (fuel + 1) memory r = freeRegions flags count (fuel + 1) memory' r' := by
  rw [freeRegions, freeRegions, h]

/-- The walk from a list head that it skips, or that reads as an empty region that touches something. -/
theorem freeRegions_head_skipped {fuel : ℕ} (hmemory : MemoryOk memblockNone memory)
    (hok : GapOk (some (0, rest))) (hfuel : memory.length + rest.length + 2 < fuel)
    (hempty : head.start = head.finish) (hword : head.finish ≤ physAddrMax)
    (h : head.flags ≠ memblockNone ∨ Touched head.finish 0 rest) : ∃ regions,
      freeRegions memblockNone memory.length fuel (head :: memory) (some (0, rest)) = some regions ∧
      Ascending Prod.fst Prod.snd regions ∧ ∀ a, Covers Prod.fst Prod.snd regions a ↔
        FreeAt memory (some (0, rest)) a ∧ (head.flags = memblockNone → head.finish ≤ a) := by
  obtain ⟨fuel, rfl⟩ : ∃ k, fuel = k + 1 := ⟨fuel - 1, by omega⟩
  obtain ⟨r', hnext, hok', hcount, hfree⟩ : ∃ r', nextFreeRegion memblockNone (head :: memory) (some (0, rest)) =
      nextFreeRegion memblockNone memory r' ∧ GapOk r' ∧ gapCount r' ≤ rest.length + 1 ∧
      ∀ a < physAddrMax, GapFree r' a ↔
        GapFree (some (0, rest)) a ∧ (head.flags = memblockNone → head.finish ≤ a) := by
    by_cases hflags : head.flags = memblockNone
    · obtain ⟨r', hok', hcount, ⟨-, hscan, hfree⟩ | ⟨hmiss, -⟩⟩ := scanReserved_empty hok (Nat.zero_le _) hword
      · exact ⟨r', by simp [nextFreeRegion, hflags, hempty, hscan], hok', hcount, by simpa [hflags] using hfree⟩
      · exact absurd (h.resolve_left (not_not.mpr hflags)) hmiss
    · exact ⟨_, by simp [nextFreeRegion, hflags], hok, le_rfl, by simp [hflags]⟩
  rw [freeRegions_congr hnext]
  obtain ⟨regions, hrun, hascending, hcovers⟩ := freeRegions_spec hmemory hok' le_rfl
    (show memory.length + gapCount r' < fuel + 1 by omega)
  refine ⟨regions, hrun, hascending, fun a => ?_⟩
  rw [hcovers]
  simp only [FreeAt, and_assoc]
  exact and_congr_right fun hin => hfree a (hmemory.lt_of_holds hin)

/-- The walk from a list head that reads as an empty region that touches nothing gives this region. -/
theorem freeRegions_head_found {fuel : ℕ} (hmemory : MemoryOk memblockNone memory)
    (hok : GapOk (some (0, rest))) (hfuel : memory.length + rest.length + 2 < fuel)
    (hempty : head.start = head.finish) (hword : head.finish ≤ physAddrMax) (hflags : head.flags = memblockNone)
    (h : ¬ Touched head.finish 0 rest) :
    ∃ others, freeRegions memblockNone memory.length fuel (head :: memory) (some (0, rest)) =
      some ((head.finish, head.finish) :: others) ∧ ∀ p ∈ others, p.1 < 2 ^ 64 ∧ p.2 < 2 ^ 64 := by
  obtain ⟨fuel, rfl⟩ : ∃ k, fuel = k + 1 := ⟨fuel - 1, by omega⟩
  obtain ⟨r', hok', hcount, ⟨htouched, -⟩ | ⟨-, hscan⟩⟩ := scanReserved_empty hok (Nat.zero_le _) hword
  · exact absurd htouched h
  have hnext : nextFreeRegion memblockNone (head :: memory) (some (0, rest)) =
      some ((head.finish, head.finish), memory, r') := by
    simp [nextFreeRegion, hflags, hempty, hscan]
  rw [show gapCount (some (0, rest)) = rest.length + 1 from rfl] at hcount
  obtain ⟨others, hrun, hascending, hcovers⟩ := freeRegions_spec hmemory hok' le_rfl
    (show memory.length + gapCount r' < fuel by omega)
  refine ⟨others, ?_, lt_word_of_covers hascending.proper fun a ha => hmemory.lt_of_holds ((hcovers a).mp ha).1⟩
  rw [freeRegions, hnext]
  dsimp only
  rw [if_neg (lt_irrefl _), hrun]
  rfl

/-- Regions at kernel addresses are those of their physical addresses. -/
theorem kernelRegion_inj {pvOffset : ℕ} {regions found : List (ℕ × ℕ)} (hpv : pvOffset < 2 ^ 64)
    (hregions : ∀ p ∈ regions, p.1 < 2 ^ 64 ∧ p.2 < 2 ^ 64) (hfound : ∀ p ∈ found, p.1 < 2 ^ 64 ∧ p.2 < 2 ^ 64)
    (h : regions.map (kernelRegion pvOffset) = found.map (kernelRegion pvOffset)) : regions = found := by
  have hinv : ∀ l : List (ℕ × ℕ), (∀ p ∈ l, p.1 < 2 ^ 64 ∧ p.2 < 2 ^ 64) →
      (l.map (kernelRegion pvOffset)).map (Prod.map (wordAdd · pvOffset) (wordAdd · pvOffset)) = l := by
    intro l hl
    refine (List.map_map ..).trans ((map_congr_left fun p hp => ?_).trans (map_id l))
    have hword := hl p hp
    refine Prod.ext ?_ ?_ <;> simp [kernelRegion, wordAdd, wordSub, wordLimit] <;> omega
  rw [← hinv regions hregions, h, hinv found hfound]

/-- What is passed to the page allocator is exactly the free memory. -/
def HandsOver (calls : List Call) (head : Reg) (pvOffset fuel : ℕ) (s : State) : Prop :=
  ∃ s' regions, rtMemblockSetupMemoryEnvironment head pvOffset fuel s =
    some (s', regions.map (kernelRegion pvOffset)) ∧ Exact calls regions

/-- Where the walk gives these regions, they are what has to be exact. -/
theorem handsOver_iff {found : List (ℕ × ℕ)} {s' : State} {pvOffset fuel : ℕ} (hpv : pvOffset < 2 ^ 64)
    (hwords : ∀ c ∈ calls, c.finish < 2 ^ 64) (hfound : ∀ p ∈ found, p.1 < 2 ^ 64 ∧ p.2 < 2 ^ 64)
    (hsetup : rtMemblockSetupMemoryEnvironment head pvOffset fuel s =
      some (s', found.map (kernelRegion pvOffset))) :
    HandsOver calls head pvOffset fuel s ↔ Exact calls found := by
  refine ⟨?_, fun hexact => ⟨_, found, hsetup, hexact⟩⟩
  rintro ⟨s', regions, hset, hexact⟩
  have heq := (Prod.mk.inj (mem_unique hset hsetup)).2
  have hregions := lt_word_of_covers hexact.ascending.proper fun a ha => by
    obtain ⟨c, hc, -, -, hlast⟩ := ((hexact.covers a).mp ha).1
    have hword := hwords c hc
    unfold physAddrMax
    omega
  rwa [← kernelRegion_inj hpv hregions hfound heq]

/-- After every sequence of successful calls both lists are in order, a call is refused as invalid exactly when
its range is empty or overlaps, and exactly the free memory is handed over if and only if the list head reads as
a harmless region. -/
theorem handover_exact {regions pvOffset fuel : ℕ} (hrun : runEvents step (initial regions) calls = some s)
    (hwords : ∀ c ∈ calls, c.finish < 2 ^ 64) (hempty : head.start = head.finish)
    (hhead : head.finish < 2 ^ 64) (hpv : pvOffset < 2 ^ 64)
    (hfuel : s.memory.length + s.reserved.length + 2 < fuel) : (∀ kind, Sorted (s.list kind)) ∧
      (∀ kind start finish flags, (memblockAddRange s kind start finish flags).2 = .einval ↔
        finish ≤ start ∨ ∃ r ∈ s.list kind, r.start < finish ∧ start < r.finish) ∧
      (HandsOver calls head pvOffset fuel s ↔ HeadHarmless calls s head) := by
  have hvalid := valid_runEvents hrun
  obtain ⟨hmemory, hok, hfree⟩ := walk_ok hvalid hwords
  have hlength := (memblockMergeMemory_spec (hvalid .memory).sorted (hvalid .memory).flags).2.2.2
  refine ⟨fun kind => (hvalid kind).sorted, fun kind start finish flags =>
    memblockAddRange_einval_iff (hvalid kind).sorted, ?_⟩
  have hflags : ∀ r ∈ s.reserved, r.flags = memblockNone := (hvalid .reserved).flags
  have hsetup : ∀ found, freeRegions memblockNone (memblockMergeMemory s).memory.length fuel
      (head :: (memblockMergeMemory s).memory) (some (0, s.reserved)) = some found →
      rtMemblockSetupMemoryEnvironment head pvOffset fuel s =
        some (memblockMergeMemory s, found.map (kernelRegion pvOffset)) := by
    intro found hfound
    rw [rtMemblockSetupMemoryEnvironment, separateReserved_of_none hflags]
    simp only [bind_eq_bind, bind_some, memblockFreeAll, hlength.2, hfound, map_some, Option.pure_def]
  have hword : head.finish ≤ physAddrMax := by
    unfold physAddrMax
    omega
  have hrounds : (memblockMergeMemory s).memory.length + s.reserved.length + 2 < fuel := by omega
  by_cases hgiven : head.flags = memblockNone ∧ ¬ Touched head.finish 0 s.reserved
  · obtain ⟨hnone, hmiss⟩ := hgiven
    obtain ⟨others, hwalk, hothers⟩ := freeRegions_head_found hmemory hok hrounds hempty hword hnone hmiss
    rw [handsOver_iff hpv hwords (forall_mem_cons.mpr ⟨⟨hhead, hhead⟩, hothers⟩) (hsetup _ hwalk)]
    refine iff_of_false (fun hexact => ?_) fun hharmless => ?_
    · exact lt_irrefl _ (hexact.ascending.proper _ mem_cons_self)
    · rcases hharmless with hne | ⟨htouched, -⟩
      · exact hne hnone
      · exact hmiss htouched
  · have hskipped : head.flags ≠ memblockNone ∨ Touched head.finish 0 s.reserved := by
      rwa [not_and_or, not_not] at hgiven
    obtain ⟨found, hwalk, hascending, hcovers⟩ := freeRegions_head_skipped hmemory hok hrounds hempty hword
      hskipped
    have hfound := lt_word_of_covers hascending.proper fun a ha => hmemory.lt_of_holds ((hcovers a).mp ha).1.1
    rw [handsOver_iff hpv hwords hfound (hsetup _ hwalk)]
    simp only [hfree] at hcovers
    constructor
    · intro hexact
      refine or_iff_not_imp_left.mpr fun hnone => ⟨hskipped.resolve_left hnone, fun a ha hreq => ?_⟩
      have hge := ((hcovers a).mp ((hexact.covers a).mpr hreq)).2 (not_not.mp hnone)
      omega
    · refine fun hharmless => ⟨hascending, fun a => (hcovers a).trans (and_iff_left_of_imp fun hreq hnone => ?_)⟩
      rcases hharmless with hne | ⟨-, hbelow⟩
      · exact absurd hnone hne
      · by_contra hlt
        exact hbelow a (not_le.mp hlt) hreq

/-- Three regions of memory, two of them adjacent, with a reserved part; the list head reads as zeros. -/
theorem handover_exact_zeros : ∃ s, runEvents step (initial 8)
        [⟨.memory, 4096, 8192⟩, ⟨.reserved, 6144, 7168⟩, ⟨.memory, 8192, 12288⟩, ⟨.memory, 16384, 20480⟩] =
          some s ∧ HandsOver [⟨.memory, 4096, 8192⟩, ⟨.reserved, 6144, 7168⟩, ⟨.memory, 8192, 12288⟩,
        ⟨.memory, 16384, 20480⟩] ⟨0, 0, 0, memblockNone⟩ 0 8 s := by
  obtain ⟨s, hs, hmemory, hreserved⟩ : ∃ s, runEvents step (initial 8)
      [⟨.memory, 4096, 8192⟩, ⟨.reserved, 6144, 7168⟩, ⟨.memory, 8192, 12288⟩, ⟨.memory, 16384, 20480⟩] =
        some s ∧ s.memory.length = 3 ∧ s.reserved.length = 1 := by decide +kernel
  refine ⟨s, hs, ((handover_exact hs (by decide) rfl (by decide) (by decide) (by omega)).2.2).mpr (.inr ?_)⟩
  exact ⟨.inl le_rfl, fun a ha => absurd ha (Nat.not_lt_zero a)⟩

/-- The list head reads as the empty region at 12288. The walk passes it on as a region, and has left the gap in
front of the reserved part behind when it comes to the memory there. -/
theorem handover_skips_memory :
    ∃ s, runEvents step (initial 8) [⟨.memory, 0, 8192⟩, ⟨.reserved, 4096, 6144⟩] = some s ∧
      (rtMemblockSetupMemoryEnvironment ⟨0, 12288, 12288, memblockNone⟩ 0 8 s).map Prod.snd =
        some [(12288, 12288), (6144, 8192)] ∧
      ¬ HandsOver [⟨.memory, 0, 8192⟩, ⟨.reserved, 4096, 6144⟩] ⟨0, 12288, 12288, memblockNone⟩ 0 8 s := by
  obtain ⟨s, hs, hsetup⟩ : ∃ s,
      runEvents step (initial 8) [⟨.memory, 0, 8192⟩, ⟨.reserved, 4096, 6144⟩] = some s ∧
      (rtMemblockSetupMemoryEnvironment ⟨0, 12288, 12288, memblockNone⟩ 0 8 s).map Prod.snd =
        some [(12288, 12288), (6144, 8192)] := by decide +kernel
  refine ⟨s, hs, hsetup, ?_⟩
  rintro ⟨s', regions, hset, hexact⟩
  rw [hset, map_some, some.injEq] at hsetup
  obtain ⟨p, rest, rfl, hp, hrest⟩ := map_eq_cons_iff.mp hsetup
  have hproper := hexact.ascending.proper p mem_cons_self
  have hlast : Covers Prod.fst Prod.snd (p :: rest) (p.2 - 1) :=
    ⟨p, mem_cons_self, by omega, by omega⟩
  have hbound : p.2 - 1 < 8192 := by
    have hreq := ((hexact.covers _).mp hlast).1
    simpa [Requested] using hreq
  have hend := (Prod.mk.inj hp).2
  unfold wordSub wordLimit at hend
  omega

end RtThread.Memblock
