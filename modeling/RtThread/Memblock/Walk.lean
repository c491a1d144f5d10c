import RtThread.Memblock.Regions

/-!
# The walk over memory and gaps

What the two cursors of `_next_free_region` have still to give is what the memory from one on holds outside
the reserved regions from the other on. Each call gives the first piece of it and moves a cursor.
-/

namespace RtThread.Memblock

open Lib List

variable {memory rest : List Reg} {m n : Reg} {mStart mEnd rStart a : ℕ}
variable {flags : ℕ} {r r' : Option Gap}

/-- The address is in a gap from a place on. -/
def GapFree : Option Gap → ℕ → Prop
  | none, _ => False
  | some (rStart, rest), a => rStart ≤ a ∧ ¬ Holds rest a

/-- The address is free memory from two places on. -/
def FreeAt (memory : List Reg) (r : Option Gap) (a : ℕ) : Prop := Holds memory a ∧ GapFree r a

/-- A place in a list that is in order. -/
def GapOk : Option Gap → Prop
  | none => True
  | some (rStart, rest) => Sorted rest ∧ (∀ r ∈ rest, rStart ≤ r.start) ∧ ∀ r ∈ rest, r.finish ≤ physAddrMax

/-- The gaps from a place on. -/
def gapCount : Option Gap → ℕ
  | none => 0
  | some (_, rest) => rest.length + 1

/-- Behind or in front of a gap, the places before and after it agree. -/
theorem gapFree_next (hle : rStart ≤ n.start) (hn : n.start < n.finish) (ha : a < rStart ∨ n.start ≤ a) :
    GapFree (some (rStart, n :: rest)) a ↔ GapFree (some (n.finish, rest)) a := by
  simp only [GapFree, covers_cons]
  by_cases hrest : Covers Reg.start Reg.finish rest a
  · simp [hrest]
  · simp only [hrest, or_false, not_false_eq_true, and_true]
    omega

/-- The place behind a gap. -/
theorem GapOk.next (h : GapOk (some (rStart, n :: rest))) :
    rStart ≤ n.start ∧ n.start < n.finish ∧ n.finish ≤ physAddrMax ∧ GapOk (some (n.finish, rest)) := by
  obtain ⟨hsorted, hle, hmax⟩ := h
  obtain ⟨hn, hbehind, hrest⟩ := ascending_cons.mp hsorted
  exact ⟨hle n mem_cons_self, hn, hmax n mem_cons_self, hrest, hbehind,
    fun r hr => hmax r (mem_cons_of_mem _ hr)⟩

/-- The gap ends below the highest address and in front of all regions behind it. -/
theorem GapOk.gapEnd_le (h : GapOk (some (rStart, rest))) :
    gapEnd rest ≤ physAddrMax ∧ ∀ r ∈ rest, gapEnd rest ≤ r.start := by
  cases rest with
  | nil => exact ⟨le_rfl, by simp⟩
  | cons n rest =>
    obtain ⟨-, hn, hmax, -, hbehind, -⟩ := h.next
    exact ⟨hn.le.trans hmax, forall_mem_cons.mpr ⟨le_rfl, fun r hr => hn.le.trans (hbehind r hr)⟩⟩

/-- The scan stopped without a free region: the memory region has none, and nothing behind it is lost. -/
structure ScanNone (mStart mEnd : ℕ) (r r' : Option Gap) : Prop where
  none_free : ∀ a, mStart ≤ a → a < mEnd → ¬ GapFree r a
  after : ∀ a, mEnd ≤ a → a < physAddrMax → (GapFree r' a ↔ GapFree r a)
  ok : GapOk r'
  count : gapCount r' ≤ gapCount r

/-- The scan found a free region: it is the first one of the memory region, and nothing behind is lost. -/
structure ScanFound (mStart mEnd : ℕ) (r r' : Option Gap) (region : ℕ × ℕ) (last : Bool) : Prop where
  proper : region.1 < region.2
  low : mStart ≤ region.1
  high : region.2 ≤ mEnd
  before : ∀ a, mStart ≤ a → a < region.1 → ¬ GapFree r a
  free : ∀ a, region.1 ≤ a → a < region.2 → GapFree r a
  after : ∀ a, region.2 ≤ a → a < physAddrMax → (GapFree r' a ↔ GapFree r a)
  ok : GapOk r'
  moved : last = true ∧ region.2 = mEnd ∧ gapCount r' ≤ gapCount r ∨
    last = false ∧ gapCount r' < gapCount r ∧ ∀ a, GapFree r' a → region.2 ≤ a

/-- A scan that goes on at the next place. -/
theorem ScanNone.of_next {r'' : Option Gap} (h : ScanNone mStart mEnd r' r'')
    (heq : ∀ a, mStart ≤ a → (GapFree r a ↔ GapFree r' a)) (hlt : mStart < mEnd)
    (hcount : gapCount r' ≤ gapCount r) : ScanNone mStart mEnd r r'' := by
  refine ⟨fun a hlow hhigh => ?_, fun a hlow hmax => ?_, h.ok, h.count.trans hcount⟩
  · rw [heq a hlow]
    exact h.none_free a hlow hhigh
  · rw [h.after a hlow hmax, heq a (by omega)]

/-- A scan that goes on at the next place. -/
theorem ScanFound.of_next {r'' : Option Gap} {region : ℕ × ℕ} {last : Bool}
    (h : ScanFound mStart mEnd r' r'' region last) (heq : ∀ a, mStart ≤ a → (GapFree r a ↔ GapFree r' a))
    (hcount : gapCount r' ≤ gapCount r) : ScanFound mStart mEnd r r'' region last := by
  have hlow := h.low
  have hproper := h.proper
  refine ⟨hproper, hlow, h.high, fun a hge hlt => ?_, fun a hge hlt => ?_, fun a hge hmax => ?_, h.ok, ?_⟩
  · rw [heq a hge]
    exact h.before a hge hlt
  · rw [heq a (by omega)]
    exact h.free a hge hlt
  · rw [h.after a hge hmax, heq a (by omega)]
  · rcases h.moved with ⟨hlast, hend, hle⟩ | ⟨hlast, hless, hfrom⟩
    · exact .inl ⟨hlast, hend, hle.trans hcount⟩
    · exact .inr ⟨hlast, hless.trans_le hcount, hfrom⟩

/-- The scan stops in front of a gap behind the memory region. -/
theorem scanNone_of_le (hok : GapOk (some (rStart, rest))) (hle : mEnd ≤ rStart) :
    ScanNone mStart mEnd (some (rStart, rest)) (some (rStart, rest)) :=
  ⟨fun _ _ hhigh hfree => absurd hfree.1 (by omega), fun _ _ _ => Iff.rfl, hok, le_rfl⟩

/-- The scan finds the part of the gap in the memory region. -/
theorem scanFound_of_lt (hlt : mStart < mEnd) (hmax : mEnd ≤ physAddrMax) (hok : GapOk (some (rStart, rest)))
    (hne : rStart ≠ gapEnd rest) (hstart : rStart < mEnd) (hend : mStart < gapEnd rest) :
    ScanFound mStart mEnd (some (rStart, rest))
      (if mEnd ≤ gapEnd rest then some (rStart, rest) else nextGap rest)
      (max mStart rStart, min mEnd (gapEnd rest)) (mEnd ≤ gapEnd rest) := by
  have hle : rStart < gapEnd rest := by
    cases rest with
    | nil =>
      rw [gapEnd] at hend ⊢
      omega
    | cons n rest =>
      have hn := hok.next.1
      rw [gapEnd] at hne ⊢
      omega
  -- below the end of the gap nothing is reserved
  have hgap : ∀ a, a < gapEnd rest → ¬ Holds rest a := by
    rintro a ha ⟨r, hr, hlow, -⟩
    have hge := hok.gapEnd_le.2 r hr
    omega
  have hbefore : ∀ a, mStart ≤ a → a < max mStart rStart → ¬ GapFree (some (rStart, rest)) a :=
    fun a _ _ hfree => absurd hfree.1 (by omega)
  have hfree : ∀ a, max mStart rStart ≤ a → a < min mEnd (gapEnd rest) → GapFree (some (rStart, rest)) a :=
    fun a _ _ => ⟨by omega, hgap a (by omega)⟩
  by_cases hcase : mEnd ≤ gapEnd rest
  · rw [if_pos hcase, decide_eq_true hcase]
    exact ⟨by omega, by omega, by omega, hbefore, hfree, fun _ _ _ => Iff.rfl, hok,
      .inl ⟨rfl, by omega, le_rfl⟩⟩
  · cases rest with
    | nil => exact absurd hmax hcase
    | cons n rest =>
      obtain ⟨hn, hn', -, hnext⟩ := hok.next
      rw [if_neg hcase, decide_eq_false hcase]
      refine ⟨by omega, by omega, by omega, hbefore, hfree, fun a hlow _ => ?_, hnext,
        .inr ⟨rfl, by simp [nextGap, gapCount], fun a hfrom => ?_⟩⟩ <;> rw [gapEnd] at *
      · exact (gapFree_next hn hn' (.inr (by omega))).symm
      · have hge := hfrom.1
        omega

/-- The scan of a memory region. -/
theorem scanReserved_spec {found : Option ((ℕ × ℕ) × Bool)} (hlt : mStart < mEnd)
    (hmax : mEnd ≤ physAddrMax) (hok : GapOk (some (rStart, rest)))
    (hscan : scanReserved mStart mEnd rStart rest = (found, r')) : match found with
    | none => ScanNone mStart mEnd (some (rStart, rest)) r'
    | some (region, last) => ScanFound mStart mEnd (some (rStart, rest)) r' region last := by
  fun_induction scanReserved mStart mEnd rStart rest with
  | case1 rest rStart _ hstop =>
    rw [scanReserved.eq_def, if_pos hstop] at hscan
    cases hscan
    exact scanNone_of_le hok hstop.2
  | case2 rest rStart _ hbreak hhit =>
    rw [scanReserved.eq_def, if_neg hbreak, if_pos hhit] at hscan
    cases hscan
    exact scanFound_of_lt hlt hmax hok hhit.1 (by omega) hhit.2
  | case3 rStart rEnd hbreak hmiss =>
    rw [scanReserved, if_neg hbreak, if_neg hmiss] at hscan
    cases hscan
    have hstart : rStart = physAddrMax := by
      rw [show rEnd = physAddrMax from rfl] at hbreak hmiss
      omega
    refine ⟨fun a _ hhigh hfree => ?_, fun a _ hbelow => ?_, trivial, Nat.zero_le _⟩
    · have hge := hfree.1
      omega
    · refine iff_of_false id fun hfree => ?_
      have hge := hfree.1
      omega
  | case4 rStart n rest rEnd hbreak hmiss ih =>
    rw [scanReserved, if_neg hbreak, if_neg hmiss] at hscan
    obtain ⟨hn, hn', -, hnext⟩ := hok.next
    have hskip : ∀ a, mStart ≤ a →
        (GapFree (some (rStart, n :: rest)) a ↔ GapFree (some (n.finish, rest)) a) := by
      intro a ha
      refine gapFree_next hn hn' ?_
      rw [show rEnd = n.start from rfl] at hbreak hmiss
      omega
    have hcount : gapCount (some (n.finish, rest)) ≤ gapCount (some (rStart, n :: rest)) := by
      simp [gapCount]
    have hspec := ih hnext hscan
    cases found with
    | none => exact ScanNone.of_next hspec hskip hlt hcount
    | some result => exact ScanFound.of_next hspec hskip hcount

/-- A memory list in order, of normal regions below the highest address. -/
structure MemoryOk (flags : ℕ) (memory : List Reg) : Prop where
  sorted : Sorted memory
  flags_eq : ∀ m ∈ memory, m.flags = flags
  finish_le : ∀ m ∈ memory, m.finish ≤ physAddrMax

/-- The list behind the first region. -/
theorem MemoryOk.tail (h : MemoryOk flags (m :: memory)) : MemoryOk flags memory :=
  ⟨(ascending_cons.mp h.sorted).2.2, fun x hx => h.flags_eq x (mem_cons_of_mem _ hx),
    fun x hx => h.finish_le x (mem_cons_of_mem _ hx)⟩

/-- An address of the list is below the highest one. -/
theorem MemoryOk.lt_of_holds (h : MemoryOk flags memory) (ha : Holds memory a) : a < physAddrMax := by
  obtain ⟨x, hx, -, hlt⟩ := ha
  exact hlt.trans_le (h.finish_le x hx)

/-- What a call of `_next_free_region` leaves: the first free region is given, and the rest stays. -/
structure Gives (flags : ℕ) (memory memory' : List Reg) (r r' : Option Gap) (region : ℕ × ℕ) : Prop where
  proper : region.1 < region.2
  free_iff : ∀ a, FreeAt memory r a ↔ region.1 ≤ a ∧ a < region.2 ∨ FreeAt memory' r' a
  behind : ∀ a, FreeAt memory' r' a → region.2 ≤ a
  memoryOk : MemoryOk flags memory'
  gapOk : GapOk r'
  moved : memory'.length + gapCount r' < memory.length + gapCount r
  length_le : memory'.length ≤ memory.length

/-- A memory region without free addresses is passed. -/
theorem freeAt_of_scanNone (hmemory : MemoryOk flags (m :: memory))
    (h : ScanNone m.start m.finish r r') : FreeAt (m :: memory) r a ↔ FreeAt memory r' a := by
  have hafter : Holds memory a → (GapFree r' a ↔ GapFree r a) := fun hin =>
    h.after a (hmemory.sorted.le_of_covers hin) (hmemory.tail.lt_of_holds hin)
  unfold FreeAt
  rw [and_congr_right hafter, Holds, covers_cons, or_and_right]
  exact or_iff_right fun hin => h.none_free a hin.1.1 hin.1.2 hin.2

/-- A free region of the first memory region is given. -/
theorem gives_of_scanFound {region : ℕ × ℕ} {last : Bool}
    (hmemory : MemoryOk flags (m :: memory)) (h : ScanFound m.start m.finish r r' region last) :
    Gives flags (m :: memory) (if last then memory else m :: memory) r r' region := by
  have hproper := h.proper
  have hlow := h.low
  have hhigh := h.high
  have hfrom : ∀ {x}, Holds memory x → m.finish ≤ x ∧ x < physAddrMax := fun hx =>
    ⟨hmemory.sorted.le_of_covers hx, hmemory.tail.lt_of_holds hx⟩
  have hfree : ∀ a, FreeAt (m :: memory) r a ↔
      region.1 ≤ a ∧ a < region.2 ∨ FreeAt (m :: memory) r' a ∧ region.2 ≤ a := by
    intro a
    constructor
    · rintro ⟨hin, hfree⟩
      by_cases hafter : region.2 ≤ a
      · exact .inr ⟨⟨hin, (h.after a hafter (hmemory.lt_of_holds hin)).mpr hfree⟩, hafter⟩
      · rcases covers_cons.mp hin with hin | hin
        · by_cases hbefore : a < region.1
          · exact absurd hfree (h.before a hin.1 hbefore)
          · exact .inl ⟨by omega, by omega⟩
        · have hge := (hfrom hin).1
          omega
    · rintro (hin | ⟨⟨hin, hfree⟩, hafter⟩)
      · exact ⟨covers_cons.mpr (.inl ⟨by omega, by omega⟩), h.free a hin.1 hin.2⟩
      · exact ⟨hin, (h.after a hafter (hmemory.lt_of_holds hin)).mp hfree⟩
  obtain ⟨rfl, hend, hcount⟩ | ⟨rfl, hcount, hbehind⟩ := h.moved
  · refine ⟨hproper, fun a => (hfree a).trans (or_congr_right ?_), fun a hfree => ?_, hmemory.tail, h.ok, ?_,
      by simp⟩
    · simp only [FreeAt, covers_cons]
      constructor
      · rintro ⟨⟨hin | hin, hgap⟩, hafter⟩
        · omega
        · exact ⟨hin, hgap⟩
      · rintro ⟨hin, hgap⟩
        exact ⟨⟨.inr hin, hgap⟩, hend ▸ (hfrom hin).1⟩
    · have hge := (hfrom hfree.1).1
      omega
    · simp only [if_true, length_cons]
      omega
  · refine ⟨hproper, fun a => (hfree a).trans (or_congr_right ?_), fun a hfree => hbehind a hfree.2, hmemory,
      h.ok, by simpa using hcount, le_rfl⟩
    exact and_iff_left_of_imp fun hgap => hbehind a hgap.2

/-- `_next_free_region` ends when nothing is free, and else gives the first free region. -/
theorem nextFreeRegion_spec (hmemory : MemoryOk flags memory) (hok : GapOk r) :
    match nextFreeRegion flags memory r with
    | none => ∀ a, ¬ FreeAt memory r a
    | some (region, memory', r') => Gives flags memory memory' r r' region := by
  induction memory generalizing r with
  | nil => exact fun a hfree => not_covers_nil hfree.1
  | cons m memory ih =>
    have hm := hmemory.flags_eq m mem_cons_self
    obtain ⟨hproper, -, -⟩ := ascending_cons.mp hmemory.sorted
    have hmax := hmemory.finish_le m mem_cons_self
    -- what the walk gives from the next region on, where this one has nothing
    have hnext : ∀ {r' : Option Gap}, ScanNone m.start m.finish r r' →
        match nextFreeRegion flags memory r' with
        | none => ∀ a, ¬ FreeAt (m :: memory) r a
        | some (region, memory', r'') => Gives flags (m :: memory) memory' r r'' region := by
      intro r' hnone
      have hspec := ih hmemory.tail hnone.ok
      split at hspec
      · exact fun a hfree => hspec a ((freeAt_of_scanNone hmemory hnone).mp hfree)
      · obtain ⟨hp, hiff, hbehind, hmok, hgok, hmoved, hlength⟩ := hspec
        have hcount := hnone.count
        refine ⟨hp, fun a => (freeAt_of_scanNone hmemory hnone).trans (hiff a), hbehind, hmok, hgok, ?_, ?_⟩ <;>
          simp only [length_cons] <;> omega
    cases r with
    | none =>
      simp only [nextFreeRegion, hm, ne_eq, if_false]
      exact hnext ⟨fun _ _ _ => id, fun _ _ _ => Iff.rfl, trivial, le_rfl⟩
    | some gap =>
      obtain ⟨rStart, rest⟩ := gap
      simp only [nextFreeRegion, hm, ne_eq, if_false]
      generalize hscan : scanReserved m.start m.finish rStart rest = result
      obtain ⟨found, r'⟩ := result
      have hspec := scanReserved_spec hproper hmax hok hscan
      cases found with
      | none => exact hnext hspec
      | some result => exact gives_of_scanFound hmemory hspec

/-- `for_each_free_region` gives all that is free, in ascending pieces. -/
theorem freeRegions_spec {count fuel : ℕ} (hmemory : MemoryOk flags memory)
    (hok : GapOk r) (hcount : memory.length ≤ count) (hfuel : memory.length + gapCount r < fuel) :
    ∃ regions, freeRegions flags count fuel memory r = some regions ∧ Ascending Prod.fst Prod.snd regions ∧
      ∀ a, Covers Prod.fst Prod.snd regions a ↔ FreeAt memory r a := by
  induction fuel generalizing memory r with
  | zero => omega
  | succ fuel ih =>
    have hspec := nextFreeRegion_spec hmemory hok
    rw [freeRegions]
    cases hnext : nextFreeRegion flags memory r with
    | none =>
      rw [hnext] at hspec
      exact ⟨[], rfl, ascending_nil, fun a => iff_of_false not_covers_nil (hspec a)⟩
    | some result =>
      obtain ⟨region, memory', r'⟩ := result
      rw [hnext] at hspec
      have hmoved := hspec.moved
      have hlength := hspec.length_le
      dsimp only
      rw [if_neg (by omega)]
      obtain ⟨regions, hrun, hascending, hcovers⟩ := ih hspec.memoryOk hspec.gapOk (by omega) (by omega)
      refine ⟨region :: regions, by rw [hrun]; rfl, ascending_cons.mpr ⟨hspec.proper, fun p hp => ?_,
        hascending⟩, fun a => ?_⟩
      · have hp' : Covers Prod.fst Prod.snd regions p.1 := ⟨p, hp, le_rfl, hascending.proper p hp⟩
        exact hspec.behind _ ((hcovers _).mp hp')
      · rw [covers_cons, hcovers, ← hspec.free_iff]

end RtThread.Memblock
