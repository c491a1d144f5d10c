import RtThread.Aspace.Install
import RtThread.Lib.Transition

/-!
# The runs of an address space

Every sequence of mappings and unmappings on an address space that starts empty. Its vareas stay disjoint
in the runs whose every step is safe: a fixed mapping can unmap what is in its place, any other asks for no
alignment and has a window that no varea straddles from below, and the address space ends a page before
`2 ^ 64` and has fewer than `2 ^ 63` bytes.
-/

namespace RtThread.Aspace

open Lib
open Option (bind_eq_some_iff map_eq_some_iff pure_def)

variable {s s' : Space} {env : Env}
variable {addr attr flags fuel length m offset va : ℕ} {err : Err} {hint : Hint}

/-- The calls on an address space. -/
inductive Call where
  | map (addr length attr flags m offset : ℕ)
  | mapStatic (n addr length attr flags m offset : ℕ)
  | mapPhy (hint : Hint) (attr paOff : ℕ)
  | unmap (addr : ℕ)
  | unmapRange (addr length : ℕ)

/-- The state after a call that returns within `fuel` rounds of each loop. A static mapping is given a
record that is not in use. -/
def exec (env : Env) (s : Space) (fuel : ℕ) : Call → Option Space
  | .map addr length attr flags m offset =>
    (rtAspaceMap env fuel s addr length attr flags m offset).map Prod.fst
  | .mapStatic n addr length attr flags m offset =>
    if ∀ v ∈ s.vareas, v.ref ≠ .given n then
      (rtAspaceMapStatic env fuel s n addr length attr flags m offset).map Prod.fst
    else none
  | .mapPhy hint attr paOff => (rtAspaceMapPhy env fuel s hint attr paOff).map Prod.fst
  | .unmap addr => some (rtAspaceUnmap env s addr).1
  | .unmapRange addr length => (rtAspaceUnmapRange env fuel s addr length).map Prod.fst

/-- The runs of an address space: it starts empty and inside the words. -/
def system (env : Env) : TransitionSystem Space (ℕ × Call) :=
  .ofNext (fun s => s.tree = .nil ∧ s.start + s.size ≤ 2 ^ 64) fun s e => exec env s e.1 e.2

/-- A list of some of the vareas. -/
theorem Trimmed.of_sublist (h : Laid s) (hsame : SameSpace s s') (hsub : s'.vareas.Sublist s.vareas) :
    Trimmed s s' := by
  have hmem := hsub.subset
  refine ⟨hsame, ⟨⟨h.ordered.disjoint.sublist hsub, fun v hv => ?_⟩, h.refs.sublist (hsub.map _),
    fun v hv n hn => ?_, ?_⟩, fun w hw => .inl ⟨w, hmem hw, rfl⟩, fun hpos w hw => hpos w (hmem hw)⟩
  · rw [hsame.start_eq, hsame.size_eq]
    exact h.ordered.bounds v (hmem hv)
  · exact (h.created v (hmem hv) n hn).trans_le hsame.created_le
  · rw [hsame.start_eq, hsame.size_eq]
    exact h.space_le

/-- Removing a record keeps the address space well formed. -/
theorem WellFormed.bstRemove (h : WellFormed s) (env : Env) (ref : VareaRef) :
    WellFormed (s.bstRemove env ref) := by
  refine h.of_trimmed (.of_sublist h.toLaid ⟨rfl, rfl, le_rfl⟩ ?_)
  unfold Space.vareas Space.bstRemove
  rw [env.inorder_rebalance, SearchTree.inorder_remove]
  exact List.filter_sublist

/-- Prefetching pages changes no varea. -/
theorem prefetchLoop_vareas {varea : Varea} {finish vaddr : ℕ}
    (hrun : prefetchLoop env varea finish fuel s vaddr = some (s', err)) :
    s'.vareas = s.vareas ∧ SameSpace s s' := by
  induction fuel generalizing s vaddr with
  | zero => cases hrun
  | succ fuel ih =>
    have hask : SameSpace s s.ask := ⟨rfl, rfl, le_rfl⟩
    rw [prefetchLoop] at hrun
    split at hrun
    · cases hrun
      exact ⟨rfl, SameSpace.refl _⟩
    · split at hrun
      · cases hrun
        exact ⟨rfl, hask⟩
      · cases hrun
        exact ⟨rfl, hask⟩
      · split at hrun
        · cases hrun
          exact ⟨rfl, hask⟩
        · obtain ⟨hvareas, hsame⟩ := ih hrun
          exact ⟨hvareas, hask.trans hsame⟩

/-- What `_mm_aspace_map` does after the installation: nothing, or a prefetch that removes the record when it
fails. -/
theorem mmAspaceMap_cases {addr' : ℕ} {pvarea pvarea' : Option VareaRef}
    (hrun : mmAspaceMap env fuel s pvarea addr length attr flags m offset =
      some (s', pvarea', addr', err)) :
    ∃ t p e, vareaInstall env fuel s pvarea (mapHint env s addr length flags m)
        ⟨attr, flags, offset, some m⟩ addr = some (t, p, addr', e) ∧
      (e = err ∧ s' = t ∨ e = .eok ∧ flags.testBit mmfPrefetch = true ∧
        ∃ ref t', p = some ref ∧ t'.vareas = t.vareas ∧ SameSpace t t' ∧
          (err = .eok ∧ s' = t' ∨ err ≠ .eok ∧ s' = t'.bstRemove env ref)) := by
  obtain ⟨⟨t, p, a, e⟩, hinstall, hrest⟩ := bind_eq_some_iff.mp hrun
  dsimp only at hrest
  split at hrest
  next hprefetch =>
    obtain ⟨rfl, hflag⟩ := hprefetch
    obtain ⟨ref, hp, hrest⟩ := bind_eq_some_iff.mp hrest
    obtain ⟨varea, -, hrest⟩ := bind_eq_some_iff.mp hrest
    obtain ⟨⟨t', e'⟩, hloop, hrest⟩ := bind_eq_some_iff.mp hrest
    obtain ⟨hvareas, hsame⟩ := prefetchLoop_vareas hloop
    split at hrest
    next hok =>
      obtain ⟨rfl, -, rfl, rfl⟩ := hrest
      exact ⟨t, _, _, hinstall, .inr ⟨rfl, hflag, ref, t', hp, hvareas, hsame, .inl ⟨hok, rfl⟩⟩⟩
    next hfail =>
      obtain ⟨rfl, -, rfl, rfl⟩ := hrest
      exact ⟨t, _, _, hinstall, .inr ⟨rfl, hflag, ref, t', hp, hvareas, hsame, .inr ⟨hfail, rfl⟩⟩⟩
  · simp only [pure_def, Option.some.injEq, Prod.mk.injEq] at hrest
    obtain ⟨rfl, rfl, rfl, rfl⟩ := hrest
    exact ⟨t, p, e, hinstall, .inl ⟨rfl, rfl⟩⟩

/-- `rt_aspace_map` refuses a request, or maps it. -/
theorem rtAspaceMap_cases
    (hrun : rtAspaceMap env fuel s addr length attr flags m offset = some (s', va, err)) :
    (length = 0 ∨ notInRange addr length s.start s.size = true ∨ notSupport flags = true) ∧
        err ≠ .eok ∧ s' = s ∨
      0 < length ∧ notInRange addr length s.start s.size = false ∧ notSupport flags = false ∧
        length % archPageSize = 0 ∧ ∃ p addr', mmAspaceMap env fuel s none addr length attr flags m offset =
          some (s', p, addr', err) ∧ (err = .eok → va = addr') := by
  unfold rtAspaceMap at hrun
  split at hrun
  next hlength =>
    cases hrun
    exact .inl ⟨.inl hlength, by decide, rfl⟩
  next hlength =>
    split at hrun
    next hrange =>
      cases hrun
      exact .inl ⟨.inr (.inl hrange), by decide, rfl⟩
    next hrange =>
      split at hrun
      next hflags =>
        cases hrun
        exact .inl ⟨.inr (.inr hflags), by decide, rfl⟩
      next hflags =>
        obtain ⟨checked, hpages, hrest⟩ := bind_eq_some_iff.mp hrun
        obtain ⟨-, -, hrest⟩ := bind_eq_some_iff.mp hrest
        obtain ⟨⟨t, p, a, e⟩, hmap, hreturn⟩ := bind_eq_some_iff.mp hrest
        obtain ⟨rfl, rfl, rfl⟩ := hreturn
        have hwhole : length % archPageSize = 0 := by
          by_contra hne
          simp [hne] at hpages
        exact .inr ⟨Nat.pos_of_ne_zero hlength, by simpa using hrange, by simpa using hflags, hwhole, p, a,
          hmap, fun h => if_pos h⟩

/-- `_mm_aspace_map` on a safe place keeps the address space well formed. -/
theorem WellFormed.mmAspaceMap {addr' : ℕ}
    {pvarea pvarea' : Option VareaRef} (h : WellFormed s) (hend : s.start + s.size < 2 ^ 64)
    (hhalf : s.size < 2 ^ 63) (hsafe : (mapHint env s addr length flags m).Safe env fuel s)
    (hfresh : ∀ ref, pvarea = some ref → Fresh s ref)
    (hrun : mmAspaceMap env fuel s pvarea addr length attr flags m offset =
      some (s', pvarea', addr', err)) : WellFormed s' := by
  obtain ⟨t, p, e, hinstall, hcases⟩ := mmAspaceMap_cases hrun
  have ht := h.install hend hhalf hsafe hfresh hinstall
  rcases hcases with ⟨-, rfl⟩ | ⟨-, -, ref, t', -, hvareas, hsame, ⟨-, rfl⟩ | ⟨-, rfl⟩⟩
  · exact ht
  · exact ht.of_vareas_eq hsame hvareas
  · exact (ht.of_vareas_eq hsame hvareas).bstRemove env ref

/-- An address space that starts above the null address, ends a page before `2 ^ 64` and has fewer than
`2 ^ 63` bytes. -/
structure Bounded (s : Space) : Prop where
  start_pos : 0 < s.start
  end_le : s.start + s.size + archPageSize ≤ 2 ^ 64
  size_lt : s.size < 2 ^ 63

/-- A bounded address space ends before `2 ^ 64`. -/
theorem Bounded.end_lt (h : Bounded s) : s.start + s.size < 2 ^ 64 := by
  have hle := h.end_le
  unfold archPageSize at hle
  omega

/-- The preferred range and the window of a hint end inside the address space. -/
structure Hint.Inside (hint : Hint) (s : Space) : Prop where
  prefer : hint.prefer = 0 ∨ s.start ≤ hint.prefer ∧ hint.prefer + hint.mapSize ≤ s.start + s.size
  limit_pos : 0 < hint.limitRangeSize
  limit_high : hint.limitStart + hint.limitRangeSize ≤ s.start + s.size

/-- The window of a hint starts inside the address space, not within a varea, and not above the
preferred address. -/
structure Hint.WindowFree (hint : Hint) (s : Space) : Prop where
  limit_low : s.start ≤ hint.limitStart
  window : ∀ v ∈ s.vareas, ¬ (v.start < hint.limitStart ∧ hint.limitStart < v.finish)
  prefer : hint.prefer = 0 ∨ hint.limitStart ≤ hint.prefer

/-- A fixed mapping can unmap what is in its place, any other asks for no alignment. -/
structure Hint.Chosen (hint : Hint) (env : Env) (fuel : ℕ) (s : Space) : Prop where
  unmapped : hint.flags.testBit mmfMapFixed = true → ∀ s' err,
    unmapRangeLocked env hint.prefer hint.mapSize fuel s = some (s', err) → err = .eok
  unaligned : hint.flags.testBit mmfMapFixed = false → hint.flags.testBit mmfRequestAlign = false

/-- What a call of `rt_aspace_map` or `rt_aspace_map_static` needs of its hint. A hint that the object
changed is not checked again. -/
structure MapSafe (env : Env) (fuel : ℕ) (s : Space) (addr length flags m : ℕ) : Prop where
  word : addr < 2 ^ 64
  chosen : (mapHint env s addr length flags m).Chosen env fuel s
  inside : (env.object m).hintFree.isSome → (mapHint env s addr length flags m).Inside s
  window : (env.object m).hintFree.isSome →
    (mapHint env s addr length flags m).flags.testBit mmfMapFixed = false →
    (mapHint env s addr length flags m).WindowFree s

/-- What a call needs for the vareas to stay disjoint. -/
def CallSafe (env : Env) (s : Space) (fuel : ℕ) : Call → Prop
  | .map addr length _ flags m _ => MapSafe env fuel s addr length flags m
  | .mapStatic _ addr length _ flags m _ =>
    MapSafe env fuel s addr length (flags ||| 2 ^ mmfStaticAlloc) m
  | .mapPhy hint _ _ =>
    hint.prefer < 2 ^ 64 ∧ hint.limitStart < 2 ^ 64 ∧
    Hint.Chosen { hint with flags := hint.flags &&& wordNot (2 ^ mmfStaticAlloc) } env fuel
        (vareaCreate s env).1 ∧
      ((hint.flags &&& wordNot (2 ^ mmfStaticAlloc)).testBit mmfMapFixed = false → hint.WindowFree s)
  | .unmap _ => True
  | .unmapRange addr length => addr < 2 ^ 64 ∧ 0 < addr + length

/-- A step in a bounded address space whose call is safe. -/
def StepSafe (env : Env) (s : Space) (e : ℕ × Call) : Prop := Bounded s ∧ CallSafe env s e.1 e.2

/-- A range that is accepted ends inside the address space. -/
theorem Bounded.inside_of_notInRange {start : ℕ} (hbound : Bounded s) (hword : start < 2 ^ 64)
    (h : notInRange start length s.start s.size = false) :
    (start = 0 ∨ s.start ≤ start ∧ start + length ≤ s.start + s.size) ∧ length ≤ s.size := by
  obtain ⟨hpos, hend, hhalf⟩ := hbound
  unfold notInRange at h
  split at h
  next hne =>
    simp only [decide_eq_false_iff_not, not_or] at h
    unfold wordSub wordAdd wordLimit at *
    omega
  next hzero =>
    simp only [decide_eq_false_iff_not] at h
    omega

/-- A hint that ends inside and is well chosen is safe. -/
theorem Hint.safe_of (hpos : 0 < hint.mapSize) (hle : hint.mapSize ≤ s.size)
    (hinside : hint.Inside s) (hchosen : hint.Chosen env fuel s)
    (hwindow : hint.flags.testBit mmfMapFixed = false → hint.WindowFree s) : hint.Safe env fuel s := by
  refine ⟨hpos, hle, fun hfixed => ⟨hinside.prefer, hchosen.unmapped hfixed⟩, fun hfixed => ?_⟩
  obtain ⟨hlow, hfree, hprefer⟩ := hwindow hfixed
  refine ⟨hchosen.unaligned hfixed, hlow, hinside.limit_pos, hinside.limit_high, hfree, ?_⟩
  rcases hprefer with hzero | hge
  · exact .inl hzero
  · rcases hinside.prefer with hzero | ⟨-, hhigh⟩
    · exact .inl hzero
    · exact .inr ⟨hge, hhigh⟩

/-- The object does not change the size of a mapping. -/
theorem mapHint_mapSize : (mapHint env s addr length flags m).mapSize = length := by
  unfold mapHint
  split <;> rfl

/-- The hint of an accepted call that is safe. -/
theorem MapSafe.hint_safe (hwf : WellFormed s) (hbound : Bounded s)
    (hpos : 0 < length) (hrange : notInRange addr length s.start s.size = false)
    (h : MapSafe env fuel s addr length flags m) :
    (mapHint env s addr length flags m).Safe env fuel s := by
  obtain ⟨haddr, hle⟩ := hbound.inside_of_notInRange h.word hrange
  have hsize : (mapHint env s addr length flags m).mapSize = length := mapHint_mapSize
  refine Hint.safe_of (hpos.trans_eq hsize.symm) (hsize.trans_le hle) ?_ h.chosen ?_
  · by_cases hsome : (env.object m).hintFree.isSome
    · exact h.inside hsome
    · have hnone : (env.object m).hintFree = none := by simpa using hsome
      rw [mapHint, hnone]
      exact ⟨haddr, by dsimp only; omega, le_rfl⟩
  · by_cases hsome : (env.object m).hintFree.isSome
    · exact h.window hsome
    · have hnone : (env.object m).hintFree = none := by simpa using hsome
      intro _
      rw [mapHint, hnone]
      refine ⟨le_rfl, fun v hv hbelow => ?_, haddr.imp_right And.left⟩
      have hlow := (hwf.ordered.bounds v hv).1
      exact absurd hbelow.1 (by dsimp only; omega)

/-- `_mm_aspace_map_phy` with a safe hint keeps the address space well formed. -/
theorem WellFormed.mmAspaceMapPhy {paOff : ℕ} {ref : VareaRef}
    (h : WellFormed s) (hbound : Bounded s) (hfresh : Fresh s ref) (hprefer : hint.prefer < 2 ^ 64)
    (hlimit : hint.limitStart < 2 ^ 64) (hchosen : hint.Chosen env fuel s)
    (hwindow : hint.flags.testBit mmfMapFixed = false → hint.WindowFree s)
    (hrun : mmAspaceMapPhy env fuel s ref hint attr paOff = some (s', va, err)) : WellFormed s' := by
  unfold Aspace.mmAspaceMapPhy at hrun
  split at hrun
  · cases hrun
    exact h
  next hsizes =>
    obtain ⟨hlimitSize, hmapSize⟩ := not_or.mp hsizes
    split at hrun
    · cases hrun
      exact h
    · split at hrun
      · cases hrun
        exact h
      next hranges =>
        obtain ⟨hlimitRange, hpreferRange⟩ := not_or.mp hranges
        obtain ⟨hlimitInside, hlimitLe⟩ := hbound.inside_of_notInRange hlimit (by simpa using hlimitRange)
        obtain ⟨hpreferInside, hmapLe⟩ := hbound.inside_of_notInRange hprefer (by simpa using hpreferRange)
        obtain ⟨⟨t, p, a, e⟩, hinstall, hrest⟩ := bind_eq_some_iff.mp hrun
        have hhint := Hint.safe_of (Nat.pos_of_ne_zero hmapSize) hmapLe
          ⟨hpreferInside, Nat.pos_of_ne_zero hlimitSize, by omega⟩ hchosen hwindow
        have ht := h.install hbound.end_lt hbound.size_lt hhint
          (fun ref' href => Option.some.inj href ▸ hfresh) hinstall
        dsimp only at hrest
        split at hrest
        · obtain ⟨varea, -, hrest⟩ := bind_eq_some_iff.mp hrest
          have hasked : WellFormed t.ask := ht.of_vareas_eq ⟨rfl, rfl, le_rfl⟩ rfl
          split at hrest
          · cases hrest
            exact hasked
          · cases hrest
            exact hasked.bstRemove env _
        · cases hrest
          exact ht

/-- `rt_aspace_map_phy` with a safe hint keeps the address space well formed. -/
theorem WellFormed.mapPhy {paOff : ℕ} (h : WellFormed s)
    (hbound : Bounded s) (hprefer : hint.prefer < 2 ^ 64) (hlimit : hint.limitStart < 2 ^ 64)
    (hchosen : Hint.Chosen { hint with flags := hint.flags &&& wordNot (2 ^ mmfStaticAlloc) } env fuel
      (vareaCreate s env).1)
    (hwindow : (hint.flags &&& wordNot (2 ^ mmfStaticAlloc)).testBit mmfMapFixed = false →
      hint.WindowFree s)
    (hrun : rtAspaceMapPhy env fuel s hint attr paOff = some (s', va, err)) : WellFormed s' := by
  unfold rtAspaceMapPhy at hrun
  unfold vareaCreate at hrun hchosen
  split at hrun
  next t ref hcreate =>
    split at hcreate
    next hyes =>
      rw [if_pos hyes] at hchosen
      cases hcreate
      have ht : WellFormed { s.ask with created := s.created + 1 } :=
        h.of_vareas_eq ⟨rfl, rfl, Nat.le_succ _⟩ rfl
      have hfresh : Fresh { s.ask with created := s.created + 1 } (.created s.created) :=
        ⟨fun v hv href => (h.created v hv _ href).false, fun m hm => by cases hm; exact Nat.lt_succ_self _⟩
      refine ht.mmAspaceMapPhy ⟨hbound.1, hbound.2, hbound.3⟩ hfresh ?_ ?_ hchosen (fun hfixed => ?_) hrun
      · exact hprefer
      · exact hlimit
      · exact ⟨(hwindow hfixed).1, (hwindow hfixed).2, (hwindow hfixed).3⟩
    · cases hcreate
  next t hcreate =>
    split at hcreate
    · cases hcreate
    · cases hcreate
      cases hrun
      exact h.of_vareas_eq ⟨rfl, rfl, le_rfl⟩ rfl

/-- `rt_aspace_unmap_range` on more than the empty range at the null address keeps the address space well
formed. -/
theorem WellFormed.unmapRange (h : WellFormed s) (hbound : Bounded s)
    (hword : addr < 2 ^ 64) (hpos : 0 < addr + length)
    (hrun : rtAspaceUnmapRange env fuel s addr length = some (s', err)) : WellFormed s' := by
  unfold rtAspaceUnmapRange at hrun
  split at hrun
  · cases hrun
    exact h
  next hrange =>
    split at hrun
    · cases hrun
      exact h
    next haligned =>
      obtain ⟨hinside, hle⟩ := hbound.inside_of_notInRange hword (by simpa using hrange)
      have hend := hbound.end_le
      have hround : pageAlign length = (length + (archPageSize - 1)) / archPageSize * archPageSize := by
        rw [pageAlign, wordAdd_of_lt (by unfold archPageSize at *; omega)]
      have hlt : addr + pageAlign length < 2 ^ 64 ∧ 0 < addr + pageAlign length := by
        unfold archPageSize at *
        omega
      exact h.of_trimmed (h.toLaid.unmapRange hbound.end_lt hlt.1 hlt.2 hrun).1

/-- One safe step keeps the address space well formed. -/
theorem WellFormed.step {e : ℕ × Call} (h : WellFormed s) (hsafe : StepSafe env s e)
    (hrun : exec env s e.1 e.2 = some s') : WellFormed s' := by
  obtain ⟨fuel, call⟩ := e
  obtain ⟨hbound, hsafe⟩ := hsafe
  cases call with
  | map addr length attr flags m offset =>
    obtain ⟨⟨t, va, err⟩, hmap, rfl⟩ := map_eq_some_iff.mp hrun
    rcases rtAspaceMap_cases hmap with ⟨-, -, rfl⟩ | ⟨hpos, hrange, -, -, p, addr', hmm, -⟩
    · exact h
    · have hhint := hsafe.hint_safe h hbound hpos hrange
      exact h.mmAspaceMap hbound.end_lt hbound.size_lt hhint (fun ref hnone => by cases hnone) hmm
  | mapStatic n addr length attr flags m offset =>
    rw [exec] at hrun
    split at hrun
    swap
    · cases hrun
    rename_i hunused
    obtain ⟨⟨t, r⟩, hmap, rfl⟩ := map_eq_some_iff.mp hrun
    unfold rtAspaceMapStatic at hmap
    split at hmap
    · cases hmap
      exact h
    next hcheck =>
      obtain ⟨hlength, hrange⟩ := not_or.mp hcheck
      split at hmap
      · cases hmap
        exact h
      · obtain ⟨⟨t', p, a, err⟩, hmm, hreturn⟩ := bind_eq_some_iff.mp hmap
        obtain ⟨rfl, -⟩ := hreturn
        have hhint := MapSafe.hint_safe h hbound (Nat.pos_of_ne_zero hlength) (by simpa using hrange) hsafe
        refine h.mmAspaceMap hbound.end_lt hbound.size_lt hhint (fun ref href => ?_) hmm
        cases href
        exact ⟨hunused, fun m hm => by cases hm⟩
  | mapPhy hint attr paOff =>
    obtain ⟨⟨t, r⟩, hmap, rfl⟩ := map_eq_some_iff.mp hrun
    obtain ⟨hprefer, hlimit, hchosen, hwindow⟩ := hsafe
    exact h.mapPhy hbound hprefer hlimit hchosen hwindow hmap
  | unmap addr =>
    cases hrun
    unfold rtAspaceUnmap
    split
    · exact h
    · split
      · exact h
      · exact h.bstRemove env _
  | unmapRange addr length =>
    obtain ⟨⟨t, err⟩, hunmap, rfl⟩ := map_eq_some_iff.mp hrun
    exact h.unmapRange hbound hsafe.1 hsafe.2 hunmap

/-- An empty address space. -/
def emptySpace (start size : ℕ) : Space where
  start := start
  size := size
  tree := .nil
  created := 0
  asked := 0

/-- A call for an object that changes no hint is safe when the caller's hint is well chosen. -/
theorem MapSafe.of_unhinted (hnone : (env.object m).hintFree = none)
    (hword : addr < 2 ^ 64) (hchosen : Hint.Chosen ⟨s.start, s.size, addr, length, flags⟩ env fuel s) :
    MapSafe env fuel s addr length flags m := by
  refine ⟨hword, ?_, by simp [hnone], by simp [hnone]⟩
  rw [mapHint, hnone]
  exact hchosen

/-- Objects without callbacks, and a tree that is not rebalanced. -/
def refusing : Env := { agreeing with object := fun _ => ⟨none, false, false, false, false⟩ }

end RtThread.Aspace
