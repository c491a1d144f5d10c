import RtThread.Aspace.Absorb
import RtThread.Aspace.Runs

/-!
# The pages of an address space

What a mapping does to each page: its object, its offset there, its attributes and its flags. A successful
mapping leaves every page as it was exactly when the vareas it takes show the object at the displacement of
the request. A mapping that fails leaves every page as it was, unless it has already grown a neighbour when
its prefetch fails.
-/

namespace RtThread.Aspace

open Lib List Option Varea

variable {a offset va size : ℕ} {front back vareas vareas' : List Varea} {v w n : Varea} {s s' : Space}
  {env : Env} {prop : MapProp}

/-- What is mapped at a page. -/
structure Page where
  memObj : Option ℕ
  offset : ℕ
  attr : ℕ
  flag : ℕ

/-- What a varea maps at an address. -/
def Varea.page (v : Varea) (a : ℕ) : Page := ⟨v.memObj, v.pageOffset a, v.attr, v.flag⟩

/-- The address is in a varea that maps the page there. -/
def CoveredBy (vareas : List Varea) (a : ℕ) (page : Page) : Prop :=
  ∃ v ∈ vareas, v.start ≤ a ∧ a < v.finish ∧ v.page a = page

/-- The varea lies where a region from `va` at `offset` of the object would be continued. -/
def Varea.Displaced (v : Varea) (offset va : ℕ) : Prop :=
  (v.offset + va / archPageSize) % 2 ^ 64 = (offset + v.start / archPageSize) % 2 ^ 64

/-- Two vareas at the same displacement have the same offset at an address. -/
theorem Varea.Displaced.pageOffset_eq (hv : v.Displaced offset va) (hw : w.Displaced offset va)
    (hvstart : v.start % archPageSize = 0) (hwstart : w.start % archPageSize = 0) (hva : v.start ≤ a)
    (hwa : w.start ≤ a) : v.pageOffset a = w.pageOffset a := by
  unfold Varea.Displaced at hv hw
  unfold pageOffset wordAdd wordLimit
  unfold archPageSize at *
  omega

/-- Two matching vareas at the same displacement map the same page at an address. -/
theorem Varea.Matches.page_eq (hv : v.Matches prop) (hw : w.Matches prop)
    (hoffset : v.pageOffset a = w.pageOffset a) : v.page a = w.page a := by
  unfold page
  rw [hoffset, hv.attr_eq, hv.flag_eq, hv.memObj_eq, hw.attr_eq, hw.flag_eq, hw.memObj_eq]

/-- A varea that maps all pages of those whose place it takes. -/
theorem CoveredBy.splice {middle : List Varea} {page : Page}
    (hw : ∀ x ∈ middle, x.start ≤ a → a < x.finish → w.start ≤ a ∧ a < w.finish ∧ w.page a = x.page a)
    (h : CoveredBy (front ++ middle ++ back) a page) : CoveredBy (front ++ w :: back) a page := by
  obtain ⟨x, hx, hlow, hhigh, hpage⟩ := h
  simp only [mem_append] at hx
  rcases hx with (hx | hx) | hx
  · exact ⟨x, by simp [hx], hlow, hhigh, hpage⟩
  · obtain ⟨hwlow, hwhigh, hwpage⟩ := hw x hx hlow hhigh
    exact ⟨w, by simp, hwlow, hwhigh, hwpage.trans hpage⟩
  · exact ⟨x, by simp [hx], hlow, hhigh, hpage⟩

/-- At an address of the fused varea, no other varea maps a page. -/
theorem Fused.page_eq {taken : List Varea} {page : Page} (h : Fused s t prop taken w) (ht : WellFormed t)
    (hlow : w.start ≤ a) (hhigh : a < w.finish) (hcovered : CoveredBy t.vareas a page) : w.page a = page := by
  obtain ⟨front, back, -, hfused⟩ := h.split
  obtain ⟨v, hv, hvlow, hvhigh, hpage⟩ := hcovered
  rcases ht.ordered.apart hv (show w ∈ t.vareas by simp [hfused]) with rfl | hle | hle
  · exact hpage
  · omega
  · omega

/-- The fused varea maps every page as it was and the pages of the request, exactly when all that it took lies
at the displacement of the request. -/
theorem Fused.covered_iff {taken : List Varea} (h : Fused s t prop taken w) (hs : WellFormed s)
    (ht : WellFormed t) (haligned : ∀ v ∈ s.vareas, v.Aligned) (hlow : w.start ≤ va)
    (hhigh : va + size ≤ w.finish) (hsize : 0 < size) (hpages : size % archPageSize = 0)
    (hva : va % archPageSize = 0) : ((∀ i < size / archPageSize, CoveredBy t.vareas (va + i * archPageSize)
        ⟨prop.memObj, wordAdd prop.offset i, prop.attr, prop.flags⟩) ∧
      ∀ a page, CoveredBy s.vareas a page → CoveredBy t.vareas a page) ↔
    ∀ x ∈ taken, x.Displaced prop.offset va := by
  obtain ⟨front, back, hsplit, hfused⟩ := h.split
  have hwstart := h.aligned
  have hxmem : ∀ x ∈ taken, x ∈ s.vareas := fun x hx => by simp [hsplit, hx]
  have hxsize : ∀ x ∈ taken, 0 < x.size := fun x hx => (hs.ordered.bounds x (hxmem x hx)).2.1
  constructor
  · rintro ⟨hnew, hold⟩ x hx
    obtain ⟨hxlow, hxhigh⟩ := h.inside x hx
    have hxpos := hxsize x hx
    have hfirst := hnew 0 (by unfold archPageSize at *; omega)
    have hrequest := congrArg Page.offset (h.page_eq ht (by omega) (by omega) hfirst)
    have hkept := congrArg Page.offset (h.page_eq ht hxlow (by unfold finish at hxhigh ⊢; omega)
      (hold x.start _ ⟨x, hxmem x hx, le_rfl, by unfold finish; omega, rfl⟩))
    unfold Varea.Displaced
    unfold page pageOffset wordAdd wordLimit at hrequest hkept
    dsimp only at hrequest hkept
    unfold archPageSize at *
    omega
  · intro hdisplaced
    obtain ⟨x₀, hx₀, hshift⟩ := h.shift
    have hw : w.Displaced prop.offset va := by
      have hx₀disp := hdisplaced x₀ hx₀
      unfold Varea.Displaced at hx₀disp ⊢
      unfold Varea.SameShift at hshift
      omega
    refine ⟨fun i hi => ?_, fun a page hcovered => ?_⟩
    · have hin : i * archPageSize < size := by
        unfold archPageSize at *
        omega
      refine ⟨w, by simp [hfused], by omega, by omega, ?_⟩
      have hoffset : w.pageOffset (va + i * archPageSize) = wordAdd prop.offset i := by
        unfold Varea.Displaced at hw
        unfold pageOffset wordAdd wordLimit
        unfold archPageSize at *
        omega
      rw [page, hoffset, h.matching.attr_eq, h.matching.flag_eq, h.matching.memObj_eq]
    · rw [hsplit] at hcovered
      rw [hfused]
      refine hcovered.splice fun x hx hxlow hxhigh => ?_
      obtain ⟨hin, hin'⟩ := h.inside x hx
      have hoffset := hw.pageOffset_eq (hdisplaced x hx) hwstart (haligned x (hxmem x hx)).1
        (show w.start ≤ a by omega) hxlow
      exact ⟨by omega, by omega, h.matching.page_eq (h.taken_matches x hx) hoffset⟩

/-- The record that `_insert_new_varea` creates. -/
theorem insertNewVarea_none_cases {allocVa mapSize : ℕ} {pvarea : Option VareaRef} {err : Err}
    (hrun : insertNewVarea s env none allocVa mapSize prop = (s', pvarea, err)) :
    err ≠ .eok ∧ s'.vareas = s.vareas ∨ err = .eok ∧ pvarea = some (.created s.created) ∧
        s' = Space.bstInsert { s.ask with created := s.created + 1 } env
          (prop.varea (.created s.created) allocVa mapSize) := by
  unfold insertNewVarea vareaCreate at hrun
  rcases hanswer : s.answer env with _ | _
  · simp only [hanswer, if_false] at hrun
    obtain ⟨rfl, -, rfl⟩ := hrun
    exact .inl ⟨by decide, rfl⟩
  · simp only [hanswer, if_true] at hrun
    obtain ⟨rfl, rfl, rfl⟩ := hrun
    exact .inr ⟨rfl, rfl, rfl⟩

/-- A neighbour of the place is found, and its object agrees to the expansion. -/
def Absorbs (env : Env) (s : Space) (va size : ℕ) (prop : MapProp) : Prop :=
  ∃ forward n, s.findNeighbour va size prop = some (forward, n) ∧
    n.has env MemObj.onVareaExpand = true ∧ s.answer env = true

/-- `_try_expand_and_merge_okay` changes nothing, or there is a neighbour that is grown. -/
theorem tryExpandAndMerge_cases {fuel : ℕ} {region : Option VareaRef}
    (hrun : tryExpandAndMerge env fuel s va size prop = some (s', region)) :
    region = none ∧ ¬ Absorbs env s va size prop ∧ s'.vareas = s.vareas ∧ SameSpace s s' ∨
      region ≠ none ∧ Absorbs env s va size prop := by
  unfold tryExpandAndMerge at hrun
  split at hrun
  next hnone =>
    cases hrun
    refine .inl ⟨rfl, ?_, rfl, SameSpace.refl _⟩
    rintro ⟨forward, n, hfound, -⟩
    exact absurd (hnone.symm.trans hfound) (by simp)
  next forward n hfound =>
    dsimp only at hrun
    have hunique : ∀ {fw n'}, s.findNeighbour va size prop = some (fw, n') → n' = n := fun hfound' =>
      (Prod.mk.inj (mem_unique hfound' hfound)).2
    by_cases hcallback : n.has env MemObj.onVareaExpand = true
    · by_cases hanswer : s.answer env = true
      · rw [expandVarea, if_pos hcallback, if_pos hanswer] at hrun
        obtain ⟨operand, -, hrest⟩ := bind_eq_some_iff.mp hrun
        obtain ⟨⟨t, ref⟩, -, ⟨⟩⟩ := bind_eq_some_iff.mp hrest
        exact .inr ⟨by simp, forward, n, hfound, hcallback, hanswer⟩
      · rw [expandVarea, if_pos hcallback, if_neg hanswer] at hrun
        cases hrun
        refine .inl ⟨rfl, ?_, rfl, ⟨rfl, rfl, le_rfl⟩⟩
        rintro ⟨_, _, _, _, hyes⟩
        exact hanswer hyes
    · rw [expandVarea, if_neg hcallback] at hrun
      cases hrun
      refine .inl ⟨rfl, ?_, rfl, SameSpace.refl _⟩
      rintro ⟨_, _, hfound', hhas, _⟩
      exact hcallback (hunique hfound' ▸ hhas)

/-- A list of vareas each of which holds one of the old ones. -/
theorem Joins.holds_old (h : Joins prop vareas vareas') :
    ∀ w ∈ vareas', ∃ v ∈ vareas, w.start ≤ v.start ∧ v.finish ≤ w.finish := by
  induction h with
  | refl => exact fun w hw => ⟨w, hw, le_rfl, le_rfl⟩
  | @step front back _ l r htouch _ _ _ ih =>
    intro w hw
    obtain ⟨v, hv, hlow, hhigh⟩ := ih w hw
    rcases mem_append.mp hv with hv | hv
    · exact ⟨v, by simp [hv], hlow, hhigh⟩
    · rcases mem_cons.mp hv with rfl | hv
      · refine ⟨l, by simp, hlow, le_trans ?_ hhigh⟩
        unfold finish
        dsimp only
        omega
      · exact ⟨v, by simp [hv], hlow, hhigh⟩

/-- So after a range was absorbed. -/
theorem Absorbed.holds_old (h : Absorbed prop va size vareas vareas') :
    ∀ w ∈ vareas', ∃ v ∈ vareas, w.start ≤ v.start ∧ v.finish ≤ w.finish := by
  cases h with
  | @intro front back _ n w' hn hexp hjoins =>
    intro w hw
    obtain ⟨v, hv, hlow, hhigh⟩ := hjoins.holds_old w hw
    rcases mem_append.mp hv with hv | hv
    · exact ⟨v, by simp [hv], hlow, hhigh⟩
    · rcases mem_cons.mp hv with rfl | hv
      · have hregion := hexp.region.2.2.2.2
        refine ⟨n, by simp, ?_, ?_⟩
        · omega
        · omega
      · exact ⟨v, by simp [hv], hlow, hhigh⟩

/-- Removing a varea uncovers the addresses in it. -/
theorem WellFormed.not_covered_of_remove {ref : VareaRef} {page : Page} (h : WellFormed s) (hw : w ∈ s.vareas)
    (href : w.ref = ref) (hlow : w.start ≤ a) (hhigh : a < w.finish) :
    ¬ CoveredBy (s.bstRemove env ref).vareas a page := by
  rintro ⟨v, hv, hvlow, hvhigh, -⟩
  obtain ⟨front, back, hsplit⟩ := append_of_mem hw
  have hordered := h.ordered
  rw [← href, Space.vareas_bstRemove env hsplit h.refs] at hv
  rw [hsplit] at hordered
  obtain ⟨hbefore, hbehind, -⟩ := hordered.around
  rcases mem_append.mp hv with hv | hv
  · have hle := hbefore v hv
    omega
  · have hle := hbehind v hv
    omega

/-- The request is accepted and finds a place, its range is absorbed, and it asks for a prefetch. -/
structure PrefetchesAbsorbed (env : Env) (s : Space) (addr length attr flags m offset : ℕ) : Prop where
  prefetch : flags.testBit mmfPrefetch = true
  length_ne : length ≠ 0
  in_range : notInRange addr length s.start s.size = false
  supported : notSupport flags = false
  place : s.findFree (mapHint env s addr length flags m) ≠ 0
  absorbs : Absorbs env s (s.findFree (mapHint env s addr length flags m)) length
    ⟨attr, flags, offset, some m⟩

/-- A mapping that is not fixed and fails changes no page, exactly when it does not prefetch a range that was
absorbed. -/
theorem rtAspaceMap_error_keeps_pages {fuel addr length attr flags m offset va : ℕ} {err : Err}
    (hcreated : ∀ v ∈ s.vareas, ∀ k, v.ref = .created k → k < s.created)
    (hfixed : (mapHint env s addr length flags m).flags.testBit mmfMapFixed = false)
    (hrun : rtAspaceMap env fuel s addr length attr flags m offset = some (s', va, err))
    (herr : err ≠ .eok) : (¬ PrefetchesAbsorbed env s addr length attr flags m offset →
        ∀ a page, CoveredBy s'.vareas a page ↔ CoveredBy s.vareas a page) ∧
      (WellFormed s → Placed s (s.findFree (mapHint env s addr length flags m)) length →
        (∀ a page, CoveredBy s'.vareas a page ↔ CoveredBy s.vareas a page) →
        ¬ PrefetchesAbsorbed env s addr length attr flags m offset) := by
  obtain ⟨hrefused, -, rfl⟩ | ⟨hpos, hrange, hflags, -, p, addr', hmap, -⟩ := rtAspaceMap_cases hrun
  · refine ⟨fun _ _ _ => Iff.rfl, fun _ _ _ habsorbed => ?_⟩
    obtain ⟨-, hlength, hrange, hflags, -, -⟩ := habsorbed
    simp [hlength, hrange, hflags] at hrefused
  obtain ⟨t, p', e, hinstall, hcases⟩ := mmAspaceMap_cases hmap
  obtain ⟨hzero, rfl, rfl⟩ | ⟨hplace, u, region, htry, hcase⟩ := vareaInstall_cases hfixed hinstall
  · obtain ⟨-, rfl⟩ | ⟨hok, -⟩ := hcases
    · exact ⟨fun _ _ _ => Iff.rfl, fun _ _ _ habsorbed => habsorbed.place hzero⟩
    · cases hok
  rw [mapHint_mapSize] at htry hcase
  rcases tryExpandAndMerge_cases htry with ⟨rfl, hnot, hvareas, hspace⟩ | ⟨hregion, habsorbs⟩
  · refine ⟨fun _ => ?_, fun _ _ _ habsorbed => hnot habsorbed.absorbs⟩
    suffices hsame : s'.vareas = s.vareas by simp [hsame]
    obtain ⟨hne, -⟩ | ⟨-, -, hinsert⟩ := hcase
    · exact absurd rfl hne
    rcases insertNewVarea_none_cases hinsert with ⟨hne, hkept⟩ | ⟨rfl, rfl, rfl⟩
    · obtain ⟨-, rfl⟩ | ⟨hok, -⟩ := hcases
      · exact hkept.trans hvareas
      · exact absurd hok hne
    · obtain ⟨rfl, -⟩ | ⟨-, -, ref, t', hp, ht', -, ⟨rfl, -⟩ | ⟨-, rfl⟩⟩ := hcases
      · exact absurd rfl herr
      · exact absurd rfl herr
      · -- the failed prefetch removes the record that was inserted for it
        cases hp
        have hnew : ∀ v ∈ u.vareas, v.ref ≠ .created u.created := by
          intro v hv href
          have hlt := hcreated v (hvareas ▸ hv) _ href
          have hle := hspace.created_le
          omega
        have hundone := Space.vareas_bstRemove_bstInsert (s := { u.ask with created := u.created + 1 })
          (v := MapProp.varea ⟨attr, flags, offset, some m⟩ (.created u.created)
            (s.findFree (mapHint env s addr length flags m)) length) env hnew
        exact (Space.vareas_bstRemove_congr env ht' _).trans (hundone.trans hvareas)
  · obtain ⟨-, rfl, rfl, rfl, -⟩ | ⟨hnone, -⟩ := hcase
    swap
    · exact absurd hnone hregion
    obtain ⟨rfl, -⟩ | ⟨-, hprefetch, ref, t', rfl, ht', hsame, ⟨rfl, -⟩ | ⟨-, rfl⟩⟩ := hcases
    · exact absurd rfl herr
    · exact absurd rfl herr
    refine ⟨fun hnot => absurd ⟨hprefetch, hpos.ne', hrange, hflags, hplace, habsorbs⟩ hnot,
      fun hwf hplaced hsame' _ => ?_⟩
    obtain ⟨-, ht, ⟨hnone, -⟩ | ⟨ref', hsome, ⟨w, hw, href⟩, habsorbed⟩⟩ := hwf.tryExpand hplaced
      (Nat.pos_of_ne_zero hplace) hpos htry
    · cases hnone
    cases hsome
    -- the varea that is removed holds one that was there before
    obtain ⟨v, hv, hlow, hhigh⟩ := habsorbed.holds_old w hw
    obtain ⟨-, hvsize, -⟩ := hwf.ordered.bounds v hv
    have hcovered : CoveredBy s.vareas v.start (v.page v.start) :=
      ⟨v, hv, le_rfl, by unfold finish; omega, rfl⟩
    refine (ht.of_vareas_eq hsame ht').not_covered_of_remove (ht' ▸ hw) href hlow ?_
      ((hsame' _ _).mpr hcovered)
    unfold finish at hhigh ⊢
    omega

/-- A mapping whose prefetch fails next to pages without a prefetch leaves them. -/
theorem rtAspaceMap_error_keeps_pages_prefetch :
    ∃ s', rtAspaceMap agreeing 3 (oneVarea 4096 1048576 65536 8192) 73728 4096 0 (2 ^ mmfPrefetch) 0 2 =
        some (s', 0, .enomem) ∧ ∀ a page, CoveredBy s'.vareas a page ↔
        CoveredBy (oneVarea 4096 1048576 65536 8192).vareas a page := by
  obtain ⟨s', hcall⟩ : ∃ s', rtAspaceMap agreeing 3 (oneVarea 4096 1048576 65536 8192) 73728 4096 0
      (2 ^ mmfPrefetch) 0 2 = some (s', 0, .enomem) := by decide +kernel
  have hcreated : ∀ v ∈ (oneVarea 4096 1048576 65536 8192).vareas, ∀ k, v.ref = .created k →
      k < (oneVarea 4096 1048576 65536 8192).created :=
    oneVarea_forall fun k hk => by cases hk; decide
  have hnone : (oneVarea 4096 1048576 65536 8192).findNeighbour ((oneVarea 4096 1048576 65536 8192).findFree
      (mapHint agreeing (oneVarea 4096 1048576 65536 8192) 73728 4096 (2 ^ mmfPrefetch) 0)) 4096
      ⟨0, 2 ^ mmfPrefetch, 2, some 0⟩ = none := by decide +kernel
  refine ⟨s', hcall, (rtAspaceMap_error_keeps_pages hcreated (by decide) hcall (by decide)).1 ?_⟩
  rintro ⟨-, -, -, -, -, forward, n, hfound, -⟩
  exact absurd (hnone.symm.trans hfound) (by simp)

/-- Objects that agree to everything, whose first pages can be fetched and no others. -/
def firstFetched : Env := { agreeing with fault := fun n => if n < 3 then .okMapped else .unrecoverable }

/-- Two pages are mapped with a prefetch, and the next page of the object is to be mapped with one. It goes into
the varea of the two pages, which is removed as a whole when its prefetch fails. -/
theorem map_error_unmaps_neighbour :
    ∃ s s', (system firstFetched).Reachable s ∧ CoveredBy s.vareas 65536 ⟨some 0, 0, 0, 2 ^ mmfPrefetch⟩ ∧
      rtAspaceMap firstFetched 3 s 73728 4096 0 (2 ^ mmfPrefetch) 0 2 = some (s', 0, .enomem) ∧
      ∀ page, ¬ CoveredBy s'.vareas 65536 page := by
  obtain ⟨s, hfirst, hbefore, s', hsecond, hafter⟩ :
      ∃ s, exec firstFetched (emptySpace 4096 1048576) 2 (.map 65536 8192 0 (2 ^ mmfPrefetch) 0 0) = some s ∧
      s.vareas = [⟨.created 0, 65536, 8192, 0, 0, 2 ^ mmfPrefetch, some 0⟩] ∧
      ∃ s', rtAspaceMap firstFetched 3 s 73728 4096 0 (2 ^ mmfPrefetch) 0 2 = some (s', 0, .enomem) ∧
        s'.vareas = [] := by decide +kernel
  have hinit : (system firstFetched).Reachable (emptySpace 4096 1048576) := .init ⟨rfl, by decide⟩
  refine ⟨s, s', hinit.step (e := (2, .map 65536 8192 0 (2 ^ mmfPrefetch) 0 0)) hfirst, ?_, hsecond, ?_⟩
  · rw [hbefore]
    exact ⟨_, mem_singleton_self _, by decide, by decide, rfl⟩
  · rintro page ⟨v, hv, -⟩
    simp [hafter] at hv

end RtThread.Aspace
