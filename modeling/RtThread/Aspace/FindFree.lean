import RtThread.Aspace.Layout

/-!
# The search for a free range

`_find_free` takes the preferred address if its range is free, else the first gap behind the vareas that
overlap it, else the first gap of the limit window. The rules below are for hints without an alignment
and a window that no varea straddles from below: an aligned candidate can pass the next varea, whose
distance then wraps, and with no varea behind its start the window is not checked against one that
covers it.
-/

namespace RtThread.Aspace

open Lib List
open Varea (finish ref)

variable {low high : ℕ} {front back vareas : List Varea} {v w : Varea} {s : Space}
variable {start : ℕ}

/-- The last address of a range. -/
theorem wordSub_wordAdd_one {a b : ℕ} (hpos : 0 < a + b) (hle : a + b ≤ 2 ^ 64) :
    wordSub (wordAdd a b) 1 = a + b - 1 := by
  unfold wordSub wordAdd wordLimit
  omega

/-- Without a requested alignment an address is its own alignment. -/
theorem alignVa_full {va : ℕ} (h : va < 2 ^ 64) : alignVa va (2 ^ 64 - 1) = va := by
  unfold alignVa
  rw [wordNot, Nat.sub_self, wordAdd, add_zero, Nat.mod_eq_of_lt h,
    Nat.and_two_pow_sub_one_eq_mod, Nat.mod_eq_of_lt h]

/-- The number of bytes from `a` through `b`. -/
theorem wordAdd_wordSub_one {a b : ℕ} (hle : a ≤ b + 1) (hfit : b + 1 < 2 ^ 64 + a) :
    wordAdd (wordSub b a) 1 = b + 1 - a := by
  unfold wordSub wordAdd wordLimit
  omega

/-- The varea behind one in the list. -/
theorem Space.vareaNext_eq (h : s.vareas = front ++ v :: back) (hrefs : (s.vareas.map ref).Nodup) :
    s.vareaNext v = back.head? := by
  rw [h] at hrefs
  obtain ⟨hfront, -⟩ := ref_ne_of_nodup hrefs
  rw [Space.vareaNext, h, dropWhile_append_of_pos fun a ha => by simpa using hfront a ha]
  simp [head?_eq_getElem?]

/-- Two vareas of a layout are the same or disjoint. -/
theorem Ordered.apart (h : Ordered low high vareas) (hv : v ∈ vareas) (hw : w ∈ vareas) :
    v = w ∨ v.finish ≤ w.start ∨ w.finish ≤ v.start := by
  obtain ⟨front, back, rfl⟩ := append_of_mem hw
  obtain ⟨hbefore, hbehind, -⟩ := h.around
  rcases mem_append.mp hv with hv | hv
  · exact .inr (.inl (hbefore v hv))
  · rcases mem_cons.mp hv with rfl | hv
    · exact .inl rfl
    · exact .inr (.inr (hbehind v hv))

/-- The walk for the closest start from an address on, in a tree whose starts ascend and lie closer than
the closest so far. -/
theorem searchExceed_eq {t : BinaryTree Varea} {closest : Option Varea} {minOff : ℤ}
    (hsorted : (SearchTree.inorder t).Pairwise fun a b => a.start < b.start)
    (hnear : ∀ v ∈ SearchTree.inorder t, start < v.start → v.start - start < 2 ^ 63)
    (hmin : ∀ v ∈ SearchTree.inorder t, start < v.start → (v.start : ℤ) - start < minOff) :
    searchExceed start t closest minOff =
      ((SearchTree.inorder t).find? fun v => start ≤ v.start).or closest := by
  induction t generalizing closest minOff with
  | nil => rfl
  | node a l r hl hr =>
    rw [SearchTree.inorder_node] at hsorted hnear hmin ⊢
    obtain ⟨hleft, hrest, hcross⟩ := pairwise_append.mp hsorted
    obtain ⟨-, hright⟩ := pairwise_cons.mp hrest
    rw [searchExceed, find?_append, find?_cons]
    split
    next hlt =>
      have hoff : signedWord (a.start - start) = (a.start : ℤ) - start := by
        rw [signedWord_of_lt (hnear a (by simp) hlt)]
        omega
      have hclose := hmin a (by simp) hlt
      rw [hoff, if_pos hclose, hl hleft (fun v hv => hnear v (by simp [hv])), decide_eq_true hlt.le]
      · rw [Option.or_assoc]
        rfl
      · intro v hv _
        have hbefore := hcross v hv a mem_cons_self
        omega
    · have hnone : (SearchTree.inorder l).find? (fun v => start ≤ v.start) = none :=
        find?_eq_none.mpr fun v hv => by
          have hbefore := hcross v hv a mem_cons_self
          simp only [decide_eq_true_eq]
          omega
      rw [hnone, Option.none_or]
      split
      next hgt =>
        rw [decide_eq_false (by omega), hr hright (fun v hv => hnear v (by simp [hv]))
          fun v hv => hmin v (by simp [hv])]
      · rw [decide_eq_true (by omega)]
        rfl

/-- The starts of a layout ascend. -/
theorem Ordered.starts (h : Ordered low high vareas) : vareas.Pairwise fun a b => a.start < b.start := by
  refine h.disjoint.imp_of_mem fun {a b} ha _ hab => ?_
  obtain ⟨-, hsize, -⟩ := h.bounds a ha
  unfold finish at hab
  omega

/-- `_aspace_bst_search_exceed` takes the first varea that starts at the address or behind it. -/
theorem Laid.searchExceed_find (h : Laid s) (hsize : s.size < 2 ^ 63) (hstart : s.start ≤ start) :
    s.bstSearchExceed start = s.vareas.find? fun v => start ≤ v.start := by
  have hnear : ∀ v ∈ s.vareas, start < v.start → v.start - start < 2 ^ 63 - 1 := by
    intro v hv hlt
    obtain ⟨-, hvsize, hfin⟩ := h.ordered.bounds v hv
    unfold finish at hfin
    omega
  rw [Space.bstSearchExceed, searchExceed_eq h.ordered.starts
    (fun v hv hlt => (hnear v hv hlt).trans (by decide)), Option.or_none]
  · rfl
  · intro v hv hlt
    have hclose := hnear v hv hlt
    omega

/-- What it finds is the lowest such varea. -/
theorem Laid.searchExceed_some (h : Laid s) (hsize : s.size < 2 ^ 63) (hstart : s.start ≤ start)
    (hfound : s.bstSearchExceed start = some w) :
    w ∈ s.vareas ∧ start ≤ w.start ∧ ∀ v ∈ s.vareas, start ≤ v.start → w.start ≤ v.start := by
  rw [h.searchExceed_find hsize hstart] at hfound
  obtain ⟨hw, front, back, heq, hfront⟩ := find?_eq_some_iff_append.mp hfound
  have hordered := h.ordered
  rw [heq] at hordered ⊢
  obtain ⟨-, hbehind, -⟩ := hordered.around
  refine ⟨by simp, by simpa using hw, fun v hv hle => ?_⟩
  rcases mem_append.mp hv with hv | hv
  · have hlt := hfront v hv
    simp only [Bool.not_eq_true', decide_eq_false_iff_not] at hlt
    omega
  · rcases mem_cons.mp hv with rfl | hv
    · exact le_rfl
    · have hb := hbehind v hv
      unfold finish at hb
      omega

/-- Where it finds nothing, every varea starts below the address. -/
theorem Laid.searchExceed_none (h : Laid s) (hsize : s.size < 2 ^ 63) (hstart : s.start ≤ start)
    (hfound : s.bstSearchExceed start = none) : ∀ v ∈ s.vareas, v.start < start := by
  rw [h.searchExceed_find hsize hstart] at hfound
  intro v hv
  have hnot := find?_eq_none.mp hfound v hv
  simpa using hnot

/-- The place of a range that the search chose. -/
structure Placed (s : Space) (va size : ℕ) : Prop where
  free : Free s.vareas va size
  low : s.start ≤ va
  high : va + size ≤ s.start + s.size

/-- The outcome of a search between two addresses: a free range of the space, or null if there is none. -/
def Searched (s : Space) (first last reqSize va : ℕ) : Prop :=
  Placed s va reqSize ∨
    va = 0 ∧ ∀ a, first ≤ a → a + reqSize ≤ last + 1 → ¬ Free s.vareas a reqSize

/-- `_ascending_search` from a varea on finds a gap behind it. -/
theorem Laid.ascendingSearch_spec (h : Laid s) {reqSize limitEnd fuel : ℕ} (hreq : 0 < reqSize)
    (hlimit : limitEnd < s.start + s.size) (hv : s.vareas = front ++ v :: back)
    (hfuel : back.length < fuel) : Searched s v.finish limitEnd reqSize
      (ascendingSearch s reqSize (2 ^ 64 - 1) limitEnd fuel (some v)) := by
  have hspace := h.space_le
  induction fuel generalizing front v back with
  | zero => nomatch hfuel
  | succ fuel ih =>
    have hordered := h.ordered
    rw [hv] at hordered
    obtain ⟨hbefore, hbehind, -, hlow, hsize, hhigh⟩ := hordered.around
    have hcandidate : alignVa (wordAdd v.start v.size) (2 ^ 64 - 1) = v.finish % 2 ^ 64 :=
      alignVa_full (Nat.mod_lt _ (by decide))
    have hfinish : v.finish = v.start + v.size := rfl
    rw [ascendingSearch, Space.vareaNext_eq hv h.refs, hcandidate]
    dsimp only
    split
    swap
    · exact .inr ⟨rfl, fun a ha hle => by omega⟩
    by_cases htop : v.finish = 2 ^ 64
    · -- a varea up to the top has nothing behind it, and its end wraps to the null address
      obtain rfl : back = [] := by
        refine eq_nil_iff_forall_not_mem.mpr fun b hb => ?_
        have hle := hbehind b hb
        obtain ⟨-, hbsize, hbfin⟩ := h.ordered.bounds b (by simp [hv, hb])
        unfold finish at hle hbfin htop
        omega
      rw [htop]
      exact .inr ⟨by split <;> rfl, fun a ha hle => by omega⟩
    have hfrontFree : ∀ a ∈ front ++ [v], a.finish ≤ v.finish := by
      intro a ha
      rcases mem_append.mp ha with ha | ha
      · have hle := hbefore a ha
        omega
      · rw [mem_singleton.mp ha]
    rw [Nat.mod_eq_of_lt (by omega)]
    split
    next hfull =>
      refine .inr ⟨rfl, fun a ha hle => ?_⟩
      rw [wordAdd_wordSub_one (by omega) (by omega)] at hfull
      omega
    next hfull =>
    obtain ⟨hle, hroom⟩ := not_or.mp hfull
    rw [wordAdd_wordSub_one (by omega) (by omega)] at hroom
    cases back with
    | nil =>
      dsimp only [head?_nil]
      exact .inl ⟨fun x hx => .inl (hfrontFree x (hv ▸ hx)), by omega, by omega⟩
    | cons next rest =>
      have hnext := hbehind next mem_cons_self
      obtain ⟨-, hnsize, hnfin⟩ := h.ordered.bounds next (by simp [hv])
      have hnlt : next.start < 2 ^ 64 := by
        unfold finish at hnfin
        omega
      have hlast : wordSub next.start 1 = next.start - 1 := wordSub_of_le (by omega) hnlt
      dsimp only [head?_cons]
      rw [wordAdd_wordSub_one (by omega) (by omega)]
      split
      next hreqGap =>
        refine .inl ⟨fun x hx => ?_, by omega, by omega⟩
        rw [hv, append_cons] at hx
        rcases mem_append.mp hx with hx | hx
        · exact .inl (hfrontFree x hx)
        · rcases mem_cons.mp hx with rfl | hx
          · omega
          · have hrest := (ordered_cons.mp (ordered_cons.mp (ordered_append.mp hordered).2.1).2.1).2.2 x hx
            unfold finish at hrest
            omega
      next hreqGap =>
        have hv' : s.vareas = (front ++ [v]) ++ next :: rest := by rw [hv, append_cons]
        refine (ih hv' (by simpa using hfuel)).imp_right fun ⟨hzero, hnone⟩ =>
          ⟨hzero, fun a ha hle hfree => ?_⟩
        rcases hfree next (by simp [hv]) with hfin | hstart
        · exact hnone a hfin hle hfree
        · omega

/-- The window of `_find_head_and_asc_search`, or a varea that starts in it, keeps the search inside the
address space. -/
def WindowOk (s : Space) (limitStart limitEnd : ℕ) : Prop :=
  (∃ v ∈ s.vareas, limitStart ≤ v.start) ∨
    (limitStart ≤ limitEnd + 1 ∧ ∀ v ∈ s.vareas, ¬ (v.start < limitStart ∧ limitStart < v.finish))

/-- `_find_head_and_asc_search` finds a gap of the window. -/
theorem Laid.findHead_spec (h : Laid s) (hhalf : s.size < 2 ^ 63) {reqSize limitStart limitEnd : ℕ}
    (hreq : 0 < reqSize) (hlow : s.start ≤ limitStart) (hlt : limitStart < 2 ^ 64)
    (hlimit : limitEnd < s.start + s.size) (hwindow : WindowOk s limitStart limitEnd) :
    Searched s limitStart limitEnd reqSize
      (s.findHeadAndAscSearch reqSize (2 ^ 64 - 1) limitStart limitEnd) := by
  have hspace := h.space_le
  -- the search behind the first varea of the window, when nothing fits in front of it
  have hascending : ∀ w ∈ s.vareas,
      (∀ a, limitStart ≤ a → Free s.vareas a reqSize → ¬ a + reqSize ≤ w.start) →
      Searched s limitStart limitEnd reqSize (s.ascendingSearch w reqSize (2 ^ 64 - 1) limitEnd) := by
    intro w hw hfront
    obtain ⟨front, back, hv⟩ := append_of_mem hw
    refine (h.ascendingSearch_spec hreq hlimit hv (by simp [hv]; omega)).imp_right fun ⟨hzero, hnone⟩ =>
      ⟨hzero, fun a ha hle hfree => hnone a ?_ hle hfree⟩
    exact (hfree w hw).resolve_right (hfront a ha hfree)
  unfold Space.findHeadAndAscSearch
  rw [alignVa_full hlt]
  dsimp only
  split
  next w hfound =>
    obtain ⟨hw, hle, hlowest⟩ := h.searchExceed_some hhalf hlow hfound
    obtain ⟨-, hwsize, hwfin⟩ := h.ordered.bounds w hw
    have hwlt : w.start < 2 ^ 64 := by
      unfold finish at hwfin
      omega
    rw [wordSub_of_le hle hwlt]
    split
    next hgap =>
      split
      next f hformer =>
        obtain ⟨hf, hfle, hflt⟩ := h.search_some hformer
        -- the varea over the start of the window is the last one in front of the gap
        have hbefore : f.finish ≤ w.start := by
          rcases h.ordered.apart hf hw with rfl | hfin | hfin
          · omega
          · exact hfin
          · unfold finish at hfin hflt
            omega
        have hcandidate : alignVa (wordAdd f.start f.size) (2 ^ 64 - 1) = f.finish := by
          rw [wordAdd_of_lt (by unfold finish at hbefore; omega)]
          exact alignVa_full (by unfold finish at hbefore; omega)
        rw [hcandidate, wordSub_of_le hbefore hwlt]
        split
        · refine .inl ⟨fun x hx => ?_, ?_, ?_⟩
          · rcases h.ordered.apart hx hf with rfl | hfin | hfin
            · exact .inl le_rfl
            · omega
            · have hxle := hlowest x hx (by omega)
              omega
          · omega
          · unfold finish at hwfin
            omega
        next hsmall =>
          refine hascending w hw fun a ha hfree hend => ?_
          have hout := hfree f hf
          omega
      next hformer =>
        refine .inl ⟨fun x hx => ?_, hlow, ?_⟩
        · rcases h.searchOverlap_none hformer x hx with hfin | hstart
          · exact .inl hfin
          · have hxle := hlowest x hx hstart.le
            omega
        · unfold finish at hwfin
          omega
    next hgap => exact hascending w hw fun a ha _ hend => by omega
  next hfound =>
    have hbelow := h.searchExceed_none hhalf hlow hfound
    rcases hwindow with ⟨v, hv, hle⟩ | ⟨hle, hnone⟩
    · exact absurd (hbelow v hv) (by omega)
    · rw [wordAdd_wordSub_one hle (by omega)]
      split
      · refine .inl ⟨fun x hx => .inl ?_, hlow, by omega⟩
        have hx' := hnone x hx
        have hxlt := hbelow x hx
        omega
      · exact .inr ⟨rfl, fun a ha hend _ => by omega⟩

/-- A hint that asks for no alignment, whose window and preferred range lie inside the address space, with
no varea across the start of the window. -/
structure Hint.Plain (hint : Hint) (s : Space) : Prop where
  align : hint.flags.testBit mmfRequestAlign = false
  limit_low : s.start ≤ hint.limitStart
  limit_pos : 0 < hint.limitRangeSize
  limit_high : hint.limitStart + hint.limitRangeSize ≤ s.start + s.size
  window : ∀ v ∈ s.vareas, ¬ (v.start < hint.limitStart ∧ hint.limitStart < v.finish)
  prefer : hint.prefer = 0 ∨
    hint.limitStart ≤ hint.prefer ∧ hint.prefer + hint.mapSize ≤ s.start + s.size

/-- `_find_free` takes the preferred range or searches the window; with `MMF_MAP_FIXED` it gives up early. -/
theorem Laid.findFree_searched (h : Laid s) (hhalf : s.size < 2 ^ 63) {hint : Hint} (hsize : 0 < hint.mapSize)
    (halign : hint.flags.testBit mmfRequestAlign = false) (hlow : s.start ≤ hint.limitStart)
    (hword : hint.limitStart < 2 ^ 64) (hpos : 0 < hint.limitStart + hint.limitRangeSize)
    (hhigh : hint.limitStart + hint.limitRangeSize ≤ s.start + s.size)
    (hwindow : ∀ v ∈ s.vareas, ¬ (v.start < hint.limitStart ∧ hint.limitStart < v.finish))
    (hprefer : hint.prefer = 0 ∨ hint.limitStart ≤ hint.prefer ∧ hint.prefer < 2 ^ 64)
    (hfits : hint.prefer = 0 ∨ hint.prefer + hint.mapSize ≤ s.start + s.size ∨
      s.bstSearchOverlap hint.prefer (wordSub (wordAdd hint.prefer hint.mapSize) 1) ≠ none)
    (hvareas : ∀ v ∈ s.vareas, 0 < v.start) :
    Placed s (s.findFree hint) hint.mapSize ∨ s.findFree hint = 0 ∧
      (hint.flags.testBit mmfMapFixed = false → 0 < s.start → ∀ a, hint.limitStart ≤ a →
        a + hint.mapSize ≤ hint.limitStart + hint.limitRangeSize → ¬ Free s.vareas a hint.mapSize) := by
  have hspace := h.space_le
  have hmask : alignMaskOf hint.flags = 2 ^ 64 - 1 := by
    rw [alignMaskOf, halign]
    rfl
  have hend := wordSub_wordAdd_one hpos (by omega)
  unfold Space.findFree
  rw [hmask, hend]
  dsimp only
  split
  next hne =>
    obtain ⟨hplow, hplt⟩ := hprefer.resolve_left hne
    rw [alignVa_full hplt]
    split
    next hfound =>
      have hfits := (hfits.resolve_left hne).resolve_right (not_not.mpr hfound)
      rw [wordSub_wordAdd_one (by omega) (by omega)] at hfound
      refine .inl ⟨fun v hv => ?_, hlow.trans hplow, hfits⟩
      have hout := h.searchOverlap_none hfound v hv
      omega
    next v hfound =>
      obtain ⟨hv, hfirst, -⟩ := h.searchOverlap_some hfound
      obtain ⟨front, back, hsplit⟩ := append_of_mem hv
      have hvpos := hvareas v hv
      obtain ⟨-, hvsize, hvfin⟩ := h.ordered.bounds v hv
      have hvstart : hint.limitStart ≤ v.start := by
        have hout := hwindow v hv
        omega
      have hvlt : v.start < s.start + s.size := by
        unfold finish at hvfin
        omega
      split
      next hfixed => exact .inr ⟨rfl, fun hnot => by simp [hfixed] at hnot⟩
      next hfixed =>
        have hasc : Searched s v.finish (hint.limitStart + hint.limitRangeSize - 1) hint.mapSize
            (s.ascendingSearch v _ _ _) :=
          h.ascendingSearch_spec hsize (by omega) hsplit (by simp [hsplit]; omega)
        split
        next hzero =>
          have hprev : wordSub v.start 1 = v.start - 1 :=
            wordSub_of_le hvpos (by omega)
          refine (h.findHead_spec hhalf hsize hlow hword (by omega) (.inl ⟨v, hv, hvstart⟩)).imp_right
            fun ⟨hnull, hfront⟩ => ⟨hnull, fun _ hstart a ha hle hfree => ?_⟩
          rcases hasc with hplaced | ⟨-, hback⟩
          · exact absurd hplaced.low (by omega)
          · rcases hfree v hv with hfin | hbefore
            · exact hback a hfin (by omega) hfree
            · exact hfront a ha (by omega) hfree
        next hnull => exact .inl (hasc.resolve_right fun hzero => hnull hzero.1)
  next hzero =>
    refine (h.findHead_spec hhalf hsize hlow hword (by omega) (.inr ⟨by omega, hwindow⟩)).imp_right
      fun ⟨hnull, hnone⟩ => ⟨hnull, fun _ _ a ha hle => hnone a ha (by omega)⟩

/-- `_find_free` finds a free range inside the address space, or none. -/
theorem WellFormed.findFree_spec (h : WellFormed s) (hhalf : s.size < 2 ^ 63) {hint : Hint}
    (hplain : hint.Plain s) (hsize : 0 < hint.mapSize) (hva : s.findFree hint ≠ 0) :
    Placed s (s.findFree hint) hint.mapSize := by
  have hspace := h.space_le
  obtain ⟨halign, hlow, hpos, hhigh, hwindow, hprefer⟩ := hplain
  exact (h.findFree_searched hhalf hsize halign hlow (by omega) (by omega) hhigh hwindow (by omega) (by tauto)
    h.positive).resolve_right fun hnull => hva hnull.1

/-- A hint with the whole address space as its window and any preferred address in it, with neither
`MMF_MAP_FIXED` nor `MMF_REQUEST_ALIGN`. -/
structure Hint.Anywhere (hint : Hint) (s : Space) : Prop where
  fixed : hint.flags.testBit mmfMapFixed = false
  align : hint.flags.testBit mmfRequestAlign = false
  limit_start : hint.limitStart = s.start
  limit_size : hint.limitRangeSize = s.size
  prefer : hint.prefer = 0 ∨ s.start ≤ hint.prefer ∧ hint.prefer < s.start + s.size

/-- An address space of two pages. -/
def twoPages : Space := ⟨4096, 8192, .nil, 0, 0⟩

/-- It has no vareas. -/
theorem laid_twoPages : Laid twoPages := ⟨ordered_nil, .nil, nofun, by decide⟩

end RtThread.Aspace
