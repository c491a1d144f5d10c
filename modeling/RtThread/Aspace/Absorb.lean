import RtThread.Aspace.Install

/-!
# What a mapping absorbs

The search of `_try_expand_and_merge_okay` and `_merge_surrounding` takes one neighbour after another. Which
vareas it takes is determined by the address space before the call, and where the object agrees to every
expansion and merge they all end in one varea.
-/

namespace RtThread.Aspace

open Lib List Varea

variable {low high start va size : ℕ} {front back taken : List Varea} {v w n x : Varea}
  {s t t' : Space} {env : Env} {prop : MapProp}

/-- The vareas that the search takes from an operand on, one after another. -/
inductive Takes (s : Space) (prop : MapProp) : ℕ → ℕ → Varea → Prop where
  | now {start size : ℕ} {forward : Bool} {n : Varea} :
      s.findNeighbour start size prop = some (forward, n) → Takes s prop start size n
  | later {start size : ℕ} {forward : Bool} {n x : Varea} :
      s.findNeighbour start size prop = some (forward, n) →
      Takes s prop (if forward then n.start else start) (size + n.size) x → Takes s prop start size x

/-- No neighbour, nothing taken. -/
theorem not_takes_of_none (h : s.findNeighbour start size prop = none) : ¬ Takes s prop start size x := by
  intro htakes
  cases htakes with
  | now hfound | later hfound => exact absurd (h.symm.trans hfound) (by simp)

/-- The first neighbour is taken, and what the grown operand takes. -/
theorem takes_iff {forward : Bool} (h : s.findNeighbour start size prop = some (forward, n)) :
    Takes s prop start size x ↔
      x = n ∨ Takes s prop (if forward then n.start else start) (size + n.size) x := by
  constructor
  · intro htakes
    cases htakes with
    | now hfound =>
      obtain ⟨-, rfl⟩ := Prod.mk.inj (Option.mem_unique h hfound)
      exact .inl rfl
    | later hfound hrest =>
      obtain ⟨rfl, rfl⟩ := Prod.mk.inj (Option.mem_unique h hfound)
      exact .inr hrest
  · rintro (rfl | hrest)
    · exact .now h
    · exact .later h hrest

/-- A neighbour that is found is compatible. -/
theorem compatible_of_findNeighbour {forward : Bool}
    (h : s.findNeighbour start size prop = some (forward, n)) :
    n ∈ s.vareas ∧ compatible n size prop = true :=
  ⟨(SearchTree.search_some (findNeighbour_some h).1).1, (findNeighbour_some h).2⟩

/-- What is taken is there before the call. -/
theorem Takes.mem (h : Takes s prop start size x) : x ∈ s.vareas := by
  induction h with
  | now hfound => exact (compatible_of_findNeighbour hfound).1
  | later _ _ ih => exact ih

/-- The search for an address finds the varea that holds it. -/
theorem Laid.search_iff (h : Laid s) {key : ℕ} :
    s.bstSearch key = some v ↔ v ∈ s.vareas ∧ v.start ≤ key ∧ key < v.finish := by
  refine ⟨h.search_some, fun ⟨hv, hlow, hhigh⟩ => ?_⟩
  rcases hfound : s.bstSearch key with _ | w
  · have hmiss := h.searchOverlap_none hfound v hv
    omega
  · obtain ⟨hw, hwlow, hwhigh⟩ := h.search_some hfound
    rcases h.ordered.apart hv hw with rfl | hle | hle
    · rfl
    · omega
    · omega

/-- A varea that starts where another ends is the one behind it. -/
theorem Ordered.successor (h : Ordered low high (front ++ v :: back)) (hn : n ∈ front ++ v :: back)
    (htouch : v.finish = n.start) : ∃ back', back = n :: back' := by
  obtain ⟨hbefore, hbehind, -, -, hvsize, -⟩ := h.around
  obtain ⟨front', back', heq⟩ := h.touch (by simp) hn htouch
  have hfront : v ∉ front := fun hv => by
    have hle := hbefore v hv
    unfold finish at hle
    omega
  have hback : v ∉ back := fun hv => by
    have hle := hbehind v hv
    unfold finish at hle
    omega
  exact ⟨back', ((append_cons_inj_of_notMem hfront hback).mp heq).2.2⟩

/-- Two vareas show an object at the same displacement. -/
def Varea.SameShift (v w : Varea) : Prop :=
  (v.offset + w.start / archPageSize) % 2 ^ 64 = (w.offset + v.start / archPageSize) % 2 ^ 64

/-- The taken vareas of `s` are one varea of `t`, and all others are as they were. -/
structure Fused (s t : Space) (prop : MapProp) (taken : List Varea) (w : Varea) : Prop where
  split : ∃ front back, s.vareas = front ++ taken ++ back ∧ t.vareas = front ++ w :: back
  inside : ∀ x ∈ taken, w.start ≤ x.start ∧ x.finish ≤ w.finish
  matching : w.Matches prop
  taken_matches : ∀ x ∈ taken, x.Matches prop
  aligned : w.start % archPageSize = 0
  shift : ∃ x ∈ taken, w.SameShift x

section

variable (h : Fused s t prop taken w)
include h

/-- Outside the fused varea both address spaces have the same vareas. -/
theorem Fused.search_eq {key : ℕ} (hs : Laid s)
    (ht : Laid t) (hkey : key < w.start ∨ w.finish ≤ key) : t.bstSearch key = s.bstSearch key := by
  obtain ⟨front, back, hsplit, hfused⟩ := h.split
  refine Option.ext fun v => ?_
  rw [ht.search_iff, hs.search_iff]
  refine and_congr_left fun ⟨hlow, hhigh⟩ => ?_
  have hw : v ≠ w := by
    rintro rfl
    omega
  have htaken : v ∉ taken := by
    intro hv
    have hin := h.inside v hv
    omega
  simp [hsplit, hfused, hw, htaken]

/-- The fused varea has the neighbours that the operand has before the call. -/
theorem Fused.findNeighbour_eq (hs : WellFormed s) (ht : WellFormed t) :
    t.findNeighbour w.start w.size prop = s.findNeighbour w.start w.size prop := by
  obtain ⟨front, back, -, hfused⟩ := h.split
  have hw : w ∈ t.vareas := by simp [hfused]
  have hpos := ht.positive w hw
  have hspace := ht.space_le
  obtain ⟨-, hsize, hfin⟩ := ht.ordered.bounds w hw
  have hbefore : t.bstSearch (wordSub w.start 1) = s.bstSearch (wordSub w.start 1) := by
    refine h.search_eq hs.toLaid ht.toLaid (.inl ?_)
    rw [wordSub_of_le hpos (by unfold finish at hfin; omega)]
    omega
  have hbehind : t.bstSearch (wordAdd w.start w.size) = s.bstSearch (wordAdd w.start w.size) := by
    refine h.search_eq hs.toLaid ht.toLaid ?_
    unfold wordAdd wordLimit finish at *
    omega
  unfold Space.findNeighbour
  rw [hbefore, hbehind]

/-- The varea in front takes over the fused one. -/
theorem Fused.forward (ht : WellFormed t)
    (haligned : ∀ v ∈ s.vareas, v.Aligned) (hn : n ∈ t.vareas) (htouch : n.finish = w.start)
    (hmatch : n.Matches prop) (env : Env) :
    Fused s ((t.ask.bstRemove env w.ref).replace { n with size := wordAdd n.size w.size }) prop
      (n :: taken) { n with size := n.size + w.size } := by
  obtain ⟨front, back, hsplit, hfused⟩ := h.split
  have hordered := ht.ordered
  rw [hfused] at hordered hn
  obtain ⟨front', rfl⟩ := hordered.predecessor hn htouch
  have hv : t.vareas = front' ++ n :: w :: back := by simpa using hfused
  have hnstart := (haligned n (by simp [hsplit])).1
  refine ⟨⟨front', back, by simpa using hsplit, ht.migrate_vareas hv htouch env⟩, ?_,
    ⟨hmatch.1, hmatch.2, hmatch.3⟩, forall_mem_cons.mpr ⟨hmatch, h.taken_matches⟩, hnstart, n, by simp,
    rfl⟩
  rw [finish_join htouch]
  refine forall_mem_cons.mpr ⟨⟨le_rfl, ?_⟩, fun x hx => ?_⟩
  · rw [htouch, finish]
    omega
  · obtain ⟨hlow, hhigh⟩ := h.inside x hx
    unfold finish at htouch
    exact ⟨by dsimp only; omega, hhigh⟩

/-- The fused varea takes over the one behind it. -/
theorem Fused.backward (ht : WellFormed t)
    (hn : n ∈ t.vareas) (htouch : w.finish = n.start) (hmatch : n.Matches prop) (env : Env) :
    Fused s ((t.ask.bstRemove env n.ref).replace { w with size := wordAdd w.size n.size }) prop
      (taken ++ [n]) { w with size := w.size + n.size } := by
  obtain ⟨front, back, hsplit, hfused⟩ := h.split
  have hordered := ht.ordered
  rw [hfused] at hordered hn
  obtain ⟨back', rfl⟩ := hordered.successor hn htouch
  obtain ⟨x, hx, hshift⟩ := h.shift
  have hm := h.matching
  refine ⟨⟨front, back', by simpa using hsplit, ht.migrate_vareas hfused htouch env⟩, ?_,
    ⟨hm.1, hm.2, hm.3⟩, forall_mem_append.mpr ⟨h.taken_matches, by simpa using hmatch⟩, h.aligned, x,
    by simp [hx], hshift⟩
  rw [finish_join htouch]
  refine forall_mem_append.mpr ⟨fun y hy => ?_, forall_mem_singleton.mpr ⟨?_, le_rfl⟩⟩
  · obtain ⟨hlow, hhigh⟩ := h.inside y hy
    unfold finish at htouch hhigh ⊢
    exact ⟨hlow, by omega⟩
  · unfold finish at htouch
    dsimp only
    omega

/-- The loop of `_merge_surrounding` takes the vareas one after another. -/
theorem Fused.mergeLoop {fuel : ℕ} {ref ref' : VareaRef} {again : Bool} (hs : WellFormed s) (ht : WellFormed t)
    (haligned : ∀ v ∈ s.vareas, v.Aligned) (hyes : ∀ k, env.outcome k = true) (href : w.ref = ref)
    (hrun : mergeLoop env prop fuel t ref again = some (t', ref')) :
    WellFormed t' ∧ ∃ taken' w', Fused s t' prop taken' w' ∧ w'.start ≤ w.start ∧ w.finish ≤ w'.finish ∧
      ∀ x, x ∈ taken' ↔ x ∈ taken ∨ Takes s prop w.start w.size x := by
  induction fuel generalizing t ref again taken w with
  | zero => cases hrun
  | succ fuel ih =>
    obtain ⟨v, hlookup, hrest⟩ := Option.bind_eq_some_iff.mp hrun
    obtain ⟨hv, hvref⟩ := Space.lookup_some hlookup
    obtain ⟨front, back, -, hfused⟩ := h.split
    have hw : w ∈ t.vareas := by simp [hfused]
    obtain rfl : v = w := inj_on_of_nodup_map ht.refs hv hw (hvref.trans href.symm)
    have hanswer : t.answer env = true := hyes _
    have hsearch := h.findNeighbour_eq hs ht
    split at hrest
    next hnone =>
      cases hrest
      refine ⟨ht, taken, v, h, le_rfl, le_rfl, fun x => ?_⟩
      simp [not_takes_of_none (hsearch.symm.trans hnone)]
    next n hfound =>
      obtain ⟨hn, hmatch, htouch⟩ := ht.neighbour_of_mem hv hfound
      rw [if_pos rfl] at htouch
      rw [hsearch] at hfound
      simp only [migrateAndReleaseVarea, hanswer, true_or] at hrest
      obtain ⟨hsame, hjoins, -⟩ := ht.migrate hn hv htouch hmatch h.matching (if_pos hanswer)
      obtain ⟨ht', taken', w', hfused', hlow, hhigh, htaken⟩ := ih (h.forward ht haligned hn htouch hmatch env)
        (ht.of_joins hsame hjoins) rfl hrest
      refine ⟨ht', taken', w', hfused', ?_, ?_, fun x => ?_⟩
      · unfold finish at htouch
        dsimp only at hlow
        omega
      · unfold finish at htouch hhigh ⊢
        dsimp only at hhigh
        omega
      · rw [htaken, takes_iff hfound, mem_cons, Nat.add_comm]
        simp only [if_true, or_assoc, or_left_comm]
    next n hfound =>
      obtain ⟨hn, hmatch, htouch⟩ := ht.neighbour_of_mem hv hfound
      rw [hsearch] at hfound
      simp only [migrateAndReleaseVarea, hanswer, true_or] at hrest
      obtain ⟨hsame, hjoins, -⟩ := ht.migrate hv hn htouch h.matching hmatch (if_pos hanswer)
      obtain ⟨ht', taken', w', hfused', hlow, hhigh, htaken⟩ := ih (h.backward ht hn htouch hmatch env)
        (ht.of_joins hsame hjoins) href hrest
      refine ⟨ht', taken', w', hfused', hlow, ?_, fun x => ?_⟩
      · unfold finish at hhigh ⊢
        dsimp only at hhigh
        omega
      · rw [htaken, takes_iff hfound, mem_append, mem_singleton]
        simp only [Bool.false_eq_true, if_false, or_assoc]

end

/-- The object of a request has the callbacks that growing and merging ask for. -/
structure Mergeable (env : Env) (m : ℕ) : Prop where
  expand : (env.object m).onVareaExpand = true
  merge : (env.object m).onVareaMerge = true

/-- Moving the start of a varea down moves its offset by as many pages. -/
theorem shiftOffset_of_ge (offset : ℕ) {oldVa newVa : ℕ} (hle : newVa ≤ oldVa) (hlt : oldVa < 2 ^ 64)
    (hhalf : oldVa - newVa ≤ 2 ^ 63) (hpages : (oldVa - newVa) % archPageSize = 0) :
    (shiftOffset offset oldVa newVa + (oldVa - newVa) / archPageSize) % 2 ^ 64 = offset % 2 ^ 64 := by
  have hsigned : signedWord (wordSub newVa oldVa) = -((oldVa - newVa : ℕ) : ℤ) := by
    unfold signedWord wordSub wordLimit
    rw [Int.bmod_def]
    split <;> omega
  unfold shiftOffset
  rw [hsigned]
  unfold archPageSize at *
  omega

/-- A varea grown over whole pages starts at a page and keeps its displacement. -/
theorem Expanded.sameShift (h : Expanded n va size w) (hn : n.Aligned) (hpages : size % archPageSize = 0)
    (hlt : n.start < 2 ^ 64) (hhalf : size ≤ 2 ^ 63) :
    w.SameShift n ∧ w.start % archPageSize = 0 ∧ va % archPageSize = 0 := by
  obtain ⟨hnstart, hnsize⟩ := hn
  cases h with
  | forward hfin =>
    refine ⟨?_, hnstart, ?_⟩
    · rw [Varea.SameShift, resized, if_pos rfl]
    · unfold finish archPageSize at *
      omega
  | backward hva =>
    have hva' : va % archPageSize = 0 := by
      unfold archPageSize at *
      omega
    refine ⟨?_, hva', hva'⟩
    rw [Varea.SameShift, resized]
    dsimp only
    split
    next heq =>
      rw [heq]
    · have hshift := shiftOffset_of_ge n.offset (show va ≤ n.start by omega) hlt (by omega)
        (by rw [hva]; simpa using hpages)
      unfold archPageSize at *
      omega

/-- Where the object agrees, `_try_expand_and_merge_okay` fuses the range with all vareas it takes. -/
theorem WellFormed.tryExpand_fused {fuel m : ℕ} {region : Option VareaRef} {forward : Bool}
    (h : WellFormed s) (hplaced : Placed s va size) (hva : 0 < va) (hsize : 0 < size)
    (hpages : size % archPageSize = 0) (hhalf : size ≤ 2 ^ 63) (haligned : ∀ v ∈ s.vareas, v.Aligned)
    (hyes : ∀ k, env.outcome k = true) (hobj : prop.memObj = some m) (hcallbacks : Mergeable env m)
    (hfound : s.findNeighbour va size prop = some (forward, n))
    (hrun : tryExpandAndMerge env fuel s va size prop = some (t, region)) :
    region ≠ none ∧ WellFormed t ∧ va % archPageSize = 0 ∧ ∃ taken w, Fused s t prop taken w ∧
      w.start ≤ va ∧ va + size ≤ w.finish ∧ ∀ x, x ∈ taken ↔ Takes s prop va size x := by
  obtain ⟨hn, hmatch, hexp⟩ := h.expanded_of_findNeighbour hplaced hva hsize hfound
  obtain ⟨front, back, hv⟩ := append_of_mem hn
  obtain ⟨hvareas, hwf⟩ := h.resize hplaced hva hsize hv hexp env
  have hobject : n.memObj = some m := hmatch.memObj_eq.trans hobj
  have hexpand : n.has env MemObj.onVareaExpand = true := by
    rw [has, hobject]
    exact hcallbacks.expand
  have hnlt : n.start < 2 ^ 64 := by
    have hspace := h.space_le
    obtain ⟨-, hnsize, hnfin⟩ := h.ordered.bounds n hn
    unfold finish at hnfin
    omega
  obtain ⟨hshift, hstart, hvapage⟩ := hexp.sameShift (haligned n hn) hpages hnlt hhalf
  have hregion := hexp.region.2.2.2.2
  have hwsize : wordAdd size n.size = size + n.size := by
    unfold finish at hregion
    have hfin : (n.resized (if forward then n.start else va) (wordAdd size n.size)).size =
      wordAdd size n.size := rfl
    omega
  rw [tryExpandAndMerge, hfound] at hrun
  dsimp only at hrun
  rw [expandVarea, if_pos hexpand, if_pos (show s.answer env = true from hyes _)] at hrun
  generalize hnew : (if forward then n.start else va) = newVa at *
  generalize s.ask.resize env n newVa (wordAdd size n.size) = t₀ at hrun hvareas hwf
  obtain ⟨w, hlookup, hrest⟩ := Option.bind_eq_some_iff.mp hrun
  rw [show n.ref = (n.resized newVa (wordAdd size n.size)).ref from rfl,
    Space.lookup_eq hvareas hwf.refs] at hlookup
  cases hlookup
  obtain ⟨⟨t₁, ref⟩, hmerge, ⟨⟩⟩ := Option.bind_eq_some_iff.mp hrest
  have hmergeable : (n.resized newVa (wordAdd size n.size)).has env MemObj.onVareaMerge = true := by
    rw [has, show (n.resized newVa (wordAdd size n.size)).memObj = some m from hobject]
    exact hcallbacks.merge
  rw [Aspace.mergeSurrounding, if_pos hmergeable] at hmerge
  have hfused : Fused s t₀.ask prop [n] (n.resized newVa (wordAdd size n.size)) := by
    refine ⟨⟨front, back, by simpa using hv, hvareas⟩, fun x hx => ?_, { hmatch with },
      fun x hx => mem_singleton.mp hx ▸ hmatch, hstart, n, by simp, hshift⟩
    rw [mem_singleton.mp hx]
    omega
  have hasked : WellFormed t₀.ask := hwf.of_vareas_eq ⟨rfl, rfl, le_rfl⟩ rfl
  obtain ⟨ht, taken, w, hfused', hlow, hhigh, htaken⟩ := hfused.mergeLoop h hasked haligned hyes rfl hmerge
  refine ⟨by simp, ht, hvapage, taken, w, hfused', ?_, ?_, fun x => ?_⟩
  · unfold finish at hregion
    omega
  · unfold finish at hregion hhigh ⊢
    omega
  · rw [htaken, takes_iff hfound, mem_singleton, hnew, ← hwsize]
    rfl

/-- `_varea_install` of a mapping that is not fixed: no place, a varea that is grown, or an insertion. -/
theorem vareaInstall_cases {fuel pva pva' : ℕ} {hint : Hint} {pvarea pvarea' : Option VareaRef} {err : Err}
    (hfixed : hint.flags.testBit mmfMapFixed = false)
    (hrun : vareaInstall env fuel s pvarea hint prop pva = some (t', pvarea', pva', err)) :
    s.findFree hint = 0 ∧ err = .enospc ∧ t' = s ∨ s.findFree hint ≠ 0 ∧ ∃ t region,
        tryExpandAndMerge env fuel s (s.findFree hint) hint.mapSize prop = some (t, region) ∧
        (region ≠ none ∧ t' = t ∧ pvarea' = region ∧ err = .eok ∧ pva' = s.findFree hint ∨
          region = none ∧ (err = .eok → pva' = s.findFree hint) ∧
            insertNewVarea t env pvarea (s.findFree hint) hint.mapSize prop = (t', pvarea', err)) := by
  unfold vareaInstall choosePlace at hrun
  simp only [hfixed, Bool.false_eq_true, if_false, Option.bind_eq_bind, Option.bind_some] at hrun
  split at hrun
  next hzero =>
    obtain ⟨rfl, -, -, rfl⟩ := hrun
    exact .inl ⟨hzero, rfl, rfl⟩
  next hplace =>
    obtain ⟨⟨t, region⟩, htry, hreturn⟩ := Option.bind_eq_some_iff.mp hrun
    refine .inr ⟨hplace, t, region, htry, ?_⟩
    cases region with
    | some ref =>
      obtain ⟨rfl, rfl, rfl, rfl⟩ := hreturn
      exact .inl ⟨by simp, rfl, rfl, rfl, rfl⟩
    | none =>
      generalize hinsert : insertNewVarea t env pvarea (s.findFree hint) hint.mapSize prop = r at hreturn
      obtain ⟨rfl, rfl, rfl, rfl⟩ := hreturn
      exact .inr ⟨rfl, fun hok => if_pos hok, rfl⟩

end RtThread.Aspace
