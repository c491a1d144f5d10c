import RtThread.Aspace.Unmap
import RtThread.Aspace.FindFree

/-!
# Installing a mapping

`_varea_install` grows a compatible neighbour over the chosen range and joins what then touches, or inserts
a new varea. Each join replaces two vareas that touch by one, so the address space stays laid out whatever
the objects answer.
-/

namespace RtThread.Aspace

open Lib List Option Varea Space

variable {low high va size : ℕ} {front back vareas vareas' : List Varea} {v w n : Varea}
  {s s' : Space} {env : Env} {prop : MapProp}
variable {err : Err} {fuel : ℕ} {l r : Varea} {ref : VareaRef}

/-- The varea has the object, attributes and flags of the request. -/
structure Varea.Matches (v : Varea) (prop : MapProp) : Prop where
  attr_eq : v.attr = prop.attr
  flag_eq : v.flag = prop.flags
  memObj_eq : v.memObj = prop.memObj

/-- A compatible varea matches the request. -/
theorem matches_of_compatible {mapSize : ℕ} (h : compatible v mapSize prop = true) : v.Matches prop := by
  unfold compatible at h
  simp only [decide_eq_true_eq] at h
  exact ⟨h.1.symm, h.2.1.symm, h.2.2.1.symm⟩

/-- A neighbour that is found is at the operand and compatible. -/
theorem findNeighbour_some {start : ℕ} {forward : Bool}
    (h : s.findNeighbour start size prop = some (forward, n)) :
    s.bstSearch (if forward then wordSub start 1 else wordAdd start size) = some n ∧
      compatible n size prop = true := by
  unfold findNeighbour at h
  split at h
  next m hm =>
    cases h
    simpa using filter_eq_some_iff.mp hm
  · obtain ⟨m, hm, ⟨⟩⟩ := map_eq_some_iff.mp h
    exact filter_eq_some_iff.mp hm

/-- The neighbour of a range that the other vareas leave free touches it. -/
theorem WellFormed.neighbour {forward : Bool} (h : WellFormed s) (hva : 0 < va) (hsize : 0 < size)
    (hle : va + size ≤ 2 ^ 64)
    (hout : ∀ x ∈ s.vareas, x.finish ≤ va ∨ va + size ≤ x.start ∨ x.start = va ∧ x.finish = va + size)
    (hfound : s.findNeighbour va size prop = some (forward, n)) :
    n ∈ s.vareas ∧ n.Matches prop ∧ if forward then n.finish = va else va + size = n.start := by
  obtain ⟨hsearch, hcompat⟩ := findNeighbour_some hfound
  obtain ⟨hn, hstart, hfin⟩ := h.search_some hsearch
  refine ⟨hn, matches_of_compatible hcompat, ?_⟩
  have hpos := h.positive n hn
  have hplace := hout n hn
  cases forward with
  | true =>
    rw [if_pos rfl, wordSub_of_le hva (by omega)] at hstart hfin
    rw [if_pos rfl]
    omega
  | false =>
    simp only [Bool.false_eq_true, if_false, wordAdd, wordLimit] at hstart hfin ⊢
    omega

/-- The neighbour of a varea touches it. -/
theorem WellFormed.neighbour_of_mem {forward : Bool} (h : WellFormed s) (hv : v ∈ s.vareas)
    (hfound : s.findNeighbour v.start v.size prop = some (forward, n)) :
    n ∈ s.vareas ∧ n.Matches prop ∧ if forward then n.finish = v.start else v.finish = n.start := by
  obtain ⟨-, hsize, hfin⟩ := h.ordered.bounds v hv
  refine h.neighbour (h.positive v hv) hsize (hfin.trans h.space_le) (fun x hx => ?_) hfound
  rcases h.ordered.apart hx hv with rfl | hle | hle
  exacts [.inr (.inr ⟨rfl, rfl⟩), .inl hle, .inr (.inl hle)]

/-- A varea of a layout, with what is around it, is next to a free range. -/
inductive Expanded (n : Varea) (va size : ℕ) : Varea → Prop where
  | forward : n.finish = va → Expanded n va size (n.resized n.start (size + n.size))
  | backward : n.start = va + size → Expanded n va size (n.resized va (size + n.size))

/-- The region of an expanded varea. -/
theorem Expanded.region (h : Expanded n va size w) :
    w.ref = n.ref ∧ w.attr = n.attr ∧ w.flag = n.flag ∧ w.memObj = n.memObj ∧
      (w.start = n.start ∧ w.finish = va + size ∧ n.finish = va ∨
        w.start = va ∧ w.finish = n.finish ∧ n.start = va + size) := by
  cases h with
  | forward hfin =>
    refine ⟨rfl, rfl, rfl, rfl, .inl ⟨rfl, ?_, hfin⟩⟩
    rw [resized_finish]
    unfold finish at hfin
    omega
  | backward hstart =>
    refine ⟨rfl, rfl, rfl, rfl, .inr ⟨rfl, ?_, hstart⟩⟩
    rw [resized_finish, finish]
    omega

/-- A varea grown over a free range next to it. -/
theorem Ordered.expand (h : Ordered low high (front ++ n :: back)) (hexp : Expanded n va size w)
    (hfree : Free (front ++ n :: back) va size) (hsize : 0 < size) (hlow : low ≤ va)
    (hhigh : va + size ≤ high) :
    Ordered low high (front ++ w :: back) ∧ (∀ a ∈ front, a.finish ≤ w.start) ∧
      ∀ b ∈ back, w.finish ≤ b.start := by
  obtain ⟨hbefore, hbehind, -, hnlow, hnsize, hnhigh⟩ := h.around
  have hregion := hexp.region.2.2.2.2
  have hfront : ∀ a ∈ front, a.finish ≤ w.start := by
    intro a ha
    have hle := hbefore a ha
    have hout := hfree a (by simp [ha])
    obtain ⟨-, hasize, -⟩ := h.bounds a (by simp [ha])
    unfold finish at *
    omega
  have hback : ∀ b ∈ back, w.finish ≤ b.start := by
    intro b hb
    have hle := hbehind b hb
    have hout := hfree b (by simp [hb])
    obtain ⟨-, hbsize, -⟩ := h.bounds b (by simp [hb])
    unfold finish at *
    omega
  refine ⟨Ordered.put [n] (by simpa using h) ?_ hfront hback, hfront, hback⟩
  unfold finish at *
  omega

/-- The joins of vareas that touch and match the request. -/
inductive Joins (prop : MapProp) : List Varea → List Varea → Prop where
  | refl (vareas : List Varea) : Joins prop vareas vareas
  | step {front back vareas' : List Varea} {l r : Varea} : l.finish = r.start → l.Matches prop →
      r.Matches prop → Joins prop (front ++ { l with size := l.size + r.size } :: back) vareas' →
      Joins prop (front ++ l :: r :: back) vareas'

/-- Two vareas that touch end together where the second one ends. -/
theorem Varea.finish_join (htouch : l.finish = r.start) :
    Varea.finish { l with size := l.size + r.size } = r.finish := by
  unfold finish at htouch ⊢
  dsimp only
  omega

theorem Ordered.join (h : Ordered low high (front ++ l :: r :: back)) (htouch : l.finish = r.start) :
    Ordered low high (front ++ { l with size := l.size + r.size } :: back) := by
  obtain ⟨hbefore, hbehind, -, hlow, hlsize, -⟩ := h.around
  have hr : Ordered low high ((front ++ [l]) ++ r :: back) := by simpa using h
  obtain ⟨-, hrbehind, -, -, hrsize, hrhigh⟩ := hr.around
  have hfinish := finish_join htouch
  refine Ordered.put [l, r] (by simpa using h) ⟨hlow, by dsimp only; omega, hfinish ▸ hrhigh⟩ hbefore ?_
  rw [hfinish]
  exact hrbehind

section

variable (h : Joins prop vareas vareas')
include h

theorem Joins.ordered (hordered : Ordered low high vareas) : Ordered low high vareas' := by
  induction h with
  | refl => exact hordered
  | step htouch _ _ _ ih => exact ih (hordered.join htouch)

/-- Joins only drop records. -/
theorem Joins.refs : (vareas'.map Varea.ref).Sublist (vareas.map Varea.ref) := by
  induction h with
  | refl => exact List.Sublist.refl _
  | step _ _ _ _ ih =>
    refine ih.trans ?_
    rw [map_append, map_append, map_cons, map_cons]
    exact (List.Sublist.refl _).append ((sublist_cons_self _ _).cons_cons _)

/-- Joins leave every start at or above one that was there. -/
theorem Joins.positive (hpos : ∀ v ∈ vareas, 0 < v.start) : ∀ v ∈ vareas', 0 < v.start := by
  induction h with
  | refl => exact hpos
  | @step front back _ l r _ _ _ _ ih =>
    refine ih fun v hv => ?_
    simp only [mem_append, mem_cons] at hv
    rcases hv with hv | rfl | hv
    exacts [hpos v (by simp [hv]), hpos l (by simp), hpos v (by simp [hv])]

theorem Joins.trans {vareas'' : List Varea}
    (h' : Joins prop vareas' vareas'') : Joins prop vareas vareas'' := by
  induction h with
  | refl => exact h'
  | step htouch hl hr _ ih => exact .step htouch hl hr (ih h')

end

/-- An address space after joins. -/
theorem WellFormed.of_joins (h : WellFormed s) (hsame : SameSpace s s')
    (hjoins : Joins prop s.vareas s'.vareas) : WellFormed s' := by
  refine ⟨⟨?_, hjoins.refs.nodup h.refs, fun v hv n hn => ?_, ?_⟩, hjoins.positive h.positive⟩
  · rw [hsame.start_eq, hsame.size_eq]
    exact hjoins.ordered h.ordered
  · obtain ⟨w, hw, href⟩ := mem_map.mp (hjoins.refs.subset (mem_map_of_mem hv))
    exact (h.created w hw n (href.trans hn)).trans_le hsame.created_le
  · rw [hsame.start_eq, hsame.size_eq]
    exact h.space_le

/-- A varea that ends where another starts is the one in front of it. -/
theorem Ordered.predecessor (h : Ordered low high (front ++ v :: back)) (hn : n ∈ front ++ v :: back)
    (hfin : n.finish = v.start) : ∃ front', front = front' ++ [n] := by
  obtain ⟨hbefore, hbehind, -, -, hvsize, -⟩ := h.around
  have hmem : n ∈ front := by
    rcases mem_append.mp hn with hn | hn
    · exact hn
    · rcases mem_cons.mp hn with rfl | hn
      · unfold finish at hfin
        omega
      · have hle := hbehind n hn
        unfold finish at hfin hle
        omega
  obtain ⟨front', rest, rfl⟩ := append_of_mem hmem
  have hinner : Ordered low high (front' ++ n :: (rest ++ v :: back)) := by simpa using h
  obtain rfl : rest = [] := by
    refine eq_nil_iff_forall_not_mem.mpr fun x hx => ?_
    have hge := hinner.around.2.1 x (by simp [hx])
    have hle := hbefore x (by simp [hx])
    obtain ⟨-, hxsize, -⟩ := h.bounds x (by simp [hx])
    unfold finish at hle hge hfin
    omega
  exact ⟨front', rfl⟩

/-- Two vareas that touch are neighbours in the list. -/
theorem Ordered.touch (h : Ordered low high vareas) (hl : l ∈ vareas) (hr : r ∈ vareas)
    (htouch : l.finish = r.start) : ∃ front back, vareas = front ++ l :: r :: back := by
  obtain ⟨front, back, rfl⟩ := append_of_mem hr
  obtain ⟨front', rfl⟩ := h.predecessor hl htouch
  exact ⟨front', back, by simp⟩

/-- `_migrate_and_release_varea` on two neighbours whose object agrees. -/
theorem WellFormed.migrate_vareas (h : WellFormed s) (hv : s.vareas = front ++ l :: r :: back)
    (htouch : l.finish = r.start) (env : Env) :
    ((s.ask.bstRemove env r.ref).replace { l with size := wordAdd l.size r.size }).vareas =
      front ++ { l with size := l.size + r.size } :: back := by
  have hspace := h.space_le
  obtain ⟨-, hrsize, hrfin⟩ := h.ordered.bounds r (by simp [hv])
  have hsum : wordAdd l.size r.size = l.size + r.size := wordAdd_of_lt (by
    have hpos := h.positive l (by simp [hv])
    unfold finish at htouch hrfin
    omega)
  have hremoved : (s.ask.bstRemove env r.ref).vareas = front ++ l :: back := by
    have hv' : s.ask.vareas = (front ++ [l]) ++ r :: back := by
      rw [append_assoc]
      exact hv
    rw [vareas_bstRemove env hv' h.refs]
    simp
  have hrefs : ((s.ask.bstRemove env r.ref).vareas.map ref).Nodup := by
    have hold := h.refs
    rw [hv] at hold
    rw [hremoved]
    refine List.Nodup.sublist ?_ hold
    exact ((List.Sublist.refl front).append ((sublist_cons_self r back).cons_cons l)).map _
  rw [hsum]
  exact vareas_replace hremoved hrefs rfl

/-- `_migrate_and_release_varea` joins two vareas that touch, or changes nothing. -/
theorem WellFormed.migrate {merged : Bool} (h : WellFormed s) (hl : l ∈ s.vareas)
    (hr : r ∈ s.vareas) (htouch : l.finish = r.start) (hlm : l.Matches prop) (hrm : r.Matches prop)
    (hrun : migrateAndReleaseVarea s env l r = (s', merged)) :
    SameSpace s s' ∧ Joins prop s.vareas s'.vareas ∧ ∃ w ∈ s'.vareas, w.ref = l.ref ∧ w.Matches prop := by
  unfold migrateAndReleaseVarea at hrun
  split at hrun
  · cases hrun
    obtain ⟨front, back, hv⟩ := h.ordered.touch hl hr htouch
    have hjoined := h.migrate_vareas hv htouch env
    refine ⟨⟨rfl, rfl, le_rfl⟩, ?_, { l with size := l.size + r.size }, ?_, rfl, { hlm with }⟩
    · rw [hjoined, hv]
      exact .step htouch hlm hrm (.refl _)
    · rw [hjoined]
      simp
  · cases hrun
    exact ⟨⟨rfl, rfl, le_rfl⟩, .refl _, l, hl, rfl, hlm⟩

/-- The loop of `_merge_surrounding` joins vareas around its operand. -/
theorem WellFormed.mergeLoop {ref' : VareaRef} {again : Bool} (h : WellFormed s)
    (hoperand : ∀ v ∈ s.vareas, v.ref = ref → v.Matches prop)
    (hrun : mergeLoop env prop fuel s ref again = some (s', ref')) :
    SameSpace s s' ∧ Joins prop s.vareas s'.vareas ∧ ∃ w ∈ s'.vareas, w.ref = ref' := by
  induction fuel generalizing s ref again with
  | zero => cases hrun
  | succ fuel ih =>
    obtain ⟨v, hlookup, hrest⟩ := bind_eq_some_iff.mp hrun
    obtain ⟨hv, rfl⟩ := lookup_some hlookup
    have hmatch := hoperand v hv rfl
    -- what the rest of the loop does after the target `l` took over `r`
    have hcontinue : ∀ {l r : Varea} {t : Space} {merged : Bool}, l ∈ s.vareas → r ∈ s.vareas →
        l.finish = r.start → l.Matches prop → r.Matches prop →
        migrateAndReleaseVarea s env l r = (t, merged) →
        (if merged = true ∨ again = true then Aspace.mergeLoop env prop fuel t l.ref true
          else some (t, l.ref)) = some (s', ref') →
        SameSpace s s' ∧ Joins prop s.vareas s'.vareas ∧ ∃ w ∈ s'.vareas, w.ref = ref' := by
      intro l r t merged hl hr htouch hlm hrm hmigrate hnext
      obtain ⟨hsame, hjoins, w, hw, href, hwm⟩ := h.migrate hl hr htouch hlm hrm hmigrate
      have ht := h.of_joins hsame hjoins
      split at hnext
      · have hunique : ∀ x ∈ t.vareas, x.ref = l.ref → x.Matches prop := by
          intro x hx hxref
          obtain rfl : x = w := inj_on_of_nodup_map ht.refs hx hw (hxref.trans href.symm)
          exact hwm
        obtain ⟨hsame', hjoins', hfound⟩ := ih ht hunique hnext
        exact ⟨hsame.trans hsame', hjoins.trans hjoins', hfound⟩
      · cases hnext
        exact ⟨hsame, hjoins, w, hw, href⟩
    split at hrest
    · cases hrest
      exact ⟨SameSpace.refl _, .refl _, v, hv, rfl⟩
    next n hfound =>
      obtain ⟨hn, hnm, htouch⟩ := h.neighbour_of_mem hv hfound
      exact hcontinue hn hv htouch hnm hmatch rfl hrest
    next n hfound =>
      obtain ⟨hn, hnm, htouch⟩ := h.neighbour_of_mem hv hfound
      exact hcontinue hv hn htouch hmatch hnm rfl hrest

/-- `_merge_surrounding` joins vareas around its operand. -/
theorem WellFormed.mergeSurrounding (h : WellFormed s) (hv : v ∈ s.vareas)
    (hmatch : v.Matches prop) (hrun : mergeSurrounding env fuel s v prop = some (s', ref)) :
    SameSpace s s' ∧ Joins prop s.vareas s'.vareas ∧ ∃ w ∈ s'.vareas, w.ref = ref := by
  unfold Aspace.mergeSurrounding at hrun
  split at hrun
  · have hask : WellFormed s.ask := h.of_vareas_eq ⟨rfl, rfl, le_rfl⟩ rfl
    have hunique : ∀ x ∈ s.ask.vareas, x.ref = v.ref → x.Matches prop := by
      intro x hx href
      obtain rfl : x = v := inj_on_of_nodup_map h.refs hx hv href
      exact hmatch
    obtain ⟨hsame, hjoins, hmem⟩ := hask.mergeLoop hunique hrun
    exact ⟨{ hsame with }, hjoins, hmem⟩
  · cases hrun
    exact ⟨SameSpace.refl _, .refl _, v, hv, rfl⟩

/-- What `_try_expand_and_merge_okay` did to a list of vareas: it grew one over the range and joined. -/
inductive Absorbed (prop : MapProp) (va size : ℕ) : List Varea → List Varea → Prop where
  | intro {front back vareas' : List Varea} {n w : Varea} : n.Matches prop → Expanded n va size w →
      Joins prop (front ++ w :: back) vareas' → Absorbed prop va size (front ++ n :: back) vareas'

section

variable (h : WellFormed s) (hplaced : Placed s va size) (hva : 0 < va) (hsize : 0 < size)
include h hplaced hva hsize

/-- The neighbour of a free range, and its region after the expansion. -/
theorem WellFormed.expanded_of_findNeighbour {forward : Bool}
    (hfound : s.findNeighbour va size prop = some (forward, n)) : n ∈ s.vareas ∧ n.Matches prop ∧
      Expanded n va size (n.resized (if forward then n.start else va) (wordAdd size n.size)) := by
  have hspace := h.space_le
  have hhigh := hplaced.high
  obtain ⟨hn, hmatch, htouch⟩ := h.neighbour hva hsize (by omega)
    (fun x hx => (hplaced.free x hx).imp_right .inl) hfound
  have hpos := h.positive n hn
  have hfin := (h.ordered.bounds n hn).2.2
  refine ⟨hn, hmatch, ?_⟩
  cases forward with
  | true =>
    rw [wordAdd_of_lt (by simp only [if_true, finish] at htouch; omega)]
    exact .forward htouch
  | false =>
    rw [wordAdd_of_lt (by
      simp only [Bool.false_eq_true, if_false, finish] at htouch hfin
      omega)]
    exact .backward htouch.symm

/-- The address space with a varea grown over a free range. -/
theorem WellFormed.resize (hv : s.vareas = front ++ n :: back) {newVa newSize : ℕ}
    (hexp : Expanded n va size (n.resized newVa newSize)) (env : Env) :
    (s.ask.resize env n newVa newSize).vareas = front ++ n.resized newVa newSize :: back ∧
      WellFormed (s.ask.resize env n newVa newSize) := by
  have hordered := h.ordered
  have hfree := hplaced.free
  rw [hv] at hordered hfree
  obtain ⟨hnew, hfront, hback⟩ := hordered.expand hexp hfree hsize hplaced.low hplaced.high
  have hregion := hexp.region.2.2.2.2
  rw [resized_start] at hfront
  have hsame := s.ask.resize_same env n newVa newSize
  have hvareas : (s.ask.resize env n newVa newSize).vareas = front ++ n.resized newVa newSize :: back := by
    refine vareas_resize env hv h.refs (fun a ha => ?_) fun b hb => ?_
    · have hle := hfront a ha
      obtain ⟨-, hasize, -⟩ := hordered.bounds a (by simp [ha])
      unfold finish at hle
      omega
    · have hle := hback b hb
      obtain ⟨-, hwsize, -⟩ := hnew.bounds (n.resized newVa newSize) (by simp)
      unfold finish at hle
      rw [resized_start] at hle
      omega
  have hspliced : (s.ask.resize env n newVa newSize).vareas =
      front ++ [n.resized newVa newSize] ++ back := by simpa using hvareas
  refine ⟨hvareas, h.of_splice hv { hsame with } hspliced (hvareas ▸ hnew)
    (by simp) (by simp), fun v hmem => ?_⟩
  rcases mem_splice n (hspliced ▸ hmem) with hmem | hmem
  · have hnpos := h.positive n (by simp [hv])
    rw [mem_singleton.mp hmem]
    omega
  · exact h.positive v (hv ▸ hmem)

/-- `_try_expand_and_merge_okay` on a free range grows a neighbour and joins, or changes nothing. -/
theorem WellFormed.tryExpand {region : Option VareaRef}
    (hrun : tryExpandAndMerge env fuel s va size prop = some (s', region)) :
    SameSpace s s' ∧ WellFormed s' ∧ ((region = none ∧ s'.vareas = s.vareas) ∨
        ∃ ref, region = some ref ∧ (∃ w ∈ s'.vareas, w.ref = ref) ∧
          Absorbed prop va size s.vareas s'.vareas) := by
  unfold tryExpandAndMerge at hrun
  split at hrun
  · cases hrun
    exact ⟨SameSpace.refl _, h, .inl ⟨rfl, rfl⟩⟩
  next forward n hfound =>
    obtain ⟨hn, hmatch, hexp⟩ := h.expanded_of_findNeighbour hplaced hva hsize hfound
    obtain ⟨front, back, hv⟩ := append_of_mem hn
    obtain ⟨hvareas, hwf⟩ := h.resize hplaced hva hsize hv hexp env
    dsimp only at hrun
    generalize hnew : (if forward then n.start else va) = newVa at hrun hexp hvareas hwf
    rcases resize_or_refused s env n newVa (wordAdd size n.size) (n.has env MemObj.onVareaExpand)
      (rfl : expandVarea s env n newVa _ = _) with heq | hrefused
    · rw [heq] at hrun
      have hsame : SameSpace s (s.ask.resize env n newVa (wordAdd size n.size)) :=
        { s.ask.resize_same env n newVa (wordAdd size n.size) with }
      obtain ⟨w, hlookup, hrest⟩ := bind_eq_some_iff.mp hrun
      rw [show n.ref = (n.resized newVa (wordAdd size n.size)).ref from rfl,
        lookup_eq hvareas hwf.refs] at hlookup
      cases hlookup
      obtain ⟨⟨s₁, ref⟩, hmerge, ⟨⟩⟩ := bind_eq_some_iff.mp hrest
      have hresized : (n.resized newVa (wordAdd size n.size)).Matches prop := { hmatch with }
      obtain ⟨hsame', hjoins, hmem⟩ := hwf.mergeSurrounding (by rw [hvareas]; simp) hresized hmerge
      refine ⟨hsame.trans hsame', hwf.of_joins hsame' hjoins, .inr ⟨ref, rfl, hmem, ?_⟩⟩
      rw [hv]
      rw [hvareas] at hjoins
      exact .intro hmatch hexp hjoins
    · generalize expandVarea s env n newVa (wordAdd size n.size) = r at hrun hrefused
      obtain ⟨t, err⟩ := r
      have hstop : some (t, none) = some (s', region) := by
        cases err <;> first | exact hrun | exact absurd rfl hrefused.failed
      cases hstop
      exact ⟨hrefused.toSameSpace, h.of_vareas_eq hrefused.toSameSpace hrefused.vareas_eq,
        .inl ⟨rfl, hrefused.vareas_eq⟩⟩

/-- A record that no varea of the address space has, nor one that it creates from now on. -/
def Fresh (s : Space) (ref : VareaRef) : Prop :=
  (∀ v ∈ s.vareas, v.ref ≠ ref) ∧ ∀ m, ref = .created m → m < s.created

/-- The new varea of a request. -/
def MapProp.varea (prop : MapProp) (ref : VareaRef) (start size : ℕ) : Varea where
  ref := ref
  start := start
  size := size
  offset := prop.offset
  attr := prop.attr
  flag := prop.flags
  memObj := prop.memObj

/-- Inserting a fresh record on a free range. -/
theorem WellFormed.insert (hfresh : Fresh s ref) (env : Env) (prop : MapProp) :
    ∃ front back, s.vareas = front ++ back ∧
      (s.bstInsert env (prop.varea ref va size)).vareas = front ++ prop.varea ref va size :: back ∧
      WellFormed (s.bstInsert env (prop.varea ref va size)) := by
  obtain ⟨front, back, hv, hfront, hback⟩ := h.ordered.split_free hplaced.free
  have hordered := h.ordered
  have hrefs := h.refs
  rw [hv] at hordered hrefs
  have hvareas : (s.bstInsert env (prop.varea ref va size)).vareas =
      front ++ prop.varea ref va size :: back := by
    refine vareas_bstInsert env hv (fun a ha => ?_) fun b hb => ?_
    · have hle := hfront a ha
      obtain ⟨-, hasize, -⟩ := hordered.bounds a (by simp [ha])
      unfold finish at hle
      change a.start < va
      omega
    · have hle := hback b hb
      change va < b.start
      omega
  have hcases : ∀ v ∈ (s.bstInsert env (prop.varea ref va size)).vareas,
      v = prop.varea ref va size ∨ v ∈ s.vareas := by
    rw [hvareas, hv]
    simp only [mem_append, mem_cons]
    tauto
  refine ⟨front, back, hv, hvareas, ⟨?_, ?_, fun v hmem m hm => ?_, h.space_le⟩, fun v hmem => ?_⟩
  · rw [hvareas]
    exact Ordered.put [] ((append_nil front).symm ▸ hordered) ⟨hplaced.low, hsize, hplaced.high⟩ hfront hback
  · rw [hvareas, map_append]
    rw [map_append] at hrefs
    refine (nodup_middle).mpr (nodup_cons.mpr ⟨?_, hrefs⟩)
    rw [← map_append, ← hv]
    intro hmem
    obtain ⟨x, hx, href⟩ := mem_map.mp hmem
    exact hfresh.1 x hx href
  · rcases hcases v hmem with rfl | hold
    · exact hfresh.2 m hm
    · exact h.created v hold m hm
  · rcases hcases v hmem with rfl | hold
    · exact hva
    · exact h.positive v hold

/-- `_insert_new_varea` inserts the new varea, or has no record and changes nothing. -/
theorem WellFormed.insertNew {pvarea pvarea' : Option VareaRef}
    (hfresh : ∀ ref, pvarea = some ref → Fresh s ref)
    (hrun : insertNewVarea s env pvarea va size prop = (s', pvarea', err)) :
    SameSpace s s' ∧ WellFormed s' ∧ ((err = .enomem ∧ s'.vareas = s.vareas) ∨
        ∃ ref front back, err = .eok ∧ pvarea' = some ref ∧ s.vareas = front ++ back ∧
          s'.vareas = front ++ prop.varea ref va size :: back) := by
  have hplace : ∀ {t : Space} {ref : VareaRef}, WellFormed t → t.vareas = s.vareas → SameSpace s t →
      Fresh t ref → (t.bstInsert env (prop.varea ref va size), some ref, Err.eok) = (s', pvarea', err) →
      SameSpace s s' ∧ WellFormed s' ∧ ((err = .enomem ∧ s'.vareas = s.vareas) ∨
        ∃ ref front back, err = .eok ∧ pvarea' = some ref ∧ s.vareas = front ++ back ∧
          s'.vareas = front ++ prop.varea ref va size :: back) := by
    intro t ref ht hvareas hsame hfr heq
    have hplaced' : Placed t va size :=
      ⟨hvareas ▸ hplaced.free, hsame.start_eq ▸ hplaced.low, by
        simpa only [hsame.start_eq, hsame.size_eq] using hplaced.high⟩
    obtain ⟨front, back, hv, hnew, hwf⟩ := ht.insert hplaced' hva hsize hfr env prop
    obtain ⟨rfl, ⟨⟩⟩ := Prod.mk.inj heq
    exact ⟨{ hsame with }, hwf, .inr ⟨ref, front, back, rfl, rfl, hvareas ▸ hv, hnew⟩⟩
  cases pvarea with
  | some ref => exact hplace h rfl (SameSpace.refl s) (hfresh ref rfl) hrun
  | none =>
    rcases hanswer : s.answer env with _ | _
    swap
    · simp only [insertNewVarea, vareaCreate, hanswer] at hrun
      have hsame : SameSpace s { s.ask with created := s.created + 1 } := ⟨rfl, rfl, Nat.le_succ _⟩
      refine hplace (h.of_vareas_eq hsame rfl) rfl hsame ⟨?_, ?_⟩ hrun
      · exact fun v hv href => absurd (h.created v hv _ href) (lt_irrefl _)
      · rintro m ⟨⟩
        exact Nat.lt_succ_self _
    · simp only [insertNewVarea, vareaCreate, hanswer, if_false] at hrun
      obtain ⟨rfl, ⟨⟩⟩ := Prod.mk.inj hrun
      exact ⟨⟨rfl, rfl, le_rfl⟩, h.of_vareas_eq ⟨rfl, rfl, le_rfl⟩ rfl, .inl ⟨rfl, rfl⟩⟩

end

/-- A fresh record stays fresh where the address space is trimmed. -/
theorem Fresh.of_trimmed (h : Fresh s ref) (htrim : Trimmed s s') : Fresh s' ref := by
  refine ⟨fun w hw href => ?_, fun m hm => (h.2 m hm).trans_le htrim.created_le⟩
  rcases htrim.refs w hw with ⟨v, hv, hvw⟩ | ⟨m, hm, hwm⟩
  · exact h.1 v hv (hvw.trans href)
  · exact absurd (h.2 m (href.symm.trans hwm)) (by omega)

/-- The place of a mapping is safe to choose: a fixed one lies inside the address space and what is there
can be unmapped, any other comes from a plain hint. -/
structure Hint.Safe (hint : Hint) (env : Env) (fuel : ℕ) (s : Space) : Prop where
  size_pos : 0 < hint.mapSize
  size_le : hint.mapSize ≤ s.size
  fixed : hint.flags.testBit mmfMapFixed = true →
    (hint.prefer = 0 ∨ s.start ≤ hint.prefer ∧ hint.prefer + hint.mapSize ≤ s.start + s.size) ∧
      ∀ s' err, unmapRangeLocked env hint.prefer hint.mapSize fuel s = some (s', err) → err = .eok
  plain : hint.flags.testBit mmfMapFixed = false → hint.Plain s

/-- A place that is chosen is free. -/
theorem WellFormed.choosePlace {hint : Hint} (h : WellFormed s)
    (hend : s.start + s.size < 2 ^ 64) (hhalf : s.size < 2 ^ 63) (hsafe : hint.Safe env fuel s)
    (hrun : choosePlace env fuel s hint = some (s', va, err)) :
    Trimmed s s' ∧ (va ≠ 0 → err = .eok ∧ Placed s' va hint.mapSize) := by
  unfold Aspace.choosePlace at hrun
  split at hrun
  next hfixed =>
    obtain ⟨hprefer, hok⟩ := hsafe.fixed hfixed
    have hpos := hsafe.size_pos
    have hle := hsafe.size_le
    obtain ⟨⟨t, code⟩, hunmap, hreturn⟩ := bind_eq_some_iff.mp hrun
    obtain ⟨rfl, ⟨⟩⟩ := Prod.mk.inj (some.inj hreturn)
    obtain ⟨htrim, hfree⟩ := h.toLaid.unmapRange hend (by omega) (by omega) hunmap
    refine ⟨htrim, fun hne => ?_⟩
    obtain ⟨hlow, hhigh⟩ := hprefer.resolve_left hne
    have herr := hok _ _ hunmap
    exact ⟨herr, hfree herr, htrim.start_eq.trans_le hlow, by rwa [htrim.start_eq, htrim.size_eq]⟩
  next hfixed =>
    obtain ⟨rfl, ⟨⟩⟩ := Prod.mk.inj (some.inj hrun)
    refine ⟨.of_vareas_eq h.toLaid (SameSpace.refl _) rfl, fun hne => ⟨if_neg hne, ?_⟩⟩
    exact h.findFree_spec hhalf (hsafe.plain (by simpa using hfixed)) hsafe.size_pos hne

/-- `_varea_install` on a safe place keeps the address space well formed. -/
theorem WellFormed.install {pva pva' : ℕ} {hint : Hint} {pvarea pvarea' : Option VareaRef}
    (h : WellFormed s) (hend : s.start + s.size < 2 ^ 64) (hhalf : s.size < 2 ^ 63)
    (hsafe : hint.Safe env fuel s) (hfresh : ∀ ref, pvarea = some ref → Fresh s ref)
    (hrun : vareaInstall env fuel s pvarea hint prop pva = some (s', pvarea', pva', err)) :
    WellFormed s' := by
  obtain ⟨⟨t, va, code⟩, hchoose, hrest⟩ := bind_eq_some_iff.mp hrun
  obtain ⟨htrim, hplaced⟩ := h.choosePlace hend hhalf hsafe hchoose
  have ht := h.of_trimmed htrim
  dsimp only at hrest
  split at hrest
  · cases hrest
    exact ht
  next hne =>
    obtain ⟨rfl, hplace⟩ := hplaced hne
    obtain ⟨⟨t', region⟩, htry, hreturn⟩ := bind_eq_some_iff.mp hrest
    obtain ⟨hsame', ht', hcases⟩ := ht.tryExpand hplace (Nat.pos_of_ne_zero hne) hsafe.size_pos htry
    rcases hcases with ⟨rfl, hvareas⟩ | ⟨ref, rfl, -, -⟩
    · generalize hinsert : insertNewVarea t' env pvarea va hint.mapSize prop = inserted at hreturn
      have hplace' : Placed t' va hint.mapSize :=
        ⟨hvareas ▸ hplace.free, hsame'.start_eq ▸ hplace.low, by
          rw [hsame'.start_eq, hsame'.size_eq]
          exact hplace.high⟩
      have hfresh' : ∀ ref, pvarea = some ref → Fresh t' ref := fun ref href =>
        ((hfresh ref href).of_trimmed htrim).of_trimmed (.of_vareas_eq ht.toLaid hsame' hvareas)
      obtain ⟨-, ht'', -⟩ := ht'.insertNew hplace' (Nat.pos_of_ne_zero hne) hsafe.size_pos hfresh' hinsert
      obtain ⟨rfl, -⟩ := Prod.mk.inj (some.inj hreturn)
      exact ht''
    · obtain ⟨rfl, -⟩ := Prod.mk.inj (some.inj hreturn)
      exact ht'

end RtThread.Aspace
