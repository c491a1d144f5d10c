import RtThread.Aspace.Layout

/-!
# Unmapping a range

`_unmap_range_locked` picks an overlapping varea as long as there is one, and cuts the range out of it.
One cut replaces the varea by what is left of it in front of the range and behind it; the number of
overlapping vareas falls with each cut. The end of a range or of a varea that is `2 ^ 64` wraps to zero in
the comparisons, so the rules below are for address spaces that end before it.
-/

namespace RtThread.Aspace

open Lib List Varea

variable {low high first bound : ℕ} {front back mid : List Varea} {v w : Varea} {s s' : Space} {env : Env}
variable {length size start : ℕ} {pieces : List Varea}

/-- What a change of the tree keeps. -/
structure SameSpace (s s' : Space) : Prop where
  start_eq : s'.start = s.start
  size_eq : s'.size = s.size
  created_le : s.created ≤ s'.created

theorem SameSpace.refl (s : Space) : SameSpace s s := ⟨rfl, rfl, le_rfl⟩

theorem SameSpace.trans {s'' : Space} (h : SameSpace s s') (h' : SameSpace s' s'') : SameSpace s s'' :=
  ⟨h'.start_eq.trans h.start_eq, h'.size_eq.trans h.size_eq, h.created_le.trans h'.created_le⟩

/-- A new size and start keep the space. -/
theorem Space.resize_same (s : Space) (env : Env) (v : Varea) (newVa size : ℕ) :
    SameSpace s (s.resize env v newVa size) := by
  unfold Space.resize
  split <;> exact ⟨rfl, rfl, le_rfl⟩

/-- What is left of a varea when the range from `first` up to `bound` is cut out of it. -/
inductive Cut (v : Varea) (first bound : ℕ) : List Varea → Prop where
  | whole : first ≤ v.start → v.finish ≤ bound → Cut v first bound []
  | front : v.start < first → v.finish ≤ bound →
      Cut v first bound [v.resized v.start (first - v.start)]
  | back : first ≤ v.start → bound < v.finish → Cut v first bound [v.resized bound (v.finish - bound)]
  | middle (ref : VareaRef) : v.start < first → bound < v.finish →
      Cut v first bound [v.resized v.start (first - v.start), v.subset ref v.finish bound]

/-- The object of a varea has the callback that a cut needs. -/
structure Cuttable (env : Env) (first bound : ℕ) (v : Varea) : Prop where
  split : v.start < first → bound < v.finish → v.has env MemObj.onVareaSplit = true
  shrink_front : v.start < first → v.finish ≤ bound → v.has env MemObj.onVareaShrink = true
  shrink_back : first ≤ v.start → bound < v.finish → v.has env MemObj.onVareaShrink = true

/-- The varea overlaps the range, or the place of an empty range lies inside it. -/
def Varea.Overlaps (v : Varea) (first bound : ℕ) : Prop := first < v.finish ∧ v.start < bound

/-- An error with the vareas as they were. -/
structure Refused (s : Space) (r : Space × Err) : Prop extends SameSpace s r.1 where
  failed : r.2 ≠ .eok
  vareas_eq : r.1.vareas = s.vareas

/-- A shrink that the object allows. -/
theorem shrinkVarea_of_has {newVa : ℕ} (hhas : v.has env MemObj.onVareaShrink = true)
    (hanswer : s.answer env = true) :
    shrinkVarea s env v newVa size = (s.ask.resize env v newVa size, .eok) := by
  rw [shrinkVarea, if_pos hhas, if_pos hanswer]

/-- A callback for a new size: the varea is resized or nothing changes. -/
theorem resize_or_refused (s : Space) (env : Env) (v : Varea) (newVa size : ℕ) (has : Bool) {r : Space × Err}
    (hr : r = if has then if s.answer env then (s.ask.resize env v newVa size, .eok) else (s.ask, .error)
      else (s, .eperm)) : r = (s.ask.resize env v newVa size, .eok) ∨ Refused s r := by
  subst hr
  split_ifs
  · exact .inl rfl
  · exact .inr ⟨⟨rfl, rfl, le_rfl⟩, nofun, rfl⟩
  · exact .inr ⟨SameSpace.refl s, nofun, rfl⟩

/-- The state after a split that the object allows. -/
def Space.splitAt (s : Space) (env : Env) (v : Varea) (exEnd unmapStart unmapEnd : ℕ) : Space :=
  (({ s.ask with created := s.created + 1 }.ask).replace
    { v with size := wordSub unmapStart v.start }).bstInsert env
      (v.subset (.created s.created) exEnd unmapEnd)

/-- A split divides the varea or changes nothing. -/
theorem splitVarea_cases (s : Space) (env : Env) (v : Varea) (exEnd unmapStart unmapEnd : ℕ) :
    splitVarea s env v exEnd unmapStart unmapEnd = (s.splitAt env v exEnd unmapStart unmapEnd, .eok) ∨
      Refused s (splitVarea s env v exEnd unmapStart unmapEnd) := by
  unfold splitVarea
  dsimp only
  split_ifs
  · exact .inl rfl
  · exact .inr ⟨⟨rfl, rfl, Nat.le_succ _⟩, nofun, rfl⟩
  · exact .inr ⟨⟨rfl, rfl, le_rfl⟩, nofun, rfl⟩
  · exact .inr ⟨SameSpace.refl s, nofun, rfl⟩

/-- The fields of a resized varea. -/
@[simp] theorem Varea.resized_start (v : Varea) (newVa size : ℕ) : (v.resized newVa size).start = newVa :=
  rfl

@[simp] theorem Varea.resized_finish (v : Varea) (newVa size : ℕ) :
    (v.resized newVa size).finish = newVa + size := rfl

@[simp] theorem Varea.resized_ref (v : Varea) (newVa size : ℕ) : (v.resized newVa size).ref = v.ref := rfl

/-- The region behind the range ends where the varea ended. -/
theorem Varea.subset_finish {ref : VareaRef} (hbound : bound ≤ v.finish) (hlt : v.finish < 2 ^ 64) :
    (v.subset ref v.finish bound).finish = v.finish := by
  rw [finish, subset]
  dsimp only
  rw [wordSub_of_le hbound hlt]
  omega

/-- A piece of a cut is what is left in front of the range or behind it. -/
theorem Cut.place (hcut : Cut v first bound pieces) (hlt : v.finish < 2 ^ 64) :
    ∀ w ∈ pieces, (w.start = v.start ∧ w.finish = first ∧ v.start < first) ∨
      (w.start = bound ∧ w.finish = v.finish ∧ bound < v.finish) := by
  intro w hw
  cases hcut with
  | whole => cases hw
  | front | back =>
    rw [mem_singleton.mp hw, resized_finish, resized_start]
    omega
  | middle ref hstart hfin =>
    rcases mem_cons.mp hw with rfl | hw
    · rw [resized_finish, resized_start]
      omega
    · rw [mem_singleton.mp hw, subset_finish hfin.le hlt]
      exact .inr ⟨rfl, rfl, hfin⟩

/-- The pieces of a cut lie inside the varea, in order. -/
theorem Cut.ordered (hcut : Cut v first bound pieces) (hlt : v.finish < 2 ^ 64)
    (hover : v.Overlaps first bound) (hrange : first ≤ bound) (hlow : low ≤ v.start)
    (hhigh : v.finish ≤ high) :
    Ordered low high pieces ∧ ∀ w ∈ pieces, v.start ≤ w.start ∧ w.finish ≤ v.finish := by
  obtain ⟨hfirst, hbound⟩ := hover
  have hplace := hcut.place hlt
  refine ⟨⟨?_, fun w hw => ?_⟩, fun w hw => ?_⟩
  · cases hcut with
    | whole => exact List.Pairwise.nil
    | front | back => exact pairwise_singleton _ _
    | middle ref hstart hfin =>
      refine pairwise_pair.mpr ?_
      change v.start + (first - v.start) ≤ bound
      omega
  · have hw := hplace w hw
    unfold finish at *
    omega
  · have hw := hplace w hw
    omega

/-- Where a varea was replaced by its pieces. -/
theorem mem_splice (v : Varea) (hw : w ∈ front ++ pieces ++ back) : w ∈ pieces ∨ w ∈ front ++ v :: back := by
  simp only [mem_append] at hw ⊢
  tauto

/-- The address space with a varea replaced by its pieces. -/
theorem Laid.of_splice (h : Laid s) (hv : s.vareas = front ++ v :: back)
    (hsame : SameSpace s s') (hv' : s'.vareas = front ++ pieces ++ back)
    (hordered : Ordered s.start (s.start + s.size) s'.vareas)
    (hrefs : ∀ w ∈ pieces, w.ref = v.ref ∨ w.ref = .created s.created ∧ s.created < s'.created)
    (hnodup : (pieces.map Varea.ref).Nodup) : Laid s' := by
  have hold := h.refs
  have hcreated := h.created
  rw [hv] at hold hcreated
  obtain ⟨hfront, hback⟩ := ref_ne_of_nodup hold
  have hsub : (front ++ back).Sublist (front ++ v :: back) :=
    (List.Sublist.refl front).append (sublist_cons_self v back)
  have hother : ∀ w ∈ pieces, ∀ x ∈ front ++ back, w.ref ≠ x.ref := by
    intro w hw x hx heq
    rcases hrefs w hw with href | ⟨href, -⟩
    · exact (mem_append.mp hx).elim (hfront x) (hback x) (heq.symm.trans href)
    · exact absurd (hcreated x (hsub.subset hx) _ (heq.symm.trans href)) (lt_irrefl _)
  refine ⟨?_, ?_, fun w hw n hn => ?_, ?_⟩
  · rw [hsame.start_eq, hsame.size_eq]
    exact hordered
  · have hperm : (front ++ pieces ++ back).Perm (pieces ++ (front ++ back)) := by
      rw [← append_assoc]
      exact perm_append_comm.append_right back
    rw [hv', (hperm.map _).nodup_iff, map_append, nodup_append]
    refine ⟨hnodup, hold.sublist (hsub.map _), fun r hr r' hr' => ?_⟩
    obtain ⟨w, hw, rfl⟩ := mem_map.mp hr
    obtain ⟨x, hx, rfl⟩ := mem_map.mp hr'
    exact hother w hw x hx
  · have hold : ∀ x ∈ front ++ v :: back, x.ref = .created n → n < s'.created :=
      fun x hx hn => (hcreated x hx n hn).trans_le hsame.created_le
    rcases mem_splice v (hv' ▸ hw) with hw | hw
    · rcases hrefs w hw with heq | ⟨heq, hlt⟩
      · exact hold v (by simp) (heq ▸ hn)
      · cases heq.symm.trans hn
        exact hlt
    · exact hold w hw hn
  · rw [hsame.start_eq, hsame.size_eq]
    exact h.space_le

/-- The vareas after a split. -/
theorem Laid.vareas_splitAt (h : Laid s) (env : Env) (hv : s.vareas = front ++ v :: back)
    (hstart : v.start < first) (hrange : first ≤ bound) (hfin : bound < v.finish)
    (hlt : first < 2 ^ 64) : (s.splitAt env v v.finish first bound).vareas =
      front ++ [v.resized v.start (first - v.start), v.subset (.created s.created) v.finish bound] ++
        back := by
  have hordered := h.ordered
  rw [hv] at hordered
  obtain ⟨hbefore, hbehind, -⟩ := hordered.around
  have hresized : ({ v with size := wordSub first v.start } : Varea) =
      v.resized v.start (first - v.start) := by
    rw [wordSub_of_le hstart.le hlt, resized, if_pos rfl]
  have hreplaced : (({ s.ask with created := s.created + 1 }.ask).replace
      (v.resized v.start (first - v.start))).vareas =
        (front ++ [v.resized v.start (first - v.start)]) ++ back := by
    rw [append_assoc]
    exact Space.vareas_replace hv h.refs rfl
  rw [Space.splitAt, hresized, Space.vareas_bstInsert env hreplaced]
  · simp
  · intro a ha
    change a.start < bound
    rcases mem_append.mp ha with ha | ha
    · have hle := hbefore a ha
      unfold finish at hle
      omega
    · rw [mem_singleton.mp ha, resized_start]
      omega
  · intro b hb
    exact hfin.trans_le (hbehind b hb)

/-- What cutting ranges out of an address space leaves. -/
structure Trimmed (s s' : Space) : Prop extends SameSpace s s' where
  laid : Laid s'
  refs : ∀ w ∈ s'.vareas, (∃ v ∈ s.vareas, v.ref = w.ref) ∨ ∃ n, s.created ≤ n ∧ w.ref = .created n
  positive : (∀ v ∈ s.vareas, 0 < v.start) → ∀ w ∈ s'.vareas, 0 < w.start

/-- The same vareas. -/
theorem Trimmed.of_vareas_eq (h : Laid s) (hsame : SameSpace s s') (hv : s'.vareas = s.vareas) :
    Trimmed s s' := by
  refine ⟨hsame, ⟨?_, hv ▸ h.refs, ?_, ?_⟩, ?_, ?_⟩
  · rw [hsame.start_eq, hsame.size_eq, hv]
    exact h.ordered
  · intro v hvmem n hn
    rw [hv] at hvmem
    exact (h.created v hvmem n hn).trans_le hsame.created_le
  · rw [hsame.start_eq, hsame.size_eq]
    exact h.space_le
  · rw [hv]
    exact fun w hw => .inl ⟨w, hw, rfl⟩
  · rw [hv]
    exact id

theorem Trimmed.trans {s'' : Space} (h : Trimmed s s') (h' : Trimmed s' s'') : Trimmed s s'' := by
  refine ⟨h.toSameSpace.trans h'.toSameSpace, h'.laid, fun w hw => ?_, h'.positive ∘ h.positive⟩
  rcases h'.refs w hw with ⟨v, hv, href⟩ | ⟨n, hn, href⟩
  · rw [← href]
    exact h.refs v hv
  · exact .inr ⟨n, h.created_le.trans hn, href⟩

/-- A trimmed address space is well formed. -/
theorem WellFormed.of_trimmed (h : WellFormed s) (htrim : Trimmed s s') : WellFormed s' :=
  ⟨htrim.laid, htrim.positive h.positive⟩

/-- The same vareas are well formed. -/
theorem WellFormed.of_vareas_eq (h : WellFormed s) (hsame : SameSpace s s') (hv : s'.vareas = s.vareas) :
    WellFormed s' :=
  h.of_trimmed (.of_vareas_eq h.toLaid hsame hv)

/-- A cut leaves nothing at the null address. -/
theorem Cut.positive (hcut : Cut v first bound pieces) (hlt : v.finish < 2 ^ 64)
    (hover : v.Overlaps first bound) (hv : 0 < v.start) : ∀ w ∈ pieces, 0 < w.start := by
  intro w hw
  have hbound := hover.2
  have hplace := hcut.place hlt w hw
  omega

/-- A search for the range finds a varea that overlaps it. -/
theorem Laid.overlaps_of_search (h : Laid s) (hlt : first + length < 2 ^ 64) (hpos : 0 < first + length)
    (hfound : s.bstSearchOverlap first (wordSub (wordAdd first length) 1) = some v) :
    v ∈ s.vareas ∧ v.Overlaps first (first + length) := by
  rw [wordAdd_of_lt hlt, wordSub_of_le hpos hlt] at hfound
  obtain ⟨hmem, hfirst, hlast⟩ := h.searchOverlap_some hfound
  exact ⟨hmem, hfirst, by omega⟩

/-- Where a search for the range finds nothing, no varea overlaps it. -/
theorem Laid.not_overlaps_of_search (h : Laid s) (hlt : first + length < 2 ^ 64)
    (hpos : 0 < first + length)
    (hfound : s.bstSearchOverlap first (wordSub (wordAdd first length) 1) = none) :
    ∀ v ∈ s.vareas, ¬ v.Overlaps first (first + length) := by
  rw [wordAdd_of_lt hlt, wordSub_of_le hpos hlt] at hfound
  intro v hv hover
  obtain ⟨hfirst, hbound⟩ := hover
  have hout := h.searchOverlap_none hfound v hv
  omega

/-- A range that no varea overlaps is free. -/
theorem free_of_not_overlaps {vareas : List Varea}
    (h : ∀ v ∈ vareas, ¬ v.Overlaps first (first + length)) : Free vareas first length := by
  intro v hv
  have hout := h v hv
  unfold Varea.Overlaps at hout
  omega

/-- A cut trims the address space. -/
theorem Laid.trimmed_of_cut (h : Laid s) (hend : s.start + s.size < 2 ^ 64)
    (hv : s.vareas = front ++ v :: back) (hover : v.Overlaps first bound)
    (hcut : Cut v first bound pieces) (hv' : s'.vareas = front ++ pieces ++ back)
    (hsame : SameSpace s s') (hlaid : Laid s')
    (hrefs : ∀ w ∈ pieces, w.ref = v.ref ∨ w.ref = .created s.created) : Trimmed s s' := by
  have hfin := (h.ordered.bounds v (by simp [hv])).2.2
  refine ⟨hsame, hlaid, fun w hw => ?_, fun hpos w hw => ?_⟩
  · rcases mem_splice v (hv' ▸ hw) with hw | hw
    · rcases hrefs w hw with heq | heq
      · exact .inl ⟨v, by simp [hv], heq.symm⟩
      · exact .inr ⟨s.created, le_rfl, heq⟩
    · exact .inl ⟨w, hv ▸ hw, rfl⟩
  · rcases mem_splice v (hv' ▸ hw) with hw | hw
    · exact hcut.positive (by omega) hover (hpos v (by simp [hv])) w hw
    · exact hpos w (hv ▸ hw)

/-- `_remove_overlapped_varea` cuts the range out of the varea, or is refused and changes nothing. -/
theorem Laid.removeOverlapped (h : Laid s) (env : Env) (hend : s.start + s.size < 2 ^ 64)
    (hv : s.vareas = front ++ v :: back) (hover : v.Overlaps first (first + length))
    (hlt : first + length < 2 ^ 64) :
    (∃ s' pieces, removeOverlappedVarea s env v first length = (s', .eok) ∧
      Cut v first (first + length) pieces ∧ s'.vareas = front ++ pieces ++ back ∧ Trimmed s s') ∨
    Refused s (removeOverlappedVarea s env v first length) := by
  have hordered := h.ordered
  rw [hv] at hordered
  obtain ⟨hbefore, hbehind, -, hlow, hsize, hhigh⟩ := hordered.around
  obtain ⟨hfirst, hbound⟩ := id hover
  have hfinish : wordAdd v.start v.size = v.finish := wordAdd_of_lt (by
    unfold finish at hhigh
    omega)
  have hfrontStart : ∀ a ∈ front, a.start < v.start := by
    intro a ha
    have hle := hbefore a ha
    obtain ⟨-, hasize, -⟩ := (ordered_append.mp hordered).1.bounds a ha
    unfold finish at hle
    omega
  -- pieces that the varea is cut down to make a laid out address space
  have htrim : ∀ {s' pieces}, Cut v first (first + length) pieces → s'.vareas = front ++ pieces ++ back →
      SameSpace s s' →
      (∀ w ∈ pieces, w.ref = v.ref ∨ w.ref = .created s.created ∧ s.created < s'.created) →
      (pieces.map ref).Nodup → Trimmed s s' := by
    intro s' pieces hcut hv' hsame hrefs hnodup
    obtain ⟨hpieces, hplace⟩ := hcut.ordered (by omega) hover (by omega) hlow hhigh
    have hnew : Ordered s.start (s.start + s.size) s'.vareas := by
      rw [hv']
      exact (show Ordered _ _ (front ++ [v] ++ back) by simpa using hordered).splice hpieces
        (fun a ha w hw => (hbefore a ha).trans (hplace w hw).1)
        fun w hw b hb => (hplace w hw).2.trans (hbehind b hb)
    exact h.trimmed_of_cut hend hv hover hcut hv' hsame (h.of_splice hv hsame hv' hnew hrefs hnodup)
      fun w hw => (hrefs w hw).imp_right And.left
  -- a shrink of the varea to one piece
  have hshrink : ∀ newVa size, v.start ≤ newVa → newVa < v.finish →
      Cut v first (first + length) [v.resized newVa size] →
      (∃ s' pieces, shrinkVarea s env v newVa size = (s', .eok) ∧ Cut v first (first + length) pieces ∧
        s'.vareas = front ++ pieces ++ back ∧ Trimmed s s') ∨ Refused s (shrinkVarea s env v newVa size) := by
    intro newVa size hge hnew hcut
    rcases resize_or_refused s env v newVa size (v.has env MemObj.onVareaShrink) rfl with heq | hrefused
    · have hv' : (s.ask.resize env v newVa size).vareas = front ++ [v.resized newVa size] ++ back := by
        rw [append_assoc]
        exact Space.vareas_resize env hv h.refs (fun a ha => (hfrontStart a ha).trans_le hge)
          fun b hb => hnew.trans_le (hbehind b hb)
      have hsame : SameSpace s (s.ask.resize env v newVa size) :=
        { s.ask.resize_same env v newVa size with }
      exact .inl ⟨_, _, heq, hcut, hv', htrim hcut hv' hsame (by simp) (by simp)⟩
    · exact .inr hrefused
  unfold removeOverlappedVarea
  rw [hfinish, wordAdd_of_lt hlt]
  dsimp only
  split
  next hstart =>
    split
    next hfin =>
      rcases splitVarea_cases s env v v.finish first (first + length) with heq | hrefused
      · have hcut : Cut v first (first + length) _ := .middle (.created s.created) hstart hfin
        have hnew := h.vareas_splitAt env hv hstart (by omega) hfin (by omega)
        have hfresh : v.ref ≠ .created s.created := fun href =>
          absurd (h.created v (by simp [hv]) _ href) (lt_irrefl _)
        refine .inl ⟨_, _, heq, hcut, hnew, htrim hcut hnew ⟨rfl, rfl, Nat.le_succ _⟩ (fun w hw => ?_) ?_⟩
        · rcases mem_cons.mp hw with rfl | hw
          · exact .inl rfl
          · rw [mem_singleton.mp hw]
            exact .inr ⟨rfl, Nat.lt_succ_self _⟩
        · simpa [subset] using hfresh
      · exact .inr hrefused
    next hfin =>
      rw [wordSub_of_le hstart.le (by omega)]
      exact hshrink v.start (first - v.start) le_rfl (by omega) (.front hstart (by omega))
  next hstart =>
    split
    next hfin =>
      rw [wordSub_of_le hfin.le (by omega)]
      exact hshrink (first + length) (v.finish - (first + length)) (by omega) hfin (.back (by omega) hfin)
    next hfin =>
      have hcut : Cut v first (first + length) [] := .whole (by omega) (by omega)
      have hnew := Space.vareas_bstRemove env hv h.refs
      have hnew' : (s.bstRemove env v.ref).vareas = front ++ [] ++ back := by
        rw [hnew, append_nil]
      exact .inl ⟨_, _, rfl, hcut, hnew', htrim hcut hnew' ⟨rfl, rfl, le_rfl⟩ (by simp) (by simp)⟩

/-- An unmapping trims the address space, and its range is free if it succeeds. -/
theorem Laid.unmapRange {fuel : ℕ} {err : Err} (h : Laid s) (hend : s.start + s.size < 2 ^ 64)
    (hlt : first + length < 2 ^ 64) (hpos : 0 < first + length)
    (hrun : unmapRangeLocked env first length fuel s = some (s', err)) :
    Trimmed s s' ∧ (err = .eok → Free s'.vareas first length) := by
  induction fuel generalizing s with
  | zero => cases hrun
  | succ fuel ih =>
    rw [unmapRangeLocked] at hrun
    split at hrun
    next hfound =>
      cases hrun
      exact ⟨.of_vareas_eq h (SameSpace.refl _) rfl,
        fun _ => free_of_not_overlaps (h.not_overlaps_of_search hlt hpos hfound)⟩
    next v hfound =>
      obtain ⟨hmem, hover⟩ := h.overlaps_of_search hlt hpos hfound
      obtain ⟨front, back, hv⟩ := append_of_mem hmem
      rcases h.removeOverlapped env hend hv hover hlt with ⟨t, pieces, heq, -, -, htrim⟩ | hrefused
      · rw [heq] at hrun
        obtain ⟨htrim', hfree⟩ := ih htrim.laid (by rw [htrim.start_eq, htrim.size_eq]; exact hend) hrun
        exact ⟨htrim.trans htrim', hfree⟩
      · generalize removeOverlappedVarea s env v first length = r at hrun hrefused
        obtain ⟨t, code⟩ := r
        have hstop : some (t, code) = some (s', err) := by
          cases code <;> first | exact hrun | exact absurd rfl hrefused.failed
        cases hstop
        exact ⟨.of_vareas_eq h hrefused.toSameSpace hrefused.vareas_eq, fun hok => absurd hok hrefused.failed⟩

/-- The page of an address in the object of a varea. -/
def Varea.pageOffset (v : Varea) (a : ℕ) : ℕ := wordAdd v.offset ((a - v.start) / archPageSize)

/-- The address `a` is mapped to the page `o` of the object `m`. -/
def Maps (vareas : List Varea) (a : ℕ) (m : Option ℕ) (o : ℕ) : Prop :=
  ∃ v ∈ vareas, v.start ≤ a ∧ a < v.finish ∧ v.memObj = m ∧ v.pageOffset a = o

/-- A varea of whole pages. -/
def Varea.Aligned (v : Varea) : Prop := v.start % archPageSize = 0 ∧ v.size % archPageSize = 0

/-- Moving the start of a varea up moves its offset by as many pages. -/
theorem shiftOffset_of_le {offset oldVa newVa : ℕ} (hle : oldVa ≤ newVa) (hlt : newVa < 2 ^ 64)
    (hhalf : newVa - oldVa < 2 ^ 63) :
    shiftOffset offset oldVa newVa = wordAdd offset ((newVa - oldVa) / archPageSize) := by
  unfold shiftOffset wordAdd wordLimit
  rw [wordSub_of_le hle hlt]
  rw [signedWord_of_lt hhalf]
  omega

/-- The pieces of a cut map their pages as the varea did. -/
theorem Cut.piece_eq (hcut : Cut v first bound pieces) (hv : v.Aligned)
    (hbound : bound % archPageSize = 0) (hlt : v.finish < 2 ^ 64) (hhalf : v.size ≤ 2 ^ 63)
    (hover : v.Overlaps first bound) :
    ∀ w ∈ pieces, w.memObj = v.memObj ∧ ∀ a, w.start ≤ a → w.pageOffset a = v.pageOffset a := by
  obtain ⟨hfirst, hstartBound⟩ := hover
  have hpages : ∀ a, bound ≤ a →
      wordAdd (wordAdd v.offset ((bound - v.start) / archPageSize)) ((a - bound) / archPageSize) =
        v.pageOffset a := by
    have hmod := hv.1
    unfold pageOffset wordAdd wordLimit
    unfold archPageSize at *
    omega
  intro w hw
  cases hcut with
  | whole => cases hw
  | front =>
    rw [mem_singleton.mp hw]
    refine ⟨rfl, fun a _ => ?_⟩
    rw [resized, if_pos rfl]
    rfl
  | back hstart hfin =>
    rw [mem_singleton.mp hw]
    refine ⟨rfl, fun a ha => ?_⟩
    have hshift : shiftOffset v.offset v.start bound =
        wordAdd v.offset ((bound - v.start) / archPageSize) := by
      refine shiftOffset_of_le hstartBound.le (by omega) ?_
      unfold finish at hfin
      omega
    rw [pageOffset, resized, if_neg (by omega)]
    rw [hshift, hpages a ha]
  | middle ref hstart hfin =>
    rcases mem_cons.mp hw with rfl | hw
    · refine ⟨rfl, fun a _ => ?_⟩
      rw [resized, if_pos rfl]
      rfl
    · rw [mem_singleton.mp hw]
      refine ⟨rfl, fun a ha => ?_⟩
      rw [pageOffset, subset]
      rw [wordSub_of_le hstartBound.le (by omega), hpages a ha]

/-- A cut unmaps its range and nothing else. -/
theorem Cut.maps_iff (hcut : Cut v first bound pieces) (hv : v.Aligned)
    (hbound : bound % archPageSize = 0) (hlt : v.finish < 2 ^ 64) (hhalf : v.size ≤ 2 ^ 63)
    (hover : v.Overlaps first bound) (a : ℕ) (m : Option ℕ) (o : ℕ) :
    Maps pieces a m o ↔ Maps [v] a m o ∧ ¬ (first ≤ a ∧ a < bound) := by
  have hpiece := hcut.piece_eq hv hbound hlt hhalf hover
  have hplace := hcut.place hlt
  have hover' := hover
  unfold Varea.Overlaps at hover'
  constructor
  · rintro ⟨w, hw, hlow, hhigh, hm, ho⟩
    obtain ⟨hobj, hoff⟩ := hpiece w hw
    have hin := hplace w hw
    refine ⟨⟨v, mem_singleton_self v, by omega, by omega, hobj ▸ hm, hoff a hlow ▸ ho⟩, ?_⟩
    omega
  · rintro ⟨⟨w, hw, hlow, hhigh, hm, ho⟩, hout⟩
    rw [mem_singleton.mp hw] at hlow hhigh hm ho
    have hholds : ∃ w ∈ pieces, w.start ≤ a ∧ a < w.finish := by
      cases hcut with
      | whole => omega
      | front | back =>
        refine ⟨_, mem_singleton_self _, ?_⟩
        rw [resized_finish, resized_start]
        omega
      | middle ref hstart hfin =>
        by_cases hbefore : a < first
        · refine ⟨_, mem_cons_self, ?_⟩
          rw [resized_finish, resized_start]
          omega
        · refine ⟨_, mem_cons_of_mem _ (mem_singleton_self _), ?_, ?_⟩
          · change bound ≤ a
            omega
          · rw [subset_finish hfin.le hlt]
            exact hhigh
    obtain ⟨w, hw, hwlow, hwhigh⟩ := hholds
    obtain ⟨hobj, hoff⟩ := hpiece w hw
    exact ⟨w, hw, hwlow, hwhigh, hobj.trans hm, (hoff a hwlow).trans ho⟩

/-- The mappings of two lists of vareas. -/
theorem maps_append {a o : ℕ} {m : Option ℕ} :
    Maps (front ++ back) a m o ↔ Maps front a m o ∨ Maps back a m o := by
  simp only [Maps, mem_append, or_and_right, exists_or]

/-- A cut succeeds where the object has the callback and every question is answered with success. -/
theorem removeOverlapped_eok (hfin : v.finish < 2 ^ 64) (hlt : first + length < 2 ^ 64)
    (hcuttable : Cuttable env first (first + length) v) (hyes : ∀ n, env.outcome n = true) :
    (removeOverlappedVarea s env v first length).2 = .eok := by
  have hfinish : wordAdd v.start v.size = v.finish := wordAdd_of_lt hfin
  have hanswer : ∀ t : Space, t.answer env = true := fun t => hyes t.asked
  unfold removeOverlappedVarea
  rw [hfinish, wordAdd_of_lt hlt]
  dsimp only
  split
  next hstart =>
    split
    next hbound =>
      simp only [splitVarea, hcuttable.split hstart hbound, hanswer, if_true]
    next hbound =>
      rw [shrinkVarea_of_has (hcuttable.shrink_front hstart (by omega)) (hanswer s)]
  next hstart =>
    split
    next hbound =>
      rw [shrinkVarea_of_has (hcuttable.shrink_back (by omega) hbound) (hanswer s)]
    · rfl

instance (v : Varea) (first bound : ℕ) : Decidable (v.Overlaps first bound) :=
  inferInstanceAs (Decidable (_ ∧ _))

/-- The pieces of a cut do not overlap the range. -/
theorem Cut.not_overlaps (hcut : Cut v first bound pieces)
    (hlt : v.finish < 2 ^ 64) : ∀ w ∈ pieces, ¬ w.Overlaps first bound := by
  rintro w hw ⟨hfirst, hbound⟩
  have hplace := hcut.place hlt w hw
  omega

/-- The pieces of a cut are whole pages. -/
theorem Cut.aligned (hcut : Cut v first bound pieces) (hv : v.Aligned)
    (hfirst : first % archPageSize = 0) (hbound : bound % archPageSize = 0) (hlt : v.finish < 2 ^ 64) :
    ∀ w ∈ pieces, w.Aligned := by
  intro w hw
  have hplace := hcut.place hlt w hw
  unfold Varea.Aligned finish at *
  unfold archPageSize at *
  omega

/-- Unmapping whole pages of an address space of whole pages, where every object agrees, ends within as
many steps as vareas overlap the range, and unmaps the range and nothing else. -/
theorem Laid.unmapRange_exact {fuel : ℕ} (h : Laid s) (hend : s.start + s.size < 2 ^ 64)
    (hhalf : s.size ≤ 2 ^ 63) (hlt : first + length < 2 ^ 64) (hpos : 0 < first + length)
    (hfirst : first % archPageSize = 0) (hlength : length % archPageSize = 0)
    (haligned : ∀ v ∈ s.vareas, v.Aligned) (hyes : ∀ n, env.outcome n = true)
    (hcuttable : ∀ v ∈ s.vareas, v.Overlaps first (first + length) → Cuttable env first (first + length) v)
    (hfuel : s.vareas.countP (fun v => v.Overlaps first (first + length)) < fuel) :
    ∃ s', unmapRangeLocked env first length fuel s = some (s', .eok) ∧ Trimmed s s' ∧
      (∀ v ∈ s'.vareas, v.Aligned) ∧ Free s'.vareas first length ∧
      ∀ a m o, Maps s'.vareas a m o ↔ Maps s.vareas a m o ∧ ¬ (first ≤ a ∧ a < first + length) := by
  induction fuel generalizing s with
  | zero => exact absurd hfuel (Nat.not_lt_zero _)
  | succ fuel ih =>
    rw [unmapRangeLocked]
    split
    next hfound =>
      have hnone := h.not_overlaps_of_search hlt hpos hfound
      refine ⟨s, rfl, .of_vareas_eq h (SameSpace.refl s) rfl, haligned, free_of_not_overlaps hnone,
        fun a m o => ⟨fun hmaps => ⟨hmaps, ?_⟩, And.left⟩⟩
      rintro ⟨hlow, hhigh⟩
      obtain ⟨v, hv, hstart, hfin, -⟩ := hmaps
      exact hnone v hv ⟨by omega, by omega⟩
    next v hfound =>
      obtain ⟨hmem, hover⟩ := h.overlaps_of_search hlt hpos hfound
      obtain ⟨front, back, hv⟩ := append_of_mem hmem
      obtain ⟨hlow, -, hhigh⟩ := h.ordered.bounds v hmem
      have hsize : v.size ≤ 2 ^ 63 := by
        unfold finish at hhigh
        omega
      have hbound : (first + length) % archPageSize = 0 := by
        unfold archPageSize at *
        omega
      have hok := removeOverlapped_eok (s := s) (by omega) hlt (hcuttable v hmem hover) hyes
      rcases h.removeOverlapped env hend hv hover hlt with ⟨t, pieces, heq, hcut, hpieces, htrim⟩ | hrefused
      · have hothers : ∀ w ∈ t.vareas, w ∈ pieces ∨ w ∈ s.vareas := fun w hw =>
          hv ▸ mem_splice v (hpieces ▸ hw)
        have hpieceOut := hcut.not_overlaps (by omega)
        obtain ⟨s', hrun, htrim', haligned', hfree, hmaps⟩ := ih htrim.laid
          (by rw [htrim.start_eq, htrim.size_eq]; exact hend) (by rw [htrim.size_eq]; exact hhalf)
          (fun w hw => (hothers w hw).elim
            (hcut.aligned (haligned v hmem) hfirst hbound (by omega) w) (haligned w))
          (fun w hw hwover => (hothers w hw).elim (fun hw => absurd hwover (hpieceOut w hw))
            fun hw => hcuttable w hw hwover)
          (by
            rw [hv] at hfuel
            rw [hpieces]
            have hzero : pieces.countP (fun w => w.Overlaps first (first + length)) = 0 :=
              countP_eq_zero.mpr fun w hw => by simpa using hpieceOut w hw
            simp only [countP_append, countP_cons, hover, decide_true, if_true] at hfuel ⊢
            omega)
        refine ⟨s', by rw [heq]; exact hrun, htrim.trans htrim', haligned', hfree, fun a m o => ?_⟩
        have hcutMaps := hcut.maps_iff (haligned v hmem) hbound (by omega) hsize hover a m o
        rw [hmaps, hpieces, hv, maps_append, maps_append, append_cons front v back, maps_append,
          maps_append, hcutMaps]
        simp only [or_and_right, and_assoc, and_self]
      · exact absurd hok hrefused.failed

/-- A range inside the address space is accepted. -/
theorem notInRange_eq_false (hspace : s.start + s.size ≤ 2 ^ 64)
    (hstart : s.start ≤ start) (hlength : start + length ≤ s.start + s.size) (hsize : s.size < 2 ^ 64) :
    notInRange start length s.start s.size = false := by
  unfold notInRange
  split
  next hne =>
    unfold wordSub wordAdd wordLimit
    simp only [decide_eq_false_iff_not]
    omega
  · simp only [decide_eq_false_iff_not]
    omega

/-- Objects with every callback, which agree to everything, and a tree that is not rebalanced. -/
def agreeing : Env where
  object _ := ⟨none, true, true, true, true⟩
  outcome _ := true
  fault _ := .unrecoverable
  rebalance _ t := t
  inorder_rebalance _ _ := rfl

/-- An address space with one varea. -/
def oneVarea (start size vareaStart vareaSize : ℕ) : Space where
  start := start
  size := size
  tree := .node ⟨.created 0, vareaStart, vareaSize, 0, 0, 0, some 0⟩ .nil .nil
  created := 1
  asked := 0

/-- What holds of the one varea. -/
theorem oneVarea_forall {vareaStart vareaSize : ℕ} {P : Varea → Prop}
    (h : P ⟨.created 0, vareaStart, vareaSize, 0, 0, 0, some 0⟩) :
    ∀ v ∈ (oneVarea start size vareaStart vareaSize).vareas, P v :=
  fun _ hv => (mem_singleton.mp hv).symm ▸ h

/-- It is laid out if the varea is inside. -/
theorem oneVarea_laid {vareaStart vareaSize : ℕ} (hlow : start ≤ vareaStart)
    (hsize : 0 < vareaSize) (hhigh : vareaStart + vareaSize ≤ start + size)
    (hspace : start + size ≤ 2 ^ 64) : Laid (oneVarea start size vareaStart vareaSize) := by
  refine ⟨ordered_cons.mpr ⟨⟨hlow, hsize, hhigh⟩, ordered_nil, by simp⟩, ?_, ?_, hspace⟩
  · exact pairwise_singleton _ _
  · refine oneVarea_forall fun n hn => ?_
    cases hn
    exact Nat.one_pos

/-- Every varea of the agreeing environment can be cut. -/
theorem agreeing_cuttable {first bound n : ℕ} (hv : v.memObj = some n) :
    Cuttable agreeing first bound v := by
  constructor <;> intros <;> rw [has, hv] <;> rfl

end RtThread.Aspace
