import RtThread.Aspace.Basic
import Mathlib.Data.List.Nodup

/-!
# The layout of an address space

The vareas of an address space are seen as the in-order list of its tree. `Ordered` says that the list is
sorted and that its regions are disjoint, not empty and inside the space; every operation on the tree is
described by what it does to the list.
-/

namespace RtThread.Aspace

open Lib List Varea Space SearchTree

/-- The first address behind a varea. -/
def Varea.finish (v : Varea) : ℕ := v.start + v.size

/-- Disjoint regions in ascending order between two addresses. -/
structure Ordered (low high : ℕ) (vareas : List Varea) : Prop where
  disjoint : vareas.Pairwise fun a b => a.finish ≤ b.start
  bounds : ∀ v ∈ vareas, low ≤ v.start ∧ 0 < v.size ∧ v.finish ≤ high

/-- No varea overlaps the `size` bytes from `start` on. -/
def Free (vareas : List Varea) (start size : ℕ) : Prop :=
  ∀ v ∈ vareas, v.finish ≤ start ∨ start + size ≤ v.start

/-- An address space whose regions are laid out and whose records are distinct. -/
structure Laid (s : Space) : Prop where
  ordered : Ordered s.start (s.start + s.size) s.vareas
  refs : (s.vareas.map Varea.ref).Nodup
  created : ∀ v ∈ s.vareas, ∀ n, v.ref = .created n → n < s.created
  space_le : s.start + s.size ≤ 2 ^ 64

/-- The same, with no region at the null address, as no mapping returns it. -/
structure WellFormed (s : Space) : Prop extends Laid s where
  positive : ∀ v ∈ s.vareas, 0 < v.start

variable {low high : ℕ} {vareas front back : List Varea} {v w : Varea} {s : Space}

/-- Two laid out lists, one behind the other. -/
theorem ordered_append : Ordered low high (front ++ back) ↔
    Ordered low high front ∧ Ordered low high back ∧ ∀ a ∈ front, ∀ b ∈ back, a.finish ≤ b.start := by
  constructor
  · rintro ⟨hdisjoint, hbounds⟩
    obtain ⟨hfront, hback, hcross⟩ := pairwise_append.mp hdisjoint
    obtain ⟨hbounds, hbounds'⟩ := forall_mem_append.mp hbounds
    exact ⟨⟨hfront, hbounds⟩, ⟨hback, hbounds'⟩, hcross⟩
  · rintro ⟨hfront, hback, hcross⟩
    exact ⟨pairwise_append.mpr ⟨hfront.disjoint, hback.disjoint, hcross⟩,
      forall_mem_append.mpr ⟨hfront.bounds, hback.bounds⟩⟩

/-- A region in front of a laid out list. -/
theorem ordered_cons : Ordered low high (v :: back) ↔
    (low ≤ v.start ∧ 0 < v.size ∧ v.finish ≤ high) ∧ Ordered low high back ∧
      ∀ b ∈ back, v.finish ≤ b.start := by
  constructor
  · rintro ⟨hdisjoint, hbounds⟩
    obtain ⟨hhead, hback⟩ := pairwise_cons.mp hdisjoint
    obtain ⟨hv, hbounds⟩ := forall_mem_cons.mp hbounds
    exact ⟨hv, ⟨hback, hbounds⟩, hhead⟩
  · rintro ⟨hv, hback, hhead⟩
    exact ⟨pairwise_cons.mpr ⟨hhead, hback.disjoint⟩, forall_mem_cons.mpr ⟨hv, hback.bounds⟩⟩

theorem ordered_nil : Ordered low high [] := ⟨List.Pairwise.nil, by simp⟩

/-- What is in front of a region ends at its start, what is behind starts at its end. -/
theorem Ordered.around (h : Ordered low high (front ++ v :: back)) :
    (∀ a ∈ front, a.finish ≤ v.start) ∧ (∀ b ∈ back, v.finish ≤ b.start) ∧
      (∀ a ∈ front, ∀ b ∈ back, a.finish ≤ b.start) ∧ low ≤ v.start ∧ 0 < v.size ∧ v.finish ≤ high := by
  obtain ⟨-, hrest, hcross⟩ := ordered_append.mp h
  obtain ⟨hv, -, hback⟩ := ordered_cons.mp hrest
  exact ⟨fun a ha => hcross a ha v mem_cons_self, hback,
    fun a ha b hb => hcross a ha b (mem_cons_of_mem _ hb), hv⟩

/-- A region may be replaced by regions that lie between its neighbours. -/
theorem Ordered.splice {mid mid' : List Varea} (h : Ordered low high (front ++ mid ++ back))
    (hmid : Ordered low high mid') (hfront : ∀ a ∈ front, ∀ m ∈ mid', a.finish ≤ m.start)
    (hback : ∀ m ∈ mid', ∀ b ∈ back, m.finish ≤ b.start) : Ordered low high (front ++ mid' ++ back) := by
  rw [append_assoc, ordered_append, ordered_append] at h
  obtain ⟨hf, ⟨-, hb, -⟩, hcross⟩ := h
  rw [append_assoc, ordered_append, ordered_append]
  refine ⟨hf, ⟨hmid, hb, hback⟩, fun a ha => forall_mem_append.mpr ⟨hfront a ha, ?_⟩⟩
  exact (forall_mem_append.mp (hcross a ha)).2

/-- Regions may be replaced by one that lies between their neighbours. -/
theorem Ordered.put (mid : List Varea) (h : Ordered low high (front ++ mid ++ back))
    (hv : low ≤ v.start ∧ 0 < v.size ∧ v.finish ≤ high) (hfront : ∀ a ∈ front, a.finish ≤ v.start)
    (hback : ∀ b ∈ back, v.finish ≤ b.start) : Ordered low high (front ++ v :: back) := by
  have hspliced := h.splice (ordered_cons.mpr ⟨hv, ordered_nil, by simp⟩) (by simpa using hfront)
    (by simpa using hback)
  simpa using hspliced

/-- A free range splits the list into what is in front of it and what is behind it. -/
theorem Ordered.split_free {start size : ℕ} (h : Ordered low high vareas)
    (hfree : Free vareas start size) :
    ∃ front back, vareas = front ++ back ∧ (∀ a ∈ front, a.finish ≤ start) ∧
      ∀ b ∈ back, start + size ≤ b.start := by
  induction vareas with
  | nil => exact ⟨[], [], rfl, by simp, by simp⟩
  | cons v rest ih =>
    obtain ⟨hv, hrest, hhead⟩ := ordered_cons.mp h
    rcases hfree v mem_cons_self with hbefore | hbehind
    · obtain ⟨front, back, rfl, hfront, hback⟩ :=
        ih hrest fun w hw => hfree w (mem_cons_of_mem _ hw)
      exact ⟨v :: front, back, rfl, forall_mem_cons.mpr ⟨hbefore, hfront⟩, hback⟩
    · refine ⟨[], v :: rest, rfl, by simp, forall_mem_cons.mpr ⟨hbehind, fun b hb => ?_⟩⟩
      have hle := hhead b hb
      unfold finish at hle
      omega

/-- The last address of a region inside the address space. -/
theorem Varea.last_eq (hsize : 0 < v.size) (hle : v.finish ≤ 2 ^ 64) : v.last = v.finish - 1 := by
  unfold last wordAdd wordSub wordLimit
  unfold finish at hle ⊢
  omega

/-- A word below half the range is its own signed value. -/
theorem signedWord_of_lt {a : ℕ} (h : a < 2 ^ 63) : signedWord a = a := by
  unfold signedWord
  rw [Int.bmod_eq_of_le] <;> omega

/-- The records of a list with distinct records, away from one of them. -/
theorem ref_ne_of_nodup (h : ((front ++ v :: back).map Varea.ref).Nodup) :
    (∀ a ∈ front, a.ref ≠ v.ref) ∧ ∀ b ∈ back, b.ref ≠ v.ref := by
  rw [map_append, nodup_append] at h
  obtain ⟨-, hrest, hcross⟩ := h
  refine ⟨fun a ha => hcross _ (mem_map_of_mem ha) _ mem_cons_self, fun b hb heq => ?_⟩
  exact (nodup_cons.mp hrest).1 (heq ▸ mem_map_of_mem hb)

/-- Removing a record leaves the others. -/
theorem Space.vareas_bstRemove (env : Env) (h : s.vareas = front ++ v :: back)
    (hrefs : (s.vareas.map Varea.ref).Nodup) : (s.bstRemove env v.ref).vareas = front ++ back := by
  rw [h] at hrefs
  obtain ⟨hfront, hback⟩ := ref_ne_of_nodup hrefs
  rw [vareas] at h
  rw [vareas, bstRemove]
  rw [env.inorder_rebalance, inorder_remove, h, filter_append, filter_cons,
    filter_eq_self.mpr fun a ha => by simpa using hfront a ha,
    filter_eq_self.mpr fun b hb => by simpa using hback b hb]
  simp

/-- Writing a record changes it in place. -/
theorem Space.vareas_replace (h : s.vareas = front ++ v :: back)
    (hrefs : (s.vareas.map Varea.ref).Nodup) (hw : w.ref = v.ref) :
    (s.replace w).vareas = front ++ w :: back := by
  rw [h] at hrefs
  obtain ⟨hfront, hback⟩ := ref_ne_of_nodup hrefs
  rw [vareas] at h
  rw [vareas, replace]
  rw [inorder_map, h, map_append, map_cons, hw, if_pos rfl]
  congr 1
  · exact (map_congr_left fun a ha => if_neg (hfront a ha)).trans (map_id' _)
  · congr 1
    exact (map_congr_left fun b hb => if_neg (hback b hb)).trans (map_id' _)

/-- A new record goes between the smaller and the larger starts. -/
theorem Space.vareas_bstInsert (env : Env) (h : s.vareas = front ++ back)
    (hfront : ∀ a ∈ front, a.start < v.start) (hback : ∀ b ∈ back, v.start < b.start) :
    (s.bstInsert env v).vareas = front ++ v :: back := by
  rw [vareas, bstInsert]
  rw [env.inorder_rebalance, inorder_insert h hfront hback]

/-- What is left after a removal depends only on the vareas. -/
theorem Space.vareas_bstRemove_congr (env : Env) {s' : Space} (h : s'.vareas = s.vareas) (ref : VareaRef) :
    (s'.bstRemove env ref).vareas = (s.bstRemove env ref).vareas := by
  unfold vareas at h ⊢
  unfold bstRemove
  rw [env.inorder_rebalance, env.inorder_rebalance, inorder_remove, inorder_remove, h]

/-- Removing a new record undoes its insertion. -/
theorem Space.vareas_bstRemove_bstInsert (env : Env) (hnew : ∀ a ∈ s.vareas, a.ref ≠ v.ref) :
    ((s.bstInsert env v).bstRemove env v.ref).vareas = s.vareas := by
  rw [vareas, bstRemove]
  rw [env.inorder_rebalance, inorder_remove, bstInsert]
  rw [env.inorder_rebalance]
  exact filter_inorder_insert (by simp) fun a ha => by simpa using hnew a ha

/-- The record after `_expand_varea` or `_shrink_varea`. -/
def Varea.resized (v : Varea) (newVa size : ℕ) : Varea :=
  { v with
    start := newVa
    size := size
    offset := if v.start = newVa then v.offset else shiftOffset v.offset v.start newVa }

/-- A new size and start between the neighbours changes the record in place. -/
theorem Space.vareas_resize (env : Env) {newVa size : ℕ} (h : s.vareas = front ++ v :: back)
    (hrefs : (s.vareas.map Varea.ref).Nodup) (hfront : ∀ a ∈ front, a.start < newVa)
    (hback : ∀ b ∈ back, newVa < b.start) :
    (s.resize env v newVa size).vareas = front ++ v.resized newVa size :: back := by
  unfold resize resized
  split
  next hstart =>
    rw [Space.vareas_replace h hrefs (by rfl), hstart]
  · generalize hw : ({ v with size := size, start := newVa,
                              offset := shiftOffset v.offset v.start newVa } : Varea) = w
    obtain ⟨href, hnew⟩ : w.ref = v.ref ∧ w.start = newVa := by
      subst hw
      exact ⟨rfl, rfl⟩
    have hreplaced := Space.vareas_replace h hrefs href
    have hrefs' : ((s.replace w).vareas.map ref).Nodup := by
      rw [h] at hrefs
      rw [hreplaced]
      simpa [href] using hrefs
    have hremoved := Space.vareas_bstRemove env hreplaced hrefs'
    rw [href] at hremoved
    exact Space.vareas_bstInsert env hremoved (hnew ▸ hfront) (hnew ▸ hback)

/-- Looking up a record. -/
theorem Space.lookup_eq (h : s.vareas = front ++ v :: back) (hrefs : (s.vareas.map Varea.ref).Nodup) :
    s.lookup v.ref = some v := by
  rw [h] at hrefs
  obtain ⟨hfront, -⟩ := ref_ne_of_nodup hrefs
  rw [lookup, h, find?_append, find?_eq_none.mpr fun a ha => by simpa using hfront a ha]
  simp

/-- A record that is found is in the tree. -/
theorem Space.lookup_some {ref : VareaRef} (h : s.lookup ref = some v) : v ∈ s.vareas ∧ v.ref = ref :=
  ⟨mem_of_find?_eq_some h, by simpa using find?_some h⟩

/-- The comparison of a search is monotone along a laid out list. -/
theorem Ordered.compareOverlap_mono (h : Ordered low high vareas) (hhigh : high ≤ 2 ^ 64)
    (first last : ℕ) : vareas.Pairwise fun a b =>
      (compareOverlap first last a = .lt → compareOverlap first last b = .lt) ∧
        (compareOverlap first last b = .gt → compareOverlap first last a = .gt) := by
  refine h.disjoint.imp_of_mem fun {a b} ha hb hab => ?_
  obtain ⟨-, hasize, hafin⟩ := h.bounds a ha
  obtain ⟨-, hbsize, hbfin⟩ := h.bounds b hb
  unfold compareOverlap
  rw [last_eq hasize (by omega), last_eq hbsize (by omega)]
  unfold finish at *
  constructor
  · intro hlt
    split at hlt
    · cases hlt
    · split_ifs at hlt
      rw [if_neg (by omega), if_pos (by omega)]
  · intro hgt
    split at hgt
    · rw [if_pos (by omega)]
    · split at hgt <;> cases hgt

/-- What an overlap search finds. -/
theorem Laid.searchOverlap_some (h : Laid s) {first last : ℕ}
    (hfound : s.bstSearchOverlap first last = some v) :
    v ∈ s.vareas ∧ first < v.finish ∧ v.start ≤ last := by
  obtain ⟨hmem, hcmp⟩ := SearchTree.search_some hfound
  obtain ⟨-, hsize, hfin⟩ := h.ordered.bounds v hmem
  have hspace := h.space_le
  unfold compareOverlap at hcmp
  rw [last_eq hsize (by omega)] at hcmp
  refine ⟨hmem, ?_⟩
  unfold finish at *
  split at hcmp
  · cases hcmp
  · split_ifs at hcmp
    omega

/-- Where an overlap search finds nothing, nothing overlaps. -/
theorem Laid.searchOverlap_none (h : Laid s) {first last : ℕ}
    (hfound : s.bstSearchOverlap first last = none) :
    ∀ v ∈ s.vareas, v.finish ≤ first ∨ last < v.start := by
  intro v hv
  have hne := search_none hfound (h.ordered.compareOverlap_mono h.space_le first last) v hv
  obtain ⟨-, hsize, hfin⟩ := h.ordered.bounds v hv
  have hspace := h.space_le
  unfold compareOverlap at hne
  rw [last_eq hsize (by omega)] at hne
  split at hne
  · omega
  · split at hne
    · omega
    · exact absurd rfl hne

/-- The varea that a search for an address finds holds it. -/
theorem Laid.search_some (h : Laid s) {key : ℕ} (hfound : s.bstSearch key = some v) :
    v ∈ s.vareas ∧ v.start ≤ key ∧ key < v.finish := by
  obtain ⟨hmem, hlt, hle⟩ := h.searchOverlap_some hfound
  exact ⟨hmem, hle, hlt⟩

end RtThread.Aspace
