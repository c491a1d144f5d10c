import RtThread.Memblock.Basic
import RtThread.Lib.Spans
import RtThread.Lib.Transition

/-!
# The region lists

Every successful call keeps both lists in address order without overlap, and a list covers exactly what was
added to it. Merging the memory list keeps the addresses it covers.
-/

namespace RtThread.Memblock

open Lib List

variable {l front back : List Reg} {r : Reg} {start finish flags : ℕ} {kind : Kind} {s s' : State}
variable {c : Call} {calls : List Call}

/-- The regions ascend without overlap, and none is empty. -/
abbrev Sorted (l : List Reg) : Prop := Ascending Reg.start Reg.finish l

/-- The address is in a region of the list. -/
abbrev Holds (l : List Reg) (a : ℕ) : Prop := Covers Reg.start Reg.finish l a

/-- The place that is found has all lower regions in front of it and all higher ones behind. -/
theorem findPlace_some {place : ℕ} (h : Sorted l) (hplace : findPlace start finish l = some place) :
    ∃ front back, l = front ++ back ∧ place = front.length ∧ (∀ a ∈ front, a.finish ≤ start) ∧
      ∀ b ∈ back, finish ≤ b.start := by
  induction l generalizing place with
  | nil => exact ⟨[], [], rfl, (Option.some.inj hplace).symm, by simp, by simp⟩
  | cons r rest ih =>
    obtain ⟨hproper, hbehind, hrest⟩ := ascending_cons.mp h
    rw [findPlace] at hplace
    split at hplace
    next hle =>
      refine ⟨[], r :: rest, rfl, (Option.some.inj hplace).symm, by simp,
        forall_mem_cons.mpr ⟨hle, fun b hb => ?_⟩⟩
      have hge := hbehind b hb
      omega
    · split_ifs at hplace with hle
      obtain ⟨n, hn, rfl⟩ := Option.map_eq_some_iff.mp hplace
      obtain ⟨front, back, rfl, rfl, hfront, hback⟩ := ih hrest hn
      exact ⟨r :: front, back, rfl, rfl, forall_mem_cons.mpr ⟨hle, hfront⟩, hback⟩

/-- No place is found exactly when a region overlaps. -/
theorem findPlace_none (h : Sorted l) :
    findPlace start finish l = none ↔ ∃ r ∈ l, r.start < finish ∧ start < r.finish := by
  induction l with
  | nil => simp [findPlace]
  | cons r rest ih =>
    obtain ⟨hproper, hbehind, hrest⟩ := ascending_cons.mp h
    rw [findPlace]
    split
    next hle =>
      simp only [reduceCtorEq, false_iff, not_exists, not_and]
      refine forall_mem_cons.mpr ⟨fun hover => by omega, fun b hb hover => ?_⟩
      have hge := hbehind b hb
      omega
    · split
      next hle =>
        rw [Option.map_eq_none_iff, ih hrest]
        simp only [mem_cons, exists_eq_or_imp]
        exact ⟨.inr, fun hor => hor.resolve_left (by omega)⟩
      · simp only [true_iff]
        exact ⟨r, mem_cons_self, by omega, by omega⟩

/-- Inserting at the length of the front part. -/
theorem insertIdx_length_append (front back : List Reg) (r : Reg) :
    (front ++ back).insertIdx front.length r = front ++ r :: back := by
  induction front with
  | nil => simp
  | cons a front ih => simp [ih]

/-- What a successful call does to its list. -/
theorem memblockAddRange_eok (h : Sorted (s.list kind))
    (hrun : memblockAddRange s kind start finish flags = (s', .eok)) :
    start < finish ∧ Sorted (s'.list kind) ∧ (∃ slot front back, s.list kind = front ++ back ∧
        s'.list kind = front ++ ⟨slot, start, finish, flags⟩ :: back) ∧
      ∀ other, other ≠ kind → s'.list other = s.list other := by
  unfold memblockAddRange at hrun
  split at hrun
  · cases hrun
  next hlt =>
    split at hrun
    · cases hrun
    next place hplace =>
      split at hrun
      · cases hrun
      next records slot halloc =>
        obtain ⟨front, back, hl, rfl, hfront, hback⟩ := findPlace_some h hplace
        cases hrun
        have hlist : (State.withList { s with records := records }
            ((s.list kind).insertIdx front.length ⟨slot, start, finish, flags⟩) kind).list kind =
            front ++ ⟨slot, start, finish, flags⟩ :: back := by
          rw [hl, insertIdx_length_append]
          cases kind <;> rfl
        rw [hl] at h
        refine ⟨by omega, ?_, ⟨slot, front, back, hl, hlist⟩, fun other hother => ?_⟩
        · rw [hlist]
          exact h.insert (by dsimp only; omega) hfront hback
        · cases kind <;> cases other <;> first | rfl | exact absurd rfl hother

/-- A call is refused as invalid exactly when its range is empty or overlaps a region of its list. -/
theorem memblockAddRange_einval_iff (h : Sorted (s.list kind)) :
    (memblockAddRange s kind start finish flags).2 = .einval ↔
      finish ≤ start ∨ ∃ r ∈ s.list kind, r.start < finish ∧ start < r.finish := by
  unfold memblockAddRange
  split
  next hle =>
    simp [hle]
  next hlt =>
    simp only [hlt]
    rw [← findPlace_none h]
    split
    next hplace =>
      simp [hplace]
    next place hplace =>
      rw [hplace]
      split <;> simp

/-- Merging keeps the order and the addresses, and makes no record. -/
theorem mergeFrom_spec {rest merged : List Reg} {records records' : Records} (h : Sorted (r :: rest))
    (hrun : mergeFrom r rest records = (merged, records')) :
    Sorted merged ∧ (∀ a ∈ merged, r.start ≤ a.start) ∧ (∀ a, Holds merged a ↔ Holds (r :: rest) a) ∧
      (∀ m ∈ merged, ∃ m' ∈ r :: rest, m.flags = m'.flags) ∧ merged.length ≤ rest.length + 1 := by
  induction rest generalizing r merged records records' with
  | nil =>
    cases hrun
    exact ⟨h, by simp, fun a => Iff.rfl, by simp, by simp⟩
  | cons n rest ih =>
    obtain ⟨hr, hbehind, hrest⟩ := ascending_cons.mp h
    obtain ⟨hn, hbehind', hrest'⟩ := ascending_cons.mp hrest
    have hle := hbehind n mem_cons_self
    rw [mergeFrom] at hrun
    split at hrun
    next htouch =>
      have hjoined : Sorted ({ r with finish := n.finish } :: rest) :=
        ascending_cons.mpr ⟨by dsimp only; omega, hbehind', hrest'⟩
      obtain ⟨hsorted, hstart, hholds, hflag, hlength⟩ := ih hjoined hrun
      refine ⟨hsorted, hstart, fun a => ?_, fun m hm => ?_, by simp; omega⟩
      · rw [hholds]
        simp only [covers_cons, ← or_assoc]
        refine or_congr_left ?_
        omega
      · obtain ⟨m', hm', heq⟩ := hflag m hm
        rcases mem_cons.mp hm' with rfl | hm'
        · exact ⟨r, mem_cons_self, heq⟩
        · exact ⟨m', mem_cons_of_mem _ (mem_cons_of_mem _ hm'), heq⟩
    · generalize hmerge : mergeFrom n rest records = result at hrun
      cases hrun
      obtain ⟨hsorted, hstart, hholds, hflag, hlength⟩ := ih hrest hmerge
      refine ⟨ascending_cons.mpr ⟨hr, fun a ha => hle.trans (hstart a ha), hsorted⟩,
        forall_mem_cons.mpr ⟨le_rfl, fun a ha => ?_⟩, fun a => ?_,
        forall_mem_cons.mpr ⟨⟨r, mem_cons_self, rfl⟩, fun m hm => ?_⟩, by simp; omega⟩
      · have hge := hstart a ha
        omega
      · have hrest := hholds a
        simp only [Holds, covers_cons] at hrest ⊢
        rw [hrest]
      · obtain ⟨m', hm', heq⟩ := hflag m hm
        exact ⟨m', mem_cons_of_mem _ hm', heq⟩

/-- `_memblock_merge_memory` keeps the order, the addresses and the flags of the memory list. -/
theorem memblockMergeMemory_spec (h : Sorted s.memory) (hflags : ∀ r ∈ s.memory, r.flags = flags) :
    Sorted (memblockMergeMemory s).memory ∧ (∀ a, Holds (memblockMergeMemory s).memory a ↔ Holds s.memory a) ∧
      (∀ r ∈ (memblockMergeMemory s).memory, r.flags = flags) ∧
      (memblockMergeMemory s).memory.length ≤ s.memory.length ∧
      (memblockMergeMemory s).reserved = s.reserved := by
  unfold memblockMergeMemory
  split
  · exact ⟨h, fun a => Iff.rfl, hflags, le_rfl, rfl⟩
  next r rest hmemory =>
    rw [hmemory] at h hflags ⊢
    generalize hmerge : mergeFrom r rest s.records = result
    obtain ⟨hsorted, -, hholds, hflag, hlength⟩ := mergeFrom_spec h hmerge
    refine ⟨hsorted, hholds, fun m hm => ?_, by simpa using hlength, rfl⟩
    obtain ⟨m', hm', heq⟩ := hflag m hm
    exact heq.trans (hflags m' hm')

/-- A call: its list and its range. -/
structure Call where
  kind : Kind
  start : ℕ
  finish : ℕ
  deriving DecidableEq, Repr

/-- A successful call with `MEMBLOCK_NONE`. -/
def step (s : State) (c : Call) : Option State :=
  match memblockAddRange s c.kind c.start c.finish memblockNone with
  | (s, .eok) => some s
  | _ => none

/-- The ranges that the calls added to a list. -/
def Requested (calls : List Call) (kind : Kind) (a : ℕ) : Prop :=
  ∃ c ∈ calls, c.kind = kind ∧ c.start ≤ a ∧ a < c.finish

/-- A list in order and of normal regions that holds what was added to it. -/
structure Valid (calls : List Call) (kind : Kind) (l : List Reg) : Prop where
  sorted : Sorted l
  flags : ∀ r ∈ l, r.flags = memblockNone
  holds : ∀ a, Holds l a ↔ Requested calls kind a
  bound : ∀ r ∈ l, ∃ c ∈ calls, r.finish = c.finish

/-- The regions end where the calls do, also with one call more. -/
theorem Valid.bound_append (h : Valid calls kind l) (c : Call) :
    ∀ r ∈ l, ∃ c' ∈ calls ++ [c], r.finish = c'.finish := by
  intro r hr
  obtain ⟨c', hc', heq⟩ := h.bound r hr
  exact ⟨c', mem_append_left _ hc', heq⟩

/-- A call on the other list. -/
theorem Valid.other (h : Valid calls kind l) (hkind : kind ≠ c.kind) : Valid (calls ++ [c]) kind l := by
  refine ⟨h.sorted, h.flags, fun a => ?_, h.bound_append c⟩
  rw [h.holds]
  simp [Requested, exists_or, Ne.symm hkind]

/-- A call on this list. -/
theorem Valid.insert {slot : ℕ} (h : Valid calls c.kind (front ++ back))
    (hsorted : Sorted (front ++ ⟨slot, c.start, c.finish, memblockNone⟩ :: back)) :
    Valid (calls ++ [c]) c.kind (front ++ ⟨slot, c.start, c.finish, memblockNone⟩ :: back) := by
  refine ⟨hsorted, forall_mem_insert h.flags rfl, fun a => ?_,
    forall_mem_insert (h.bound_append c) ⟨c, by simp, rfl⟩⟩
  have hold := h.holds a
  simp only [covers_append, covers_cons] at hold ⊢
  rw [or_left_comm, hold, or_comm]
  simp [Requested, exists_or]

/-- One successful call. -/
theorem valid_step (h : ∀ kind, Valid calls kind (s.list kind))
    (hrun : step s c = some s') (kind : Kind) : Valid (calls ++ [c]) kind (s'.list kind) := by
  unfold step at hrun
  split at hrun
  swap
  · cases hrun
  rename_i t hadd
  cases hrun
  obtain ⟨-, hsorted, ⟨slot, front, back, hold, hnew⟩, hother⟩ := memblockAddRange_eok (h _).sorted hadd
  by_cases hkind : kind = c.kind
  · subst hkind
    have hvalid := h c.kind
    rw [hold] at hvalid
    rw [hnew] at hsorted ⊢
    exact hvalid.insert hsorted
  · rw [hother kind hkind]
    exact (h kind).other hkind

/-- Every sequence of successful calls. -/
theorem valid_runEvents {regions : ℕ}
    (hrun : TransitionSystem.runEvents step (initial regions) calls = some s) (kind : Kind) :
    Valid calls kind (s.list kind) := by
  have hgeneral : ∀ (done rest : List Call) (t : State), (∀ kind, Valid done kind (t.list kind)) →
      TransitionSystem.runEvents step t rest = some s → ∀ kind, Valid (done ++ rest) kind (s.list kind) := by
    intro done rest
    induction rest generalizing done with
    | nil =>
      rintro t ht ⟨⟩
      simpa using ht
    | cons c rest ih =>
      intro t ht hrun
      obtain ⟨t', hstep, hrest⟩ := Option.bind_eq_some_iff.mp hrun
      simpa using ih (done ++ [c]) t' (valid_step ht hstep) hrest
  refine hgeneral [] calls (initial regions) (fun kind => ?_) hrun kind
  have hnil : (initial regions).list kind = [] := by cases kind <;> rfl
  rw [hnil]
  exact ⟨ascending_nil, by simp, by simp [Requested], by simp⟩

end RtThread.Memblock
