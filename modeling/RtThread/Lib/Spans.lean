import Mathlib.Data.List.Pairwise

/-!
# Lists of spans

A list of half-open spans `[lo v, hi v)` that ascend, do not overlap and are not empty, and the points they
cover.
-/

namespace RtThread.Lib

open List

variable {α : Type*} {lo hi : α → ℕ} {l front back : List α} {v : α} {x : ℕ}

/-- The spans ascend without overlap, and none is empty. -/
structure Ascending (lo hi : α → ℕ) (l : List α) : Prop where
  apart : l.Pairwise fun a b => hi a ≤ lo b
  proper : ∀ a ∈ l, lo a < hi a

/-- The point is in one of the spans. -/
def Covers (lo hi : α → ℕ) (l : List α) (x : ℕ) : Prop := ∃ a ∈ l, lo a ≤ x ∧ x < hi a

theorem ascending_nil : Ascending lo hi [] := ⟨List.Pairwise.nil, by simp⟩

/-- A span in front of all others. -/
theorem ascending_cons :
    Ascending lo hi (v :: l) ↔ lo v < hi v ∧ (∀ a ∈ l, hi v ≤ lo a) ∧ Ascending lo hi l := by
  constructor
  · rintro ⟨hapart, hproper⟩
    obtain ⟨hfirst, hrest⟩ := pairwise_cons.mp hapart
    obtain ⟨hv, hproper⟩ := forall_mem_cons.mp hproper
    exact ⟨hv, hfirst, hrest, hproper⟩
  · rintro ⟨hv, hfirst, hrest, hproper⟩
    exact ⟨pairwise_cons.mpr ⟨hfirst, hrest⟩, forall_mem_cons.mpr ⟨hv, hproper⟩⟩

/-- An element put between two parts of an ordered list. -/
theorem pairwise_insert {R : α → α → Prop} (h : (front ++ back).Pairwise R) (hfront : ∀ a ∈ front, R a v)
    (hback : ∀ b ∈ back, R v b) : (front ++ v :: back).Pairwise R := by
  obtain ⟨hleft, hright, hcross⟩ := pairwise_append.mp h
  refine pairwise_append.mpr ⟨hleft, pairwise_cons.mpr ⟨hback, hright⟩, fun a ha => ?_⟩
  exact forall_mem_cons.mpr ⟨hfront a ha, hcross a ha⟩

/-- A property of an element put between two parts of a list. -/
theorem forall_mem_insert {P : α → Prop} (h : ∀ a ∈ front ++ back, P a) (hv : P v) :
    ∀ a ∈ front ++ v :: back, P a := by
  obtain ⟨hfront, hback⟩ := forall_mem_append.mp h
  exact forall_mem_append.mpr ⟨hfront, forall_mem_cons.mpr ⟨hv, hback⟩⟩

/-- A span put between two parts of the list. -/
theorem Ascending.insert (h : Ascending lo hi (front ++ back)) (hv : lo v < hi v)
    (hfront : ∀ a ∈ front, hi a ≤ lo v) (hback : ∀ b ∈ back, hi v ≤ lo b) :
    Ascending lo hi (front ++ v :: back) :=
  ⟨pairwise_insert h.apart hfront hback, forall_mem_insert h.proper hv⟩

/-- The points of the first span and of the rest. -/
@[simp] theorem covers_cons : Covers lo hi (v :: l) x ↔ lo v ≤ x ∧ x < hi v ∨ Covers lo hi l x := by
  simp [Covers]

@[simp] theorem not_covers_nil : ¬ Covers lo hi [] x := by simp [Covers]

/-- The points of two lists. -/
@[simp] theorem covers_append :
    Covers lo hi (front ++ back) x ↔ Covers lo hi front x ∨ Covers lo hi back x := by
  simp only [Covers, mem_append, or_and_right, exists_or]

/-- Behind its first span an ascending list covers nothing below. -/
theorem Ascending.le_of_covers (h : Ascending lo hi (v :: l)) (hx : Covers lo hi l x) : hi v ≤ x := by
  obtain ⟨a, ha, hlow, -⟩ := hx
  exact Nat.le_trans ((ascending_cons.mp h).2.1 a ha) hlow

end RtThread.Lib
