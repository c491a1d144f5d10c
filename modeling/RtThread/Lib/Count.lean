import Mathlib.Data.Set.Card

/-!
# How many elements have a property

`HasCount p n` says that exactly `n` elements satisfy `p`; it implies that they are finitely many.
A step that changes the property of one element changes the count by at most one.
-/

namespace RtThread.Lib

variable {α : Type*} {p q : α → Prop} {n : ℕ} {a : α}

/-- Exactly `n` elements satisfy `p`. -/
def HasCount (p : α → Prop) (n : ℕ) : Prop := {a | p a}.encard = n

namespace HasCount

/-- No element satisfies the property. -/
theorem of_forall_not (h : ∀ a, ¬ p a) : HasCount p 0 := by
  have hempty : {a | p a} = ∅ := Set.eq_empty_iff_forall_notMem.mpr h
  simp [HasCount, hempty]

/-- The count is determined by the property. -/
theorem unique {m : ℕ} (h : HasCount p n) (h' : HasCount p m) : n = m := by
  have hcast : (n : ℕ∞) = m := h.symm.trans h'
  exact_mod_cast hcast

/-- A count of zero says that no element satisfies the property. -/
theorem forall_not (h : HasCount p 0) (a : α) : ¬ p a := by
  have hempty : {a | p a} = ∅ := Set.encard_eq_zero.mp h
  exact Set.eq_empty_iff_forall_notMem.mp hempty a

/-- A positive count says that some element satisfies the property. -/
theorem exists_of_pos (h : HasCount p n) (hn : 0 < n) : ∃ a, p a := by
  by_contra hnone
  have hzero := h.unique (of_forall_not fun a ha => hnone ⟨a, ha⟩)
  omega

/-- The same elements satisfy the property. -/
theorem congr (h : HasCount p n) (hq : ∀ a, q a ↔ p a) : HasCount q n := by
  have hset : {a | q a} = {a | p a} := Set.ext hq
  rw [HasCount, hset]
  exact h

/-- One more element satisfies the property. -/
theorem gain (h : HasCount p n) (hp : ¬ p a) (hq : q a) (hothers : ∀ b, b ≠ a → (q b ↔ p b)) :
    HasCount q (n + 1) := by
  have hset : {b | q b} = insert a {b | p b} := by
    ext b
    by_cases hb : b = a
    · simp [hb, hq]
    · simp [hb, hothers b hb]
  have hmem : a ∉ {b | p b} := hp
  rw [HasCount, hset, Set.encard_insert_of_notMem hmem, h]
  rfl

/-- One element less satisfies the property. -/
theorem lose (h : HasCount p n) (hp : p a) (hq : ¬ q a) (hothers : ∀ b, b ≠ a → (q b ↔ p b)) :
    ∃ m, n = m + 1 ∧ HasCount q m := by
  have hset : {b | p b} = insert a {b | q b} := by
    ext b
    by_cases hb : b = a
    · simp [hb, hp]
    · simp [hb, hothers b hb]
  have hcard : {b | q b}.encard + 1 = n := by
    rw [← Set.encard_insert_of_notMem (show a ∉ {b | q b} from hq), ← hset]
    exact h
  have hfinite : {b | q b}.encard ≠ ⊤ := by
    intro htop
    rw [htop] at hcard
    exact ENat.natCast_ne_top n hcard.symm
  obtain ⟨m, hm⟩ := ENat.ne_top_iff_exists.mp hfinite
  refine ⟨m, ?_, hm.symm⟩
  rw [← hm] at hcard
  exact_mod_cast hcard.symm

end HasCount

end RtThread.Lib
