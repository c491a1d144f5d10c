import Mathlib.Data.List.Basic
import Mathlib.Logic.Function.Basic

/-!
# Singly linked lists in a pool of nodes

The nodes of a pool point to one another. `Linked next head l stop` says that the pointers lead from
`head` through the nodes of `l` to `stop`; with `none` at the end it is a whole list.
-/

namespace RtThread.Lib

open List

variable {α : Type*}

/-- The pointers lead from `head` through these nodes to `stop`. -/
def Linked (next : α → Option α) : Option α → List α → Option α → Prop
  | head, [], stop => head = stop
  | head, a :: l, stop => head = some a ∧ Linked next (next a) l stop

namespace Linked

variable {next next' : α → Option α} {head stop : Option α} {l l' : List α} {a : α}

/-- Two parts of a list. -/
theorem append_iff : Linked next head (l ++ l') stop ↔
    ∃ mid, Linked next head l mid ∧ Linked next mid l' stop := by
  induction l generalizing head with
  | nil => simp [Linked]
  | cons a l ih => simp only [cons_append, Linked, ih, and_assoc, exists_and_left]

/-- Only the pointers of the nodes of the list matter. -/
theorem congr (h : Linked next head l stop) (hnext : ∀ a ∈ l, next' a = next a) :
    Linked next' head l stop := by
  induction l generalizing head with
  | nil => exact h
  | cons a l ih =>
    refine ⟨h.1, ?_⟩
    rw [hnext a mem_cons_self]
    exact ih h.2 fun b hb => hnext b (mem_cons_of_mem a hb)

/-- A list with an end is determined by its first node. -/
theorem unique (h : Linked next head l none) (h' : Linked next head l' none) : l = l' := by
  induction l generalizing head l' with
  | nil =>
    cases l' with
    | nil => rfl
    | cons b l' => exact absurd (Eq.trans (Eq.symm h) h'.1) (by simp)
  | cons a l ih =>
    cases l' with
    | nil => exact absurd (Eq.trans (Eq.symm h') h.1) (by simp)
    | cons b l' =>
      obtain rfl : a = b := Option.mem_unique h.1 h'.1
      rw [ih h.2 h'.2]

/-- A list is empty when it has no first node. -/
theorem nil_iff (h : Linked next head l none) : head = none ↔ l = [] := by
  constructor
  · rintro rfl
    exact h.unique rfl
  · rintro rfl
    exact h

/-- The last node points to what comes after the list. -/
theorem next_last (h : Linked next head (l ++ [a]) stop) : next a = stop := by
  obtain ⟨_, -, -, hlast⟩ := append_iff.mp h
  exact hlast

/-- Nodes that each point to the next one. -/
theorem of_range (node : ℕ → α) {n : ℕ} (hnext : ∀ i < n, next (node i) = some (node (i + 1)))
    (hlast : next (node n) = stop) : Linked next (some (node 0)) ((List.range (n + 1)).map node) stop := by
  induction n generalizing stop with
  | zero => exact ⟨rfl, hlast⟩
  | succ n ih =>
    rw [range_succ, map_append, append_iff]
    exact ⟨_, ih (fun i hi => hnext i (Nat.lt_succ_of_lt hi)) (hnext n (Nat.lt_succ_self n)), rfl, hlast⟩

variable [DecidableEq α]

/-- The pointer of a node outside of the list may change. -/
theorem update (h : Linked next head l stop) (ha : a ∉ l) (value : Option α) :
    Linked (Function.update next a value) head l stop :=
  h.congr fun b hb => Function.update_of_ne (fun hab => ha (by rwa [← hab])) _ _

/-- The last pointer of a part of a list is redirected. -/
theorem redirect (h : Linked next head (l ++ [a]) stop) (hnodup : (l ++ [a]).Nodup)
    (value : Option α) : Linked (Function.update next a value) head (l ++ [a]) value := by
  obtain ⟨mid, hl, rfl, -⟩ := append_iff.mp h
  have ha : a ∉ l := fun hmem =>
    (nodup_append.mp hnodup).2.2 a hmem a mem_cons_self rfl
  exact append_iff.mpr ⟨some a, hl.update ha value, rfl, by rw [Function.update_self]; rfl⟩

/-- The number of nodes from `head` on, when there are at most `steps`. -/
def count (next : α → Option α) : ℕ → Option α → ℕ
  | 0, _ => 0
  | _ + 1, none => 0
  | steps + 1, some a => count next steps (next a) + 1

omit [DecidableEq α] in
/-- Counting the nodes of a list gives its length. -/
theorem count_eq {steps : ℕ} (h : Linked next head l none) (hsteps : l.length ≤ steps) :
    count next steps head = l.length := by
  induction l generalizing head steps with
  | nil =>
    obtain rfl : head = none := h
    cases steps <;> rfl
  | cons a l ih =>
    obtain ⟨rfl, hrest⟩ := h
    cases steps with
    | zero => cases hsteps
    | succ steps => exact congrArg (· + 1) (ih hrest (Nat.le_of_succ_le_succ hsteps))

end Linked

end RtThread.Lib
