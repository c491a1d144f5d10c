import Mathlib.Data.List.Basic
import Mathlib.Order.MinMax

/-!
# Lists ordered by a key

A list of elements is kept in order of a key by inserting each element before the first one of a
larger key; elements of one key stay in the order of their insertion. The first element then has the
smallest key.
-/

namespace RtThread.Lib

open List

section Insert

variable {α β : Type*} {key : α → β} {l : List α} {a : α}

/-- The key of the first element, or a default. -/
def firstKey (key : α → β) (default : β) : List α → β
  | [] => default
  | a :: _ => key a

/-- The first key does not depend on the keys of other elements. -/
theorem firstKey_congr {key' : α → β} {default : β} (hkey : ∀ a ∈ l, key' a = key a) :
    firstKey key' default l = firstKey key default l := by
  cases l with
  | nil => rfl
  | cons a l => exact hkey a mem_cons_self

variable [LinearOrder β]

/-- Insertion before the first element of a larger key. -/
def insertBy (key : α → β) (a : α) : List α → List α
  | [] => [a]
  | b :: l => if key a < key b then a :: b :: l else b :: insertBy key a l

/-- The list is in order of the key. -/
def SortedBy (key : α → β) (l : List α) : Prop := l.Pairwise (fun a b => key a ≤ key b)

/-- Insertion adds the element. -/
theorem insertBy_perm (key : α → β) (a : α) (l : List α) : (insertBy key a l).Perm (a :: l) := by
  induction l with
  | nil => exact List.Perm.refl _
  | cons b l ih =>
    unfold insertBy
    split
    · exact List.Perm.refl _
    · exact (ih.cons b).trans (List.Perm.swap a b l)

/-- The elements after an insertion. -/
theorem mem_insertBy {b : α} : b ∈ insertBy key a l ↔ b = a ∨ b ∈ l := by
  rw [(insertBy_perm key a l).mem_iff, mem_cons]

/-- Insertion keeps the order. -/
theorem SortedBy.insertBy (h : SortedBy key l) : SortedBy key (insertBy key a l) := by
  induction l with
  | nil => exact pairwise_singleton _ _
  | cons b l ih =>
    obtain ⟨hb, hl⟩ := pairwise_cons.mp h
    unfold Lib.insertBy
    split
    next hlt =>
      exact pairwise_cons.mpr ⟨forall_mem_cons.mpr ⟨hlt.le, fun c hc => hlt.le.trans (hb c hc)⟩, h⟩
    next hlt =>
      refine pairwise_cons.mpr ⟨?_, ih hl⟩
      intro c hc
      rcases mem_insertBy.mp hc with rfl | hc
      · exact not_lt.mp hlt
      · exact hb c hc

/-- Insertion keeps a relation between the elements and the later ones, when it holds for the new element
and the larger keys after it, and for the other keys before it. -/
theorem SortedBy.pairwise_insertBy {r : α → α → Prop} (h : SortedBy key l) (hr : l.Pairwise r)
    (hlarger : ∀ b ∈ l, key a < key b → r a b) (hother : ∀ b ∈ l, key b ≤ key a → r b a) :
    (Lib.insertBy key a l).Pairwise r := by
  induction l with
  | nil => exact pairwise_singleton _ _
  | cons b l ih =>
    obtain ⟨hb, hl⟩ := pairwise_cons.mp h
    obtain ⟨hrb, hrl⟩ := pairwise_cons.mp hr
    unfold Lib.insertBy
    split
    next hlt =>
      refine pairwise_cons.mpr ⟨fun c hc => hlarger c hc ?_, hr⟩
      rcases mem_cons.mp hc with rfl | hc
      · exact hlt
      · exact hlt.trans_le (hb c hc)
    next hlt =>
      refine pairwise_cons.mpr ⟨fun c hc => ?_, ih hl hrl
        (fun c hc => hlarger c (mem_cons_of_mem b hc))
        fun c hc => hother c (mem_cons_of_mem b hc)⟩
      rcases mem_insertBy.mp hc with rfl | hc
      · exact hother b mem_cons_self (not_lt.mp hlt)
      · exact hrb c hc

/-- Insertion on two lists whose elements are related and have the same keys. -/
theorem forall₂_insertBy {γ : Type*} {key' : γ → β} {r : α → γ → Prop} {l' : List γ} {a' : γ}
    (hkey : ∀ b b', r b b' → key b = key' b') (h : List.Forall₂ r l l') (ha : r a a') :
    List.Forall₂ r (insertBy key a l) (insertBy key' a' l') := by
  induction h with
  | nil => exact .cons ha .nil
  | @cons b b' l l' hb hl ih =>
    unfold insertBy
    rw [hkey a a' ha, hkey b b' hb]
    split
    · exact .cons ha (.cons hb hl)
    · exact .cons hb ih

/-- The first key after an insertion. -/
theorem firstKey_insertBy {default : β} (hdefault : key a ≤ default) :
    firstKey key default (insertBy key a l) = min (key a) (firstKey key default l) := by
  cases l with
  | nil => exact (min_eq_left hdefault).symm
  | cons b l =>
    unfold insertBy
    split
    next hlt =>
      exact (min_eq_left hlt.le).symm
    next hlt =>
      exact (min_eq_right (not_lt.mp hlt)).symm

/-- In an ordered list no key is below the first. -/
theorem SortedBy.firstKey_le {default : β} (h : SortedBy key l) (ha : a ∈ l) :
    firstKey key default l ≤ key a := by
  cases l with
  | nil => cases ha
  | cons b l =>
    rcases mem_cons.mp ha with rfl | hmem
    · exact le_rfl
    · exact (pairwise_cons.mp h).1 a hmem

/-- The order does not depend on the keys of other elements. -/
theorem SortedBy.congr {key' : α → β} (h : SortedBy key l) (hkey : ∀ a ∈ l, key' a = key a) :
    SortedBy key' l := by
  apply List.Pairwise.imp_of_mem _ h
  intro a b ha hb hle
  rw [hkey a ha, hkey b hb]
  exact hle

/-- A part of an ordered list is ordered. -/
theorem SortedBy.filter (h : SortedBy key l) (p : α → Bool) : SortedBy key (l.filter p) :=
  List.Pairwise.filter p h

end Insert

section Least

variable {α β : Type*} [LinearOrder β] {key : α → β} {l : List α} {init b : β}

/-- The least of a first value and the keys of a list, as a loop computes it. -/
def leastKey (key : α → β) (init : β) (l : List α) : β := l.foldl (fun m a => min m (key a)) init

/-- The bounds of a least key. -/
theorem le_leastKey_iff : b ≤ leastKey key init l ↔ b ≤ init ∧ ∀ a ∈ l, b ≤ key a := by
  induction l generalizing init with
  | nil => simp [leastKey]
  | cons a l ih =>
    rw [show leastKey key init (a :: l) = leastKey key (min init (key a)) l from rfl, ih,
      le_min_iff, forall_mem_cons, and_assoc]

/-- Two least keys with the same bounds are equal. -/
theorem leastKey_eq_of_bounds {c : β} (h : ∀ b, b ≤ c ↔ b ≤ init ∧ ∀ a ∈ l, b ≤ key a) :
    leastKey key init l = c := by
  apply eq_of_forall_le_iff
  intro b
  rw [le_leastKey_iff, h]

/-- The least key is at most the first value. -/
theorem leastKey_le_init : leastKey key init l ≤ init := (le_leastKey_iff.mp le_rfl).1

/-- The least key is at most every key. -/
theorem leastKey_le {a : α} (ha : a ∈ l) : leastKey key init l ≤ key a :=
  (le_leastKey_iff.mp le_rfl).2 a ha

/-- The least key depends on the keys of the elements only. -/
theorem leastKey_congr {key' : α → β} (h : ∀ a ∈ l, key' a = key a) :
    leastKey key' init l = leastKey key init l := by
  apply leastKey_eq_of_bounds
  intro b
  rw [le_leastKey_iff]
  apply and_congr_right
  intro _
  exact forall₂_congr fun a ha => by rw [h a ha]

/-- In an ordered list the first key is the least. -/
theorem SortedBy.leastKey_eq (h : SortedBy key l) (hinit : ∀ a ∈ l, key a ≤ init) :
    leastKey key init l = firstKey key init l := by
  cases l with
  | nil => rfl
  | cons a l =>
    apply leastKey_eq_of_bounds
    intro b
    constructor
    · intro hb
      exact ⟨le_trans hb (hinit a mem_cons_self), fun c hc => le_trans hb (h.firstKey_le hc)⟩
    · intro hb
      exact hb.2 a mem_cons_self

end Least

end RtThread.Lib
