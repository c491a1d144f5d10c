import Mathlib.Data.Tree.Basic
import Mathlib.Data.List.Basic
import Mathlib.Order.Basic

/-!
# Binary search trees seen through their in-order list

A three-way comparison guides a search from the root. Insertion puts a new leaf where the keys lead, and
removal lifts the successor of the removed node into its place. Each operation is described by what it
does to the in-order list, so a client reasons about sorted lists and never about the shape.
-/

namespace RtThread.Lib.SearchTree

open BinaryTree

variable {α : Type*}

/-- The values from left to right. -/
def inorder : BinaryTree α → List α
  | nil => []
  | node a l r => inorder l ++ a :: inorder r

/-- Walk down by a comparison that says on which side of a node the wanted place lies. -/
def search (cmp : α → Ordering) : BinaryTree α → Option α
  | nil => none
  | node a l r =>
    match cmp a with
    | .lt => search cmp l
    | .gt => search cmp r
    | .eq => some a

/-- Put a new leaf where its key leads; an equal key leaves the tree alone. -/
def insert (key : α → ℕ) (v : α) : BinaryTree α → BinaryTree α
  | nil => node v nil nil
  | node a l r =>
    if key v < key a then node a (insert key v l) r
    else if key a < key v then node a l (insert key v r)
    else node a l r

/-- The leftmost value of a tree given by its root and children, and the tree without it. -/
def popFirst (a : α) : BinaryTree α → BinaryTree α → α × BinaryTree α
  | nil, r => (a, r)
  | node b l r', r => ((popFirst b l r').1, node a (popFirst b l r').2 r)

/-- What is left of a node whose value is removed: its successor takes its place. -/
def dropRoot (l : BinaryTree α) : BinaryTree α → BinaryTree α
  | nil => l
  | node a rl rr => node (popFirst a rl rr).1 l (popFirst a rl rr).2

/-- Remove the values that satisfy a predicate. -/
def remove (p : α → Bool) : BinaryTree α → BinaryTree α
  | nil => nil
  | node a l r => if p a then dropRoot (remove p l) (remove p r) else node a (remove p l) (remove p r)

@[simp] theorem inorder_nil : inorder (nil : BinaryTree α) = [] := rfl

@[simp] theorem inorder_node (a : α) (l r : BinaryTree α) :
    inorder (node a l r) = inorder l ++ a :: inorder r := rfl

/-- Changing the values in place changes the list in place. -/
@[simp] theorem inorder_map {β : Type*} (f : α → β) (t : BinaryTree α) :
    inorder (t.map f) = (inorder t).map f := by
  induction t with
  | nil => rfl
  | node a l r hl hr => simp [BinaryTree.map, hl, hr]

/-- The leftmost value is the head of the list. -/
theorem inorder_popFirst (a : α) (l r : BinaryTree α) :
    (popFirst a l r).1 :: inorder (popFirst a l r).2 = inorder (node a l r) := by
  induction l generalizing a r with
  | nil => rfl
  | node b l' r' hl _ =>
    have hpop := hl b r'
    simp only [popFirst, inorder_node, ← List.cons_append, hpop]

/-- Removing a root joins the lists of its children. -/
theorem inorder_dropRoot (l r : BinaryTree α) : inorder (dropRoot l r) = inorder l ++ inorder r := by
  cases r with
  | nil => simp [dropRoot]
  | node a rl rr => rw [dropRoot, inorder_node, inorder_popFirst]

/-- Removal filters the list. -/
theorem inorder_remove (p : α → Bool) (t : BinaryTree α) :
    inorder (remove p t) = (inorder t).filter fun a => !p a := by
  induction t with
  | nil => rfl
  | node a l r hl hr =>
    rw [remove]
    split
    next hp =>
      simp [inorder_dropRoot, hl, hr, hp]
    next hp =>
      simp [hl, hr, hp]

/-- A list that splits in two and at an element has the element in one of the two parts. -/
theorem append_eq_append_cons {front back left right : List α} {a : α}
    (h : left ++ a :: right = front ++ back) : (∃ mid, left = front ++ mid ∧ back = mid ++ a :: right) ∨
      ∃ mid, front = left ++ a :: mid ∧ right = mid ++ back := by
  rcases List.append_eq_append_iff.mp h with ⟨mid, hmid, hrest⟩ | ⟨mid, hmid, hrest⟩
  · cases mid with
    | nil => exact .inl ⟨[], by simpa using hmid.symm, by simpa using hrest.symm⟩
    | cons b mid =>
      obtain ⟨rfl, hright⟩ := List.cons.inj hrest
      exact .inr ⟨mid, hmid, hright⟩
  · exact .inl ⟨mid, hmid, hrest⟩

variable {key : α → ℕ} {v : α} {t : BinaryTree α} {cmp : α → Ordering}

/-- Insertion puts the value between the smaller and the larger keys. -/
theorem inorder_insert {front back : List α}
    (h : inorder t = front ++ back) (hfront : ∀ a ∈ front, key a < key v)
    (hback : ∀ a ∈ back, key v < key a) : inorder (insert key v t) = front ++ v :: back := by
  induction t generalizing front back with
  | nil =>
    obtain ⟨rfl, rfl⟩ := List.append_eq_nil_iff.mp h.symm
    rfl
  | node a l r hl hr =>
    rcases append_eq_append_cons h with ⟨mid, hmid, rfl⟩ | ⟨mid, rfl, hrest⟩
    · have hroot := hback a (by simp)
      have hsub := hl hmid hfront fun x hx => hback x (List.mem_append_left _ hx)
      rw [insert, if_pos hroot, inorder_node, hsub, List.append_assoc, List.cons_append]
    · have hroot := hfront a (by simp)
      have hsub := hr hrest (fun x hx => hfront x (by simp [hx])) hback
      rw [insert, if_neg (by omega), if_pos hroot, inorder_node, hsub, List.append_assoc, List.cons_append]

/-- A filter that drops only the new value gives back the old list. -/
theorem filter_inorder_insert {p : α → Bool} (hv : p v = false)
    (hold : ∀ a ∈ inorder t, p a = true) : (inorder (insert key v t)).filter p = inorder t := by
  induction t with
  | nil => simp [insert, hv]
  | node a l r hl hr =>
    rw [inorder_node] at hold
    have hleft : ∀ x ∈ inorder l, p x = true := fun x hx => hold x (by simp [hx])
    have hright : ∀ x ∈ inorder r, p x = true := fun x hx => hold x (by simp [hx])
    have hroot := hold a (by simp)
    rw [insert]
    split
    · rw [inorder_node, inorder_node, List.filter_append, hl hleft, List.filter_cons_of_pos hroot,
        List.filter_eq_self.mpr hright]
    · split
      · rw [inorder_node, inorder_node, List.filter_append, List.filter_cons_of_pos hroot, hr hright,
          List.filter_eq_self.mpr hleft]
      · rw [inorder_node, List.filter_eq_self.mpr hold]

/-- What a search finds is in the tree and fits. -/
theorem search_some (h : search cmp t = some v) : v ∈ inorder t ∧ cmp v = .eq := by
  induction t with
  | nil => cases h
  | node a l r hl hr =>
    rw [search] at h
    rw [inorder_node, List.mem_append, List.mem_cons]
    split at h
    · exact ⟨.inl (hl h).1, (hl h).2⟩
    · exact ⟨.inr (.inr (hr h).1), (hr h).2⟩
    next heq =>
      cases h
      exact ⟨.inr (.inl rfl), heq⟩

/-- A search that finds nothing has missed nothing, if the comparison is monotone along the list. -/
theorem search_none (h : search cmp t = none)
    (hmono : (inorder t).Pairwise fun a b => (cmp a = .lt → cmp b = .lt) ∧ (cmp b = .gt → cmp a = .gt)) :
    ∀ v ∈ inorder t, cmp v ≠ .eq := by
  induction t with
  | nil => simp
  | node a l r hl hr =>
    rw [search] at h
    rw [inorder_node, List.pairwise_append, List.pairwise_cons] at hmono
    obtain ⟨hleft, ⟨hhead, hright⟩, hcross⟩ := hmono
    intro v hv
    rw [inorder_node, List.mem_append, List.mem_cons] at hv
    split at h
    next hlt =>
      rcases hv with hv | rfl | hv
      · exact hl h hleft v hv
      · rw [hlt]
        decide
      · rw [(hhead v hv).1 hlt]
        decide
    next hgt =>
      rcases hv with hv | rfl | hv
      · rw [(hcross v hv a List.mem_cons_self).2 hgt]
        decide
      · rw [hgt]
        decide
      · exact hr h hright v hv
    · cases h

end RtThread.Lib.SearchTree
