import Mathlib.Data.List.Basic
import Mathlib.Data.List.TakeWhile

/-!
# Absolute paths and their components

A path is a list over an alphabet with a separator `slash` and a character `dot`. Its components are
resolved one by one on a stack, most recent first: empty components and `dot` change nothing, and
`dot dot` takes the last component away. The canonical path of a stack has one separator before each
component.
-/

namespace RtThread.Lib.PathNames

open List

section

variable {α : Type*} [DecidableEq α] (slash dot : α)

/-- The stack of components after one more component. -/
def resolve (stack : List (List α)) (c : List α) : List (List α) :=
  if c = [] ∨ c = [dot] then stack
  else if c = [dot, dot] then stack.tail
  else c :: stack

/-- The components of a path, resolved one after the other. -/
def resolveAll (stack : List (List α)) (path : List α) : List (List α) :=
  (path.splitOn slash).foldl (resolve dot) stack

/-- The path of a stack. -/
def canonical (stack : List (List α)) : List α := slash :: [slash].intercalate stack.reverse

/-- The path of a stack with a separator after each component. -/
def render : List (List α) → List α
  | [] => [slash]
  | c :: stack => render stack ++ c ++ [slash]

/-- The components that a canonical path may have. -/
def IsName (c : List α) : Prop := c ≠ [] ∧ c ≠ [dot] ∧ c ≠ [dot, dot] ∧ slash ∉ c

end

variable {α : Type*} [DecidableEq α] {slash dot : α}

omit [DecidableEq α] in
/-- One more part is joined after one more separator. -/
theorem intercalate_concat (sep c : List α) {parts : List (List α)} (hne : parts ≠ []) :
    sep.intercalate (parts ++ [c]) = sep.intercalate parts ++ sep ++ c := by
  induction parts with
  | nil => exact absurd rfl hne
  | cons d parts ih =>
    cases parts with
    | nil => simp
    | cons e parts =>
      have hrest := ih (cons_ne_nil e parts)
      simp only [cons_append, intercalate_cons_cons] at hrest ⊢
      rw [hrest]
      simp

omit [DecidableEq α] in
/-- A component joins the path after a separator. -/
theorem canonical_cons (c : List α) (stack : List (List α)) :
    canonical slash (c :: stack) = render slash stack ++ c := by
  induction stack generalizing c with
  | nil => simp [canonical, render]
  | cons d stack ih =>
    rw [render, ← ih d, canonical, reverse_cons, intercalate_concat _ _ (by simp)]
    rfl

/-- An empty component changes nothing. -/
@[simp]
theorem resolve_nil (stack : List (List α)) : resolve dot stack [] = stack := by simp [resolve]

/-- The component `dot` changes nothing. -/
@[simp]
theorem resolve_dot (stack : List (List α)) : resolve dot stack [dot] = stack := by simp [resolve]

/-- The component `dot dot` takes the last component away. -/
@[simp]
theorem resolve_up (stack : List (List α)) : resolve dot stack [dot, dot] = stack.tail := by
  simp [resolve]

/-- A name is pushed. -/
theorem resolve_name (stack : List (List α)) {c : List α} (hname : IsName slash dot c) :
    resolve dot stack c = c :: stack := by
  rw [resolve, if_neg (not_or.mpr ⟨hname.1, hname.2.1⟩), if_neg hname.2.2.1]

/-- Every path is a component, or a component before a separator and a path. -/
theorem path_induction (slash : α) {motive : List α → Prop} (last : ∀ c, slash ∉ c → motive c)
    (next : ∀ c t, slash ∉ c → motive t → motive (c ++ slash :: t)) (path : List α) : motive path := by
  induction hsize : path.length using Nat.strongRecOn generalizing path with
  | ind size ih =>
    have hsplit := takeWhile_append_dropWhile (p := fun x => decide (x ≠ slash)) (l := path)
    have hcomp : slash ∉ path.takeWhile fun x => decide (x ≠ slash) := fun hmem => by
      simpa using mem_takeWhile_imp hmem
    cases htail : path.dropWhile fun x => decide (x ≠ slash) with
    | nil =>
      rw [htail, append_nil] at hsplit
      rw [← hsplit]
      exact last _ hcomp
    | cons x t =>
      have hx : x = slash := by
        have hhead := head_dropWhile_not (fun x => decide (x ≠ slash))
          (by rw [htail]; exact cons_ne_nil x t)
        simp only [htail, head_cons] at hhead
        simpa using hhead
      subst hx
      rw [htail] at hsplit
      rw [← hsplit]
      refine next _ t hcomp (ih t.length ?_ t rfl)
      rw [← hsize, ← hsplit, length_append, length_cons]
      omega

/-- A path without separator is one component. -/
theorem resolveAll_of_notMem (stack : List (List α)) {c : List α} (hc : slash ∉ c) :
    resolveAll slash dot stack c = resolve dot stack c := by
  have hsplit : c.splitOn slash = [c] := splitOnP_eq_singleton fun x hx => by
    simpa using ne_of_mem_of_not_mem hx hc
  rw [resolveAll, hsplit]
  rfl

/-- The first component of a path is resolved first. -/
theorem resolveAll_append_cons (stack : List (List α)) {c : List α} (t : List α) (hc : slash ∉ c) :
    resolveAll slash dot stack (c ++ slash :: t) = resolveAll slash dot (resolve dot stack c) t := by
  have hsplit : (c ++ slash :: t).splitOn slash = c :: t.splitOn slash :=
    splitOnP_append_cons_of_forall_mem
      (fun x hx => by simpa using ne_of_mem_of_not_mem hx hc) slash (by simp) t
  rw [resolveAll, hsplit]
  rfl

/-- A path after another is resolved after it. -/
theorem resolveAll_join (stack : List (List α)) (path t : List α) : resolveAll slash dot stack (path ++ slash :: t)
    = resolveAll slash dot (resolveAll slash dot stack path) t := by
  induction path using path_induction slash generalizing stack with
  | last c hc => rw [resolveAll_append_cons stack t hc, resolveAll_of_notMem stack hc]
  | next c p hc ih =>
    rw [append_assoc, cons_append, resolveAll_append_cons stack _ hc, ih, resolveAll_append_cons stack p hc]

/-- A separator in front changes nothing. -/
theorem resolveAll_slash (stack : List (List α)) (t : List α) :
    resolveAll slash dot stack (slash :: t) = resolveAll slash dot stack t := by
  calc resolveAll slash dot stack ([] ++ slash :: t) = resolveAll slash dot (resolve dot stack []) t :=
        resolveAll_append_cons stack t not_mem_nil

/-- Separators in front can be skipped. -/
theorem resolveAll_dropWhile (stack : List (List α)) (t : List α) :
    resolveAll slash dot stack (t.dropWhile fun x => decide (x = slash))
      = resolveAll slash dot stack t := by
  induction t with
  | nil => rfl
  | cons x t ih =>
    by_cases hx : x = slash
    · rw [hx, dropWhile_cons_of_pos (by simp), ih, resolveAll_slash]
    · rw [dropWhile_cons_of_neg (by simpa using hx)]

/-- What holds of the names of a path holds of the stack after resolving one of its components. -/
theorem resolve_forall {P : List α → Prop} {stack : List (List α)} {c : List α} (hslash : slash ∉ c)
    (hname : IsName slash dot c → P c) (hall : ∀ d ∈ stack, P d) : ∀ d ∈ resolve dot stack c, P d := by
  unfold resolve
  split_ifs with hempty hup
  · exact hall
  · exact fun d hd => hall d (mem_of_mem_tail hd)
  · rintro d (_ | ⟨_, hd⟩)
    · exact hname ⟨fun h => hempty (.inl h), fun h => hempty (.inr h), hup, hslash⟩
    · exact hall d hd

/-- What holds of the names of a path holds of the stack after resolving the path. -/
theorem resolveAll_forall {P : List α → Prop} (path : List α) : ∀ stack : List (List α),
    (∀ c, c ⊆ path → IsName slash dot c → P c) → (∀ d ∈ stack, P d) →
    ∀ d ∈ resolveAll slash dot stack path, P d := by
  induction path using path_induction slash with
  | last c hc =>
    intro stack hname hall
    rw [resolveAll_of_notMem stack hc]
    exact resolve_forall hc (hname c (List.Subset.refl c)) hall
  | next c t hc ih =>
    intro stack hname hall
    rw [resolveAll_append_cons stack t hc]
    refine ih _ (fun d hd => hname d fun x hx => ?_)
      (resolve_forall hc (hname c (subset_append_left c _)) hall)
    exact mem_append_right c (mem_cons_of_mem slash (hd hx))

/-- Resolving a path leaves only names on the stack. -/
theorem resolveAll_isName (path : List α) : ∀ d ∈ resolveAll slash dot [] path, IsName slash dot d :=
  resolveAll_forall path [] (fun _ _ hname => hname) fun _ hd => absurd hd not_mem_nil

/-- Names are pushed one after the other. -/
theorem foldl_resolve_names {names : List (List α)} (hall : ∀ d ∈ names, IsName slash dot d)
    (stack : List (List α)) : names.foldl (resolve dot) stack = names.reverse ++ stack := by
  induction names generalizing stack with
  | nil => rfl
  | cons d names ih =>
    rw [foldl_cons, resolve_name stack (hall d mem_cons_self),
      ih fun e he => hall e (mem_cons_of_mem d he)]
    simp

/-- Resolving a canonical path gives its components back. -/
theorem resolveAll_canonical {stack : List (List α)} (hall : ∀ d ∈ stack, IsName slash dot d) :
    resolveAll slash dot [] (canonical slash stack) = stack := by
  rw [canonical, resolveAll_slash]
  cases hstack : stack with
  | nil => exact resolveAll_of_notMem [] not_mem_nil
  | cons c rest =>
    have hnames : ∀ d ∈ stack.reverse, IsName slash dot d := fun d hd =>
      hall d (mem_reverse.mp hd)
    rw [← hstack, resolveAll, splitOn_intercalate slash (fun d hd => (hnames d hd).2.2.2)
      (by simp [hstack]), foldl_resolve_names hnames]
    simp

omit [DecidableEq α] in
/-- A canonical path ends with a separator only at the root. -/
theorem canonical_getLast {stack : List (List α)} (hall : ∀ d ∈ stack, IsName slash dot d)
    (hlast : (canonical slash stack).getLast? = some slash) : stack = [] := by
  cases stack with
  | nil => rfl
  | cons c rest =>
    obtain ⟨hne, -, -, hc⟩ := hall c mem_cons_self
    rw [canonical_cons, getLast?_append_of_ne_nil _ hne] at hlast
    exact absurd (List.mem_of_getLast? hlast) hc

end RtThread.Lib.PathNames
