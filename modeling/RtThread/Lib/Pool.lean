import Mathlib.Data.List.Nodup
import Mathlib.Data.List.Perm.Subperm
import Mathlib.Logic.Function.Basic

/-!
# A pool of cells that is shared

The cells of a pool are on a list, or are held by one of several holders. A cell moves between the list
and a holder, and none is lost or doubled.
-/

namespace RtThread.Lib

open Function List

variable {T : Type*} {max c : ℕ} {listed listed' : List ℕ} {held : T → Option ℕ} {t : T}

/-- The first `max` cells are on the list once or held by one holder, and no others are. -/
structure Shared (max : ℕ) (listed : List ℕ) (held : T → Option ℕ) : Prop where
  nodup : listed.Nodup
  pool : ∀ c, c < max ↔ c ∈ listed ∨ ∃ t, held t = some c
  apart : ∀ t c, held t = some c → c ∉ listed
  unique : ∀ t t' c, held t = some c → held t' = some c → t = t'

namespace Shared

/-- The order of the list does not matter. -/
theorem perm (h : Shared max listed held) (hperm : listed'.Perm listed) : Shared max listed' held where
  nodup := hperm.nodup_iff.mpr h.nodup
  pool c := by
    rw [hperm.mem_iff]
    exact h.pool c
  apart t c ht := by
    rw [hperm.mem_iff]
    exact h.apart t c ht
  unique := h.unique

/-- There are at most as many cells on the list as in the pool. -/
theorem length_le (h : Shared max listed held) : listed.length ≤ max := by
  have hsub : listed ⊆ List.range max := fun c hc =>
    mem_range.mpr ((h.pool c).mpr (.inl hc))
  simpa using (h.nodup.subperm hsub).length_le

variable [DecidableEq T]

/-- What is held after one holder has changed its cell. -/
theorem update_eq_some {u : T} {cell : Option ℕ} :
    update held t cell u = some c ↔ (u = t ∧ cell = some c) ∨ (u ≠ t ∧ held u = some c) := by
  rw [update_apply]
  split_ifs with hut <;> simp [hut]

/-- A holder takes a cell from the list. -/
theorem hold (h : Shared max (c :: listed) held) (ht : held t = none) :
    Shared max listed (update held t (some c)) where
  nodup := (nodup_cons.mp h.nodup).2
  pool c' := by
    rw [h.pool c', mem_cons]
    constructor
    · rintro ((rfl | hmem) | ⟨u, hu⟩)
      · exact .inr ⟨t, update_self ..⟩
      · exact .inl hmem
      · exact .inr ⟨u, update_eq_some.mpr (.inr ⟨fun hut => by simp [hut, ht] at hu, hu⟩)⟩
    · rintro (hmem | ⟨u, hu⟩)
      · exact .inl (.inr hmem)
      · rcases update_eq_some.mp hu with ⟨-, hc⟩ | ⟨-, hu⟩
        · exact .inl (.inl (Option.some.inj hc).symm)
        · exact .inr ⟨u, hu⟩
  apart u c' hu := by
    rcases update_eq_some.mp hu with ⟨-, ⟨⟩⟩ | ⟨-, hu⟩
    · exact (nodup_cons.mp h.nodup).1
    · exact fun hmem => h.apart u c' hu (mem_cons_of_mem c hmem)
  unique u u' c' hu hu' := by
    rcases update_eq_some.mp hu with ⟨hut, hc⟩ | ⟨-, hold⟩ <;>
      rcases update_eq_some.mp hu' with ⟨hut', hc'⟩ | ⟨-, hold'⟩
    · rw [hut, hut']
    · cases hc
      exact (h.apart u' c hold' mem_cons_self).elim
    · cases hc'
      exact (h.apart u c hold mem_cons_self).elim
    · exact h.unique u u' c' hold hold'

/-- A holder puts its cell on the list. -/
theorem release (h : Shared max listed held) (ht : held t = some c) :
    Shared max (c :: listed) (update held t none) where
  nodup := nodup_cons.mpr ⟨h.apart t c ht, h.nodup⟩
  pool c' := by
    rw [h.pool c', mem_cons]
    constructor
    · rintro (hmem | ⟨u, hu⟩)
      · exact .inl (.inr hmem)
      · by_cases hut : u = t
        · rw [hut, ht] at hu
          exact .inl (.inl (Option.some.inj hu).symm)
        · exact .inr ⟨u, by rwa [update_of_ne hut]⟩
    · rintro ((rfl | hmem) | ⟨u, hu⟩)
      · exact .inr ⟨t, ht⟩
      · exact .inl hmem
      · obtain ⟨-, ⟨⟩⟩ | ⟨-, hu⟩ := update_eq_some.mp hu
        exact .inr ⟨u, hu⟩
  apart u c' hu := by
    obtain ⟨-, ⟨⟩⟩ | ⟨hut, hu⟩ := update_eq_some.mp hu
    rw [mem_cons, not_or]
    refine ⟨?_, h.apart u c' hu⟩
    rintro rfl
    exact hut (h.unique u t c' hu ht)
  unique u u' c' hu hu' := by
    obtain ⟨-, ⟨⟩⟩ | ⟨-, hu⟩ := update_eq_some.mp hu
    obtain ⟨-, ⟨⟩⟩ | ⟨-, hu'⟩ := update_eq_some.mp hu'
    exact h.unique u u' c' hu hu'

/-- While a cell is held, not all of them are on the list. -/
theorem length_lt (h : Shared max listed held) (ht : held t = some c) : listed.length < max :=
  (h.release ht).length_le

end Shared

end RtThread.Lib
