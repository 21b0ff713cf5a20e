import Mathlib.Logic.Function.Basic

/-!
# Tables keyed by their owners

A table is a partial map. `Keyed table key record` says that it holds under the key of each owner the record of that owner, if the owner has one, and nothing else. With distinct keys it is kept by the one update every change of an owner needs: the new record stored under the key of the owner.
-/

variable {K W C : Type*}

theorem Function.update_eq_some [DecidableEq K] {table : K → Option W} {k k' : K} {v : Option W}
    {w : W} (h : Function.update table k v k' = some w) :
    (k' = k ∧ v = some w) ∨ (k' ≠ k ∧ table k' = some w) := by
  by_cases hk : k' = k
  · rw [hk, Function.update_self] at h
    exact Or.inl ⟨hk, h⟩
  · rw [Function.update_of_ne hk] at h
    exact Or.inr ⟨hk, h⟩

structure Keyed (table : K → Option W) (key : C → K) (record : C → Option W) : Prop where
  lookup : ∀ c, table (key c) = record c
  only : ∀ k w, table k = some w → ∃ c, key c = k

namespace Keyed

variable {table : K → Option W} {key : C → K} {record : C → Option W}

theorem empty (key : C → K) : Keyed (fun _ => (none : Option W)) key fun _ => none :=
  ⟨fun _ => rfl, fun _ _ h => by cases h⟩

theorem eq_some_iff (h : Keyed table key record) (k : K) (w : W) :
    table k = some w ↔ ∃ c, key c = k ∧ record c = some w := by
  constructor
  · intro hentry
    obtain ⟨c, rfl⟩ := h.only k w hentry
    exact ⟨c, rfl, (h.lookup c).symm.trans hentry⟩
  · intro h
    obtain ⟨c, rfl, hrecord⟩ := h
    exact (h.lookup c).trans hrecord

theorem update [DecidableEq K] [DecidableEq C] (h : Keyed table key record)
    (hkey : Function.Injective key) (c : C) (w : Option W) :
    Keyed (Function.update table (key c) w) key (Function.update record c w) := by
  constructor
  · intro d
    by_cases hd : d = c
    · subst d
      rw [Function.update_self, Function.update_self]
    · rw [Function.update_of_ne (hkey.ne hd), Function.update_of_ne hd]
      exact h.lookup d
  · intro k w' hentry
    by_cases hk : k = key c
    · exact ⟨c, hk.symm⟩
    · rw [Function.update_of_ne hk] at hentry
      exact h.only k w' hentry

end Keyed
