import Mathlib.Data.List.Pairwise

/-!
# What may follow an event

In a log of events, `After e P` says that only events with the property `P` follow the event `e`. Logs grow at their end, so the lemmas are about appending.
-/

/-- Behind each occurrence of `e` there are only elements with `P`. -/
def List.After {α : Type*} (e : α) (P : α → Prop) (log : List α) : Prop :=
  log.Pairwise fun x y => x = e → P y

namespace List.After

variable {α : Type*} {e : α} {P : α → Prop} {log last : List α}

theorem of_absent (h : e ∉ log) : After e P log := by
  apply List.pairwise_of_forall_mem_list
  intro x hx y _ he
  exact absurd (he ▸ hx) h

theorem of_forall (h : ∀ x ∈ log, P x) : After e P log := by
  apply List.pairwise_of_forall_mem_list
  intro x _ y hy _
  exact h y hy

theorem append (h : After e P log) (hlast : ∀ x ∈ last, P x) : After e P (log ++ last) := by
  rw [After, List.pairwise_append]
  exact ⟨h, of_forall hlast, fun x _ y hy _ => hlast y hy⟩

theorem append_of_not_mem (h : e ∉ log) (hlast : After e P last) : After e P (log ++ last) := by
  rw [After, List.pairwise_append]
  refine ⟨of_absent h, hlast, ?_⟩
  intro x hx y _ he
  exact absurd (he ▸ hx) h

theorem of_not_mem (h : e ∉ log) (hlast : last.length ≤ 1) : After e P (log ++ last) := by
  apply append_of_not_mem h
  match last, hlast with
  | [], _ => exact .nil
  | [x], _ => exact List.pairwise_singleton _ _

theorem of_append (h : After e P (log ++ last)) : After e P log := (List.pairwise_append.mp h).1

theorem forall_of_mem (h : After e P (log ++ last)) (he : e ∈ log) : ∀ x ∈ last, P x := by
  intro x hx
  exact (List.pairwise_append.mp h).2.2 e he x hx rfl

end List.After
