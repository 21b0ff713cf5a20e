import LTMuduo.Lib.Machine

/-!
# A first-in first-out queue

What a queue is for, as a machine: every element that was pushed leaves the queue once, in the order of the pushes. The histories of both ends are a part of the state.
-/

/-- A queue between the history of its pushes and the history of its pops. -/
structure Fifo (α : Type*) where
  pushed : List α
  popped : List α
  queue : List α

namespace Fifo

variable {α : Type*}

inductive Act (α : Type*)
  | push (a : α)
  | pop

def step (q : Fifo α) : Act α → Option (Fifo α)
  | .push a => some { q with pushed := q.pushed ++ [a], queue := q.queue ++ [a] }
  | .pop =>
    match q.queue with
    | [] => none
    | a :: rest => some { q with popped := q.popped ++ [a], queue := rest }

def machine : Machine (Fifo α) (Act α) where
  init q := q = ⟨[], [], []⟩
  step := step

theorem popped_append_queue {q : Fifo α} (h : machine.Reachable q) :
    q.popped ++ q.queue = q.pushed := by
  refine h.invariant (P := fun q => q.popped ++ q.queue = q.pushed) ?_ ?_
  · intro _ h
    subst h
    rfl
  · intro q a q' _ _ hstep ih
    cases a with
    | push a =>
      cases hstep
      rw [← ih]
      simp
    | pop =>
      change q.step .pop = some q' at hstep
      unfold step at hstep
      dsimp only at hstep
      split at hstep
      · cases hstep
      · rename_i a rest hqueue
        cases hstep
        rw [← ih, hqueue]
        simp

/-- The elements of one kind leave the queue in the order in which they were pushed. -/
theorem popped_filter_prefix {q : Fifo α} (h : machine.Reachable q) (p : α → Bool) :
    q.popped.filter p <+: q.pushed.filter p := by
  rw [← popped_append_queue h, List.filter_append]
  exact List.prefix_append _ _

end Fifo
