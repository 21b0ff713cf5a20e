import LTMuduo.EventLoop.Threads
import LTMuduo.Lib.Fifo

/-!
# The functors run once and in order

The queue of an event loop, with the rest of the batch in front of it, is a first-in first-out queue: a push of any thread is a push, the call of a functor is a pop, and no other step touches it. A call of `doPendingFunctors` runs what was pushed before its swap.
-/

namespace LTMuduo

/-- What a step pushes: the poster and the functor. -/
def ThreadStep.posts {T F : Type*} : ThreadStep T F → List (Option T × F)
  | .call t (.queueInLoop cb) => [(t, cb)]
  | _ => []

/-- One entry for the call of a functor. -/
def ThreadStep.functorCalls {T F : Type*} : ThreadStep T F → List Unit
  | .runFunctor => [()]
  | _ => []

namespace Threads

variable {T F : Type*}

/-- The functors that have been posted and not been called. -/
def waiting (s : Threads T F) : List (Posted T F) := s.pc.rest ++ s.loop.pendingFunctors

def toFifo (s : Threads T F) : Fifo (Posted T F) where
  pushed := s.pushed
  popped := s.executed
  queue := s.waiting

/-- What a step does to the queue. -/
def fifoActs (s : Threads T F) : ThreadStep T F → List (Fifo.Act (Posted T F))
  | .call t (.queueInLoop cb) => [.push (s.nextPosted t cb)]
  | .runFunctor => [.pop]
  | _ => []

variable [DecidableEq T] {s s' : Threads T F} {a : ThreadStep T F}

theorem Moves.fifo (h : s.Moves a s') :
    Fifo.machine.run s.toFifo (s.fifoActs a) = some s'.toFifo := by
  have hsame {t : Threads T F} (hwaiting : t.waiting = s.waiting) (hpushed : t.pushed = s.pushed)
      (hexecuted : t.executed = s.executed) : some s.toFifo = some t.toFifo := by
    rw [toFifo, toFifo, hpushed, hexecuted, hwaiting]
  cases h with
  | publish => rfl
  | enterLoop _ hpc | beginPendingFunctors _ hpc | functorReturns _ _ hpc =>
    refine hsame ?_ rfl rfl
    rw [waiting, waiting, hpc]
    rfl
  | resetQuit hpc | leaveLoop hpc | stayInLoop hpc | handleRead hpc | endPendingFunctors hpc =>
    refine hsame ?_ rfl rfl
    rw [waiting, waiting, hpc]
    rfl
  | pollReturns woken hpc =>
    refine hsame ?_ rfl rfl
    rw [waiting, waiting, hpc]
    rfl
  | swapFunctors hpc =>
    refine hsame ?_ rfl rfl
    rw [waiting, waiting, hpc]
    exact List.append_nil _
  | runFunctor f rest hpc =>
    have hqueue : s.toFifo.queue = f :: (rest ++ s.loop.pendingFunctors) := by
      rw [toFifo, waiting, hpc]
      rfl
    change (s.toFifo.step .pop).bind _ = _
    rw [Fifo.step, hqueue]
    rfl
  | call t c =>
    cases c with
    | queueInLoop cb =>
      have hpush : (s.call t (.queueInLoop cb)).waiting = s.waiting ++ [s.nextPosted t cb] :=
        (List.append_assoc _ _ _).symm
      change some _ = some _
      rw [toFifo, toFifo, hpush]
      rfl
    | quit => rfl
    | wakeup => rfl
  | finishPush t n =>
    refine hsame ?_ rfl rfl
    unfold waiting EventLoop.wakeAfterPush
    split <;> rfl
  | finishQuit t =>
    refine hsame ?_ rfl rfl
    unfold waiting EventLoop.wakeAfterQuit
    split <;> rfl

theorem Moves.waiting_runFunctor (h : s.Moves .runFunctor s') :
    ∃ f, s.pc.rest.head? = some f ∧ s.waiting = f :: s'.waiting := by
  cases h with
  | runFunctor f rest hpc =>
    refine ⟨f, by rw [hpc]; rfl, ?_⟩
    rw [waiting, hpc]
    rfl

theorem Moves.waiting_queueInLoop {t : Option T} {cb : F}
    (h : s.Moves (.call t (.queueInLoop cb)) s') : s'.waiting = s.waiting ++ [s.nextPosted t cb] := by
  cases h
  exact (List.append_assoc _ _ _).symm

theorem Moves.waiting_eq (hrun : a ≠ .runFunctor) (hcall : ∀ t cb, a ≠ .call t (.queueInLoop cb))
    (h : s.Moves a s') : s'.waiting = s.waiting := by
  have hacts : s.fifoActs a = [] := by
    unfold fifoActs
    split
    · exact absurd rfl (hcall _ _)
    · exact absurd rfl hrun
    · rfl
  have hfifo := h.fifo
  rw [hacts] at hfifo
  exact (congrArg Fifo.queue (Option.some.inj hfifo)).symm

/-- The event loop refines the queue. -/
def fifoRefinement : Machine.Refinement (machine : Machine (Threads T F) (ThreadStep T F))
    (Fifo.machine : Machine (Fifo (Posted T F)) (Fifo.Act (Posted T F))) where
  abs := toFifo
  acts := fifoActs
  init := by
    intro _ h
    subst h
    rfl
  step := fun _ _ _ _ hstep => (step_moves hstep).fifo

/-! ### The history of the pushes -/

theorem Moves.pushed (h : s.Moves a s') :
    s'.pushed.map (fun e => (e.poster, e.functor)) =
      s.pushed.map (fun e => (e.poster, e.functor)) ++ a.posts := by
  cases h with
  | call t c =>
    cases c with
    | queueInLoop cb => exact List.map_append
    | quit => exact (List.append_nil _).symm
    | wakeup => exact (List.append_nil _).symm
  | _ => exact (List.append_nil _).symm

theorem run_pushed {as : List (ThreadStep T F)} (hrun : machine.run s as = some s') :
    s'.pushed.map (fun e => (e.poster, e.functor)) =
      s.pushed.map (fun e => (e.poster, e.functor)) ++ as.flatMap ThreadStep.posts := by
  rw [← Machine.collect_actions ThreadStep.posts hrun]
  exact Machine.run_collect (P := fun _ => True)
    (fun s : Threads T F => s.pushed.map fun e => (e.poster, e.functor))
    (fun _ _ _ _ hstep => ⟨trivial, (step_moves hstep).pushed⟩) trivial hrun

/-! ### The batch -/

/-- Between two swaps the called functors and the rest of the batch make up one list, and the batch is used up when `doPendingFunctors` returns. -/
theorem Moves.batch (hswap : a ≠ .swapFunctors) (h : s.Moves a s') :
    s'.executed ++ s'.pc.rest = s.executed ++ s.pc.rest := by
  cases h with
  | enterLoop _ hpc | beginPendingFunctors _ hpc | functorReturns _ _ hpc =>
    rw [hpc]
    rfl
  | resetQuit hpc | leaveLoop hpc | stayInLoop hpc | handleRead hpc | endPendingFunctors hpc =>
    rw [hpc]
    rfl
  | pollReturns woken hpc =>
    rw [hpc]
    rfl
  | swapFunctors => exact absurd rfl hswap
  | runFunctor f rest hpc =>
    rw [hpc]
    exact List.append_assoc _ _ _
  | call t c => cases c <;> rfl
  | _ => rfl

theorem Moves.executed (h : s.Moves a s') :
    s'.executed.map (fun _ => ()) = s.executed.map (fun _ => ()) ++ a.functorCalls := by
  cases h with
  | runFunctor => exact List.map_append
  | call t c => cases c <;> exact (List.append_nil _).symm
  | _ => exact (List.append_nil _).symm

theorem run_batch {bs : List (ThreadStep T F)} (hqueue : s.executed ++ s.waiting = s.pushed)
    (hpc : s.pc = .swap) (hbs : .swapFunctors ∉ bs)
    (hrun : machine.run s (.swapFunctors :: bs) = some s') :
    s'.executed ++ s'.pc.rest = s.pushed ∧
      (bs.flatMap ThreadStep.functorCalls).length ≤ s.loop.pendingFunctors.length := by
  have hrest : s.waiting = s.loop.pendingFunctors := by
    rw [waiting, hpc]
    rfl
  rw [hrest] at hqueue
  rw [Machine.run_cons] at hrun
  obtain ⟨t, hstep, hafter⟩ := Option.bind_eq_some_iff.mp hrun
  have ht : t.executed = s.executed ∧ t.pc.rest = s.loop.pendingFunctors := by
    have hmoves : s.Moves .swapFunctors t := step_moves hstep
    cases hmoves
    exact ⟨rfl, rfl⟩
  have hbatch : s'.executed ++ s'.pc.rest = t.executed ++ t.pc.rest := by
    refine Machine.run_preserves
      (P := fun u : Threads T F => u.executed ++ u.pc.rest = t.executed ++ t.pc.rest) ?_ rfl hafter
    intro u b u' hb hu hstep'
    have hswap : b ≠ .swapFunctors := by
      intro h
      subst h
      exact hbs hb
    exact ((step_moves hstep').batch hswap).trans hu
  have hcalls : s'.executed.map (fun _ => ()) =
      t.executed.map (fun _ => ()) ++ bs.flatMap ThreadStep.functorCalls := by
    rw [← Machine.collect_actions ThreadStep.functorCalls hafter]
    exact Machine.run_collect (P := fun _ => True)
      (fun s : Threads T F => s.executed.map fun _ => ())
      (fun _ _ _ _ hstep' => ⟨trivial, (step_moves hstep').executed⟩) trivial hafter
  rw [ht.1, ht.2] at hbatch
  refine ⟨hbatch.trans hqueue, ?_⟩
  have hlength := congrArg List.length hbatch
  have hcount := congrArg List.length hcalls
  rw [ht.1] at hcount
  simp only [List.length_append, List.length_map] at hlength hcount
  omega

/-- Every functor runs once, in the order of the pushes, the functors of one thread in its own order. A call of `doPendingFunctors` runs what was pushed before its swap, and no more than it found in the queue. -/
theorem functors_run_once_in_order {as : List (ThreadStep T F)}
    (hrun : machine.run start as = some s) :
    s.executed ++ s.pc.rest ++ s.loop.pendingFunctors = s.pushed ∧
      s.pushed.map (fun e => (e.poster, e.functor)) = as.flatMap ThreadStep.posts ∧
      (∀ t, (s.executed.filter fun e => e.poster == t) <+:
        s.pushed.filter fun e => e.poster == t) ∧
      (s.pc = .swap → ∀ bs s', .swapFunctors ∉ bs →
        machine.run s (.swapFunctors :: bs) = some s' →
        s'.executed ++ s'.pc.rest = s.pushed ∧ (s'.pc = .test → s'.executed = s.pushed) ∧
          (bs.flatMap ThreadStep.functorCalls).length ≤ s.loop.pendingFunctors.length) := by
  have hreach : machine.Reachable s := Machine.Reachable.run (.init rfl) hrun
  have hfifo := fifoRefinement.reachable hreach
  have hqueue : s.executed ++ s.waiting = s.pushed := Fifo.popped_append_queue hfifo
  refine ⟨(List.append_assoc _ _ _).trans hqueue, run_pushed hrun,
    fun t => Fifo.popped_filter_prefix hfifo _, ?_⟩
  intro hpc bs s' hbs hrun'
  obtain ⟨hbatch, hcalls⟩ := run_batch hqueue hpc hbs hrun'
  refine ⟨hbatch, ?_, hcalls⟩
  intro htest
  rw [htest] at hbatch
  rw [← hbatch]
  exact (List.append_nil _).symm

/-- A functor that queues itself again, next to one of another thread. -/
theorem functors_run_once_in_order_requeue :
    let as : List (ThreadStep Unit Nat) :=
      [.enterLoop, .resetQuit, .testQuit, .pollReturns false, .call none (.queueInLoop 1),
        .finishCall none, .beginPendingFunctors, .call (some ()) (.queueInLoop 2), .swapFunctors,
        .runFunctor, .call none (.queueInLoop 1), .finishCall (some ())]
    ∃ s, machine.run start as = some s ∧
      s.executed ++ s.pc.rest ++ s.loop.pendingFunctors = s.pushed ∧
      s.pushed.map (fun e => (e.poster, e.functor)) = [(none, 1), (some (), 2), (none, 1)] := by
  intro as
  have hruns : (machine.run start as).isSome := by decide
  obtain ⟨s, hrun⟩ := Option.isSome_iff_exists.mp hruns
  obtain ⟨hqueue, hpushed, _⟩ := functors_run_once_in_order hrun
  exact ⟨s, hrun, hqueue, hpushed⟩

end Threads

end LTMuduo
