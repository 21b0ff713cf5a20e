import LTMuduo.EventLoop.Order
import LTMuduo.EventLoop.Wakeup
import LTMuduo.Lib.LeadsTo
import Mathlib.Data.Prod.Lex

/-!
# What is posted runs, and what is told to quit returns

The scheduler is fair: the loop thread goes on again and again where it can, which includes that callbacks and functors return, and the calls of other threads return. `poll` is only asked to return when the eventfd can be read; its timeout is not relied on. Then every functor that was posted since `loop` was entered is called, unless `loop` returns before, and a `quit_` that is set once the reset is over makes `loop` return.
-/

namespace LTMuduo

namespace ThreadStep

variable {T F : Type*}

/-- The steps of the loop thread inside of `loop`. A `poll` that returns without the eventfd is not one of them. -/
def OfLoop : ThreadStep T F → Prop
  | .resetQuit => True
  | .testQuit => True
  | .pollReturns woken => woken = true
  | .handleRead => True
  | .beginPendingFunctors => True
  | .swapFunctors => True
  | .runFunctor => True
  | .functorReturns => True
  | .endPendingFunctors => True
  | _ => False

/-- The end of a call of the thread. -/
def Finishes (t : Option T) : ThreadStep T F → Prop
  | .finishCall u => u = t
  | _ => False

end ThreadStep

namespace Threads

variable {T F : Type*} [DecidableEq T]

structure Fair (r : (machine : Machine (Threads T F) (ThreadStep T F)).Trace) : Prop where
  loop : r.StrongFair ThreadStep.OfLoop
  calls : ∀ t, r.WeakFair (ThreadStep.Finishes t)

/-! ### The loop thread is not held up for ever -/

section Enabled

variable {s s' : Threads T F} {a : ThreadStep T F}

theorem enabled_ofLoop (hown : s.stage none = .idle) (hinside : s.pc ≠ .outside)
    (hpoll : s.pc = .poll → 0 < s.loop.wakeupFd) : machine.Enabled ThreadStep.OfLoop s := by
  have hloop {a : ThreadStep T F} (hstep : s.step a = s.loopStep a) (hA : a.OfLoop)
      (hsome : (s.loopStep a).isSome) : machine.Enabled ThreadStep.OfLoop s := by
    obtain ⟨t, ht⟩ := Option.isSome_iff_exists.mp hsome
    exact ⟨a, t, hA, hstep.trans ht⟩
  cases hpc : s.pc with
  | outside => exact absurd hpc hinside
  | entered => exact hloop (a := .resetQuit) (if_pos hown) trivial (by simp [loopStep, hpc])
  | test =>
    refine hloop (a := .testQuit) (if_pos hown) trivial ?_
    cases hquit : s.loop.quit <;> simp [loopStep, hpc, hquit]
  | poll =>
    have hpos := hpoll hpc
    exact hloop (a := .pollReturns true) (if_pos hown) rfl (by simp [loopStep, hpc, hpos])
  | dispatch woken =>
    cases woken with
    | true => exact hloop (a := .handleRead) (if_pos hown) trivial (by simp [loopStep, hpc])
    | false =>
      exact hloop (a := .beginPendingFunctors) (if_pos hown) trivial (by simp [loopStep, hpc])
  | swap => exact hloop (a := .swapFunctors) (if_pos hown) trivial (by simp [loopStep, hpc])
  | functors rest =>
    cases rest with
    | nil =>
      exact hloop (a := .endPendingFunctors) (if_pos hown) trivial (by simp [loopStep, hpc])
    | cons f rest => exact hloop (a := .runFunctor) (if_pos hown) trivial (by simp [loopStep, hpc])
  | body rest => exact hloop (a := .functorReturns) (if_pos hown) trivial (by simp [loopStep, hpc])

theorem enabled_finishes {t : Option T} (hbusy : s.stage t ≠ .idle) :
    machine.Enabled (ThreadStep.Finishes t) s := by
  have hsome : (s.finishCall t).isSome := by
    unfold finishCall
    split
    · rename_i hidle
      exact absurd hidle hbusy
    · rfl
    · rfl
  obtain ⟨s', hs'⟩ := Option.isSome_iff_exists.mp hsome
  exact ⟨.finishCall t, s', rfl, hs'⟩

theorem Moves.finishes {t : Option T} (hA : ThreadStep.Finishes t a) (h : s.Moves a s') :
    s'.stage t = .idle := by
  cases h with
  | finishPush u n =>
    cases hA
    exact Function.update_self _ _ _
  | finishQuit u =>
    cases hA
    exact Function.update_self _ _ _
  | _ => exact absurd hA id

theorem Moves.finishes_wakes {u : T} (hA : ThreadStep.Finishes (some u) a) (h : s.Moves a s') :
    0 < s'.loop.wakeupFd := by
  cases h with
  | finishPush t n =>
    cases hA
    exact Nat.succ_pos _
  | finishQuit t =>
    cases hA
    exact Nat.succ_pos _
  | _ => exact absurd hA id

theorem Moves.poll_of (h : s.Moves a s') (hpc : s'.pc = .poll) (hbefore : s.pc ≠ .poll) :
    a.OfLoop := by
  cases h with
  | stayInLoop => trivial
  | call t c => cases c <;> exact absurd hpc hbefore
  | publish => exact absurd hpc hbefore
  | finishPush => exact absurd hpc hbefore
  | finishQuit => exact absurd hpc hbefore
  | _ => cases hpc

theorem setStage_busy {t u : Option T} {stage : CallStage} (hne : u ≠ t)
    (hbusy : s.stage u ≠ .idle) : (s.setStage t stage).stage u ≠ .idle := by
  change Function.update s.stage t stage u ≠ .idle
  rwa [Function.update_of_ne hne]

theorem Moves.poll_busy {u : T} (hbusy : s.stage (some u) ≠ .idle) (hpc : s.pc = .poll)
    (h : s.Moves a s') :
    (s'.pc ≠ .poll ∨ 0 < s'.loop.wakeupFd) ∨ s'.stage (some u) ≠ .idle ∧ s'.pc = .poll := by
  cases h with
  | pollReturns woken => exact Or.inl (Or.inl nofun)
  | call t c hidle =>
    have hne : some u ≠ t := by
      rintro rfl
      exact hbusy hidle
    cases c with
    | queueInLoop cb => exact Or.inr ⟨setStage_busy hne hbusy, hpc⟩
    | quit => exact Or.inr ⟨setStage_busy hne hbusy, hpc⟩
    | wakeup => exact Or.inr ⟨hbusy, hpc⟩
  | finishPush t n =>
    by_cases hne : some u = t
    · cases hne
      exact Or.inl (Or.inr (Nat.succ_pos _))
    · exact Or.inr ⟨setStage_busy hne hbusy, hpc⟩
  | finishQuit t =>
    by_cases hne : some u = t
    · cases hne
      exact Or.inl (Or.inr (Nat.succ_pos _))
    · exact Or.inr ⟨setStage_busy hne hbusy, hpc⟩
  | publish hpc' | enterLoop _ hpc' | resetQuit hpc' | leaveLoop hpc' | stayInLoop hpc'
  | handleRead hpc' | beginPendingFunctors _ hpc' | swapFunctors hpc' | runFunctor _ _ hpc'
  | functorReturns _ _ hpc' | endPendingFunctors hpc' =>
    rw [hpc] at hpc'
    cases hpc'

end Enabled

variable {r : (machine : Machine (Threads T F) (ThreadStep T F)).Trace}

theorem calls_return (hfair : Fair r) (t : Option T) :
    r.LeadsTo (fun s => s.stage t ≠ .idle) (fun s => s.stage t = .idle) := by
  refine Machine.Trace.leadsTo_of_weakFair (hfair.calls t) ?_ ?_ fun s _ => enabled_finishes
  · intro s a s' _ _ _
    exact Classical.em _
  · exact fun s a s' _ _ hA hstep => (step_moves hstep).finishes hA

theorem wakeup_arrives (hfair : Fair r) (u : T) :
    r.LeadsTo (fun s => s.stage (some u) ≠ .idle ∧ s.pc = .poll)
      (fun s => s.pc ≠ .poll ∨ 0 < s.loop.wakeupFd) := by
  refine Machine.Trace.leadsTo_of_weakFair (hfair.calls (some u)) ?_ ?_ ?_
  · exact fun s a s' _ hs hstep => (step_moves hstep).poll_busy hs.1 hs.2
  · exact fun s a s' _ _ hA hstep => Or.inr ((step_moves hstep).finishes_wakes hA)
  · exact fun s _ hs => enabled_finishes hs.1

/-- A wakeup has come, or is on its way with the call of another thread. -/
def Roused (s : Threads T F) : Prop := 0 < s.loop.wakeupFd ∨ ∃ u, s.stage (some u) ≠ .idle

/-- As long as the loop thread takes no step of its own, one of them is enabled again, when `poll` is roused. -/
theorem enabled_again (hfair : Fair r) {n : Nat} (hinside : ∀ k, n ≤ k → (r.state k).pc ≠ .outside)
    (hnot : ∀ k, n ≤ k → ¬ r.Takes ThreadStep.OfLoop k)
    (hroused : (r.state n).pc = .poll → (r.state n).Roused) :
    ∃ k, n ≤ k ∧ machine.Enabled ThreadStep.OfLoop (r.state k) := by
  have hpolled {k : Nat} (hpc : (r.state k).pc = .poll) (hpos : 0 < (r.state k).loop.wakeupFd) :
      machine.Enabled ThreadStep.OfLoop (r.state k) := by
    have hown : (r.state k).stage none = .idle := by
      by_contra hbusy
      have huser := (reachable_awake (r.reachable k)).own hbusy
      rw [hpc] at huser
      exact huser
    exact enabled_ofLoop hown (by rw [hpc]; exact nofun) fun _ => hpos
  have haway {k : Nat} (hk : n ≤ k) (hpc : (r.state k).pc ≠ .poll) :
      ∃ l, k ≤ l ∧ machine.Enabled ThreadStep.OfLoop (r.state l) := by
    have hstays : ∀ l, k ≤ l → (r.state l).pc ≠ .poll :=
      Machine.Trace.keeps_while_not_taken (I := fun s => s.pc ≠ .poll)
        (fun s a s' haway hA hstep hthere => hA ((step_moves hstep).poll_of hthere haway)) hpc
        fun l hl => hnot l (Nat.le_trans hk hl)
    obtain ⟨l, hl, hown⟩ : ∃ l, k ≤ l ∧ (r.state l).stage none = .idle := by
      by_cases hown : (r.state k).stage none = .idle
      · exact ⟨k, Nat.le_refl k, hown⟩
      · exact calls_return hfair none k hown
    exact ⟨l, hl, enabled_ofLoop hown (hinside l (Nat.le_trans hk hl)) (absurd · (hstays l hl))⟩
  by_cases hpc : (r.state n).pc = .poll
  · rcases hroused hpc with hpos | ⟨u, hbusy⟩
    · exact ⟨n, Nat.le_refl n, hpolled hpc hpos⟩
    · obtain ⟨k, hk, hgoal⟩ := wakeup_arrives hfair u n ⟨hbusy, hpc⟩
      by_cases hpc' : (r.state k).pc = .poll
      · exact ⟨k, hk, hpolled hpc' (hgoal.resolve_left (absurd hpc' ·))⟩
      · obtain ⟨l, hl, hen⟩ := haway hk hpc'
        exact ⟨l, Nat.le_trans hk hl, hen⟩
  · exact haway (Nat.le_refl n) hpc

/-! ### A fair trace -/

theorem not_enabled_outside {s : Threads T F} (hpc : s.pc = .outside) :
    ¬ machine.Enabled ThreadStep.OfLoop s := by
  rintro ⟨a, s', hA, hstep⟩
  cases step_moves hstep with
  | publish | enterLoop | call | finishPush | finishQuit => exact hA
  | resetQuit hpc' | leaveLoop hpc' | stayInLoop hpc' | pollReturns _ hpc' | handleRead hpc'
  | beginPendingFunctors _ hpc' | swapFunctors hpc' | runFunctor _ _ hpc'
  | functorReturns _ _ hpc' | endPendingFunctors hpc' =>
    rw [hpc] at hpc'
    cases hpc'

theorem not_enabled_idle {s : Threads T F} {t : Option T} (hidle : s.stage t = .idle) :
    ¬ machine.Enabled (ThreadStep.Finishes t) s := by
  rintro ⟨a, s', hA, hstep⟩
  cases step_moves hstep with
  | finishPush u n hstage =>
    cases hA
    rw [hidle] at hstage
    cases hstage
  | finishQuit u hstage =>
    cases hA
    rw [hidle] at hstage
    cases hstage
  | _ => exact hA

theorem fair_ofRun {s : Threads T F} {as : List (ThreadStep T F)}
    (hrun : machine.run start as = some s) (hpc : s.pc = .outside)
    (hidle : ∀ t, s.stage t = .idle) : Fair (Machine.Trace.ofRun rfl hrun) where
  loop := Machine.Trace.ofRun_strongFair (not_enabled_outside hpc)
  calls := fun t => (Machine.Trace.ofRun_strongFair (not_enabled_idle (hidle t))).weakFair

/-- One thread posts a functor while the loop thread is in `poll`, and tells it to quit. -/
def postAndQuit : List (ThreadStep Unit Unit) :=
  [.enterLoop, .resetQuit, .testQuit, .call (some ()) (.queueInLoop ()), .finishCall (some ()),
    .call (some ()) .quit, .finishCall (some ()), .pollReturns true, .handleRead,
    .beginPendingFunctors, .swapFunctors, .runFunctor, .functorReturns, .endPendingFunctors,
    .testQuit]

theorem run_postAndQuit : ∃ s, machine.run start postAndQuit = some s ∧ s.pc = .outside ∧
    ∀ t, s.stage t = .idle := by
  have hend : (machine.run start postAndQuit).map
      (fun s => (s.pc, s.stage none, s.stage (some ()))) = some (.outside, .idle, .idle) := by
    decide
  obtain ⟨s, hrun, hs⟩ := Option.map_eq_some_iff.mp hend
  obtain ⟨hpc, hs⟩ := Prod.mk.inj hs
  obtain ⟨hnone, hsome⟩ := Prod.mk.inj hs
  refine ⟨s, hrun, hpc, ?_⟩
  intro t
  cases t with
  | none => exact hnone
  | some u => exact hsome

/-! ### Functors -/

/-- How many steps of the loop thread are left up to the swap. -/
def stepsToSwap : LoopPc T F → Nat
  | .functors rest => 2 * rest.length + 6
  | .body rest => 2 * rest.length + 7
  | .entered => 5
  | .test => 4
  | .poll => 3
  | .dispatch true => 2
  | .dispatch false => 1
  | .swap => 0
  | .outside => 0

/-- How many steps of the loop thread are left of the batch. -/
def stepsOfBatch : LoopPc T F → Nat
  | .functors rest => 2 * rest.length
  | .body rest => 2 * rest.length + 1
  | _ => 0

/-- The functor is in the queue of the loop that is running. -/
def Queued (e : Posted T F) (s : Threads T F) : Prop :=
  s.pc ≠ .outside ∧ e ∈ s.loop.pendingFunctors ∧ e.era = s.entries

section Steps

variable {s s' : Threads T F} {a : ThreadStep T F} {e : Posted T F}

omit [DecidableEq T] in
theorem Queued.of_eq (h : Queued e s) {t : Threads T F} (hpc : t.pc = s.pc)
    (hpending : e ∈ t.loop.pendingFunctors) (hentries : t.entries = s.entries) :
    Queued e t ∧ stepsToSwap t.pc ≤ stepsToSwap s.pc := by
  rw [Queued, hpc, hentries]
  exact ⟨⟨h.1, hpending, h.2.2⟩, Nat.le_refl _⟩

theorem Moves.queued (hqueued : Queued e s) (h : s.Moves a s') :
    (s'.pc = .outside ∨ e ∈ s'.pc.rest) ∨
      Queued e s' ∧ stepsToSwap s'.pc ≤ stepsToSwap s.pc ∧
        (a.OfLoop → stepsToSwap s'.pc < stepsToSwap s.pc) := by
  have ⟨hinside, hpending, hera⟩ := hqueued
  have hless {t : Threads T F} (ht : Queued e t) (hlt : stepsToSwap t.pc < stepsToSwap s.pc) :
      (t.pc = .outside ∨ e ∈ t.pc.rest) ∨ Queued e t ∧ stepsToSwap t.pc ≤ stepsToSwap s.pc ∧
        (a.OfLoop → stepsToSwap t.pc < stepsToSwap s.pc) :=
    Or.inr ⟨ht, Nat.le_of_lt hlt, fun _ => hlt⟩
  have hsame {t : Threads T F} (hpc : t.pc = s.pc) (hmem : e ∈ t.loop.pendingFunctors)
      (hentries : t.entries = s.entries) (hA : ¬ a.OfLoop) :
      (t.pc = .outside ∨ e ∈ t.pc.rest) ∨ Queued e t ∧ stepsToSwap t.pc ≤ stepsToSwap s.pc ∧
        (a.OfLoop → stepsToSwap t.pc < stepsToSwap s.pc) := by
    obtain ⟨ht, hle⟩ := hqueued.of_eq hpc hmem hentries
    exact Or.inr ⟨ht, hle, (absurd · hA)⟩
  cases h with
  | publish hpc => exact absurd hpc hinside
  | enterLoop _ hpc => exact absurd hpc hinside
  | leaveLoop => exact Or.inl (Or.inl rfl)
  | swapFunctors => exact Or.inl (Or.inr hpending)
  | resetQuit hpc | stayInLoop hpc | handleRead hpc | beginPendingFunctors _ hpc
  | endPendingFunctors hpc =>
    refine hless ⟨nofun, hpending, hera⟩ ?_
    simp [hpc, stepsToSwap]
  | pollReturns woken hpc =>
    refine hless ⟨nofun, hpending, hera⟩ ?_
    cases woken <;> simp [hpc, stepsToSwap]
  | runFunctor f rest hpc =>
    refine hless ⟨nofun, hpending, hera⟩ ?_
    rw [hpc]
    simp only [stepsToSwap, List.length_cons]
    omega
  | functorReturns rest _ hpc =>
    refine hless ⟨nofun, hpending, hera⟩ ?_
    rw [hpc]
    exact Nat.lt_succ_self _
  | call t c =>
    cases c with
    | queueInLoop cb => exact hsame rfl (List.mem_append_left _ hpending) rfl id
    | quit => exact hsame rfl hpending rfl id
    | wakeup => exact hsame rfl hpending rfl id
  | finishPush t n =>
    refine hsame rfl ?_ rfl id
    unfold EventLoop.wakeAfterPush
    split <;> exact hpending
  | finishQuit t =>
    refine hsame rfl ?_ rfl id
    unfold EventLoop.wakeAfterQuit
    split <;> exact hpending

theorem Moves.batch_member (hmem : e ∈ s.pc.rest) (h : s.Moves a s') :
    e ∈ s'.executed ∨
      e ∈ s'.pc.rest ∧ stepsOfBatch s'.pc ≤ stepsOfBatch s.pc ∧
        (a.OfLoop → stepsOfBatch s'.pc < stepsOfBatch s.pc) := by
  have helsewhere {rest : List (Posted T F)} (hpc : s.pc.rest = rest) (hnil : rest = []) : False := by
    rw [hpc, hnil] at hmem
    exact List.not_mem_nil hmem
  cases h with
  | runFunctor f rest hpc =>
    rw [hpc] at hmem ⊢
    rcases List.mem_cons.mp hmem with rfl | hmem
    · exact Or.inl (List.mem_append_right _ List.mem_cons_self)
    · refine Or.inr ⟨hmem, ?_⟩
      simp only [stepsOfBatch, List.length_cons]
      omega
  | functorReturns rest _ hpc =>
    rw [hpc] at hmem ⊢
    exact Or.inr ⟨hmem, Nat.le_succ _, fun _ => Nat.lt_succ_self _⟩
  | publish hpc | enterLoop _ hpc | resetQuit hpc | leaveLoop hpc | stayInLoop hpc
  | pollReturns _ hpc | handleRead hpc | beginPendingFunctors _ hpc | swapFunctors hpc
  | endPendingFunctors hpc =>
    exact (helsewhere (congrArg LoopPc.rest hpc) rfl).elim
  | call t c => cases c <;> exact Or.inr ⟨hmem, Nat.le_refl _, False.elim⟩
  | _ => exact Or.inr ⟨hmem, Nat.le_refl _, False.elim⟩

end Steps

/-- Where the functor is in the queue and the loop thread in `poll`, the call that posted it has not returned or has woken the loop. -/
theorem Queued.roused {s : Threads T F} {e : Posted T F} (hreach : machine.Reachable s)
    (h : Queued e s) (hpc : s.pc = .poll) : s.Roused := by
  have hawake := reachable_awake hreach
  have hlate : ¬ s.pc.SwapsFirst := by
    rw [hpc]
    exact id
  rcases hawake.covered hlate e h.2.1 h.2.2 with hflight | hpos
  · have hbusy : s.stage e.poster ≠ .idle := by
      rw [hflight]
      exact CallStage.noConfusion
    cases hposter : e.poster with
    | none =>
      rw [hposter] at hbusy
      have huser := hawake.own hbusy
      rw [hpc] at huser
      exact huser.elim
    | some u => exact Or.inr ⟨u, by rwa [← hposter]⟩
  · exact Or.inl hpos

theorem queued_swapped (hfair : Fair r) (e : Posted T F) :
    r.LeadsTo (Queued e) (fun s => s.pc = .outside ∨ e ∈ s.pc.rest) := by
  refine Machine.Trace.leadsTo_of_strongFair (fun s => stepsToSwap s.pc) hfair.loop ?_ ?_
  · exact fun s a s' _ hs hstep => (step_moves hstep).queued hs
  · intro n hn
    refine enabled_again hfair (fun k hk => (hn k hk).1.1) (fun k hk => (hn k hk).2) ?_
    exact (hn n (Nat.le_refl n)).1.roused (r.reachable n)

theorem batch_called (hfair : Fair r) (e : Posted T F) :
    r.LeadsTo (fun s => e ∈ s.pc.rest) (fun s => e ∈ s.executed) := by
  have hplace {k : Nat} (hmem : e ∈ (r.state k).pc.rest) :
      (r.state k).pc ≠ .outside ∧ (r.state k).pc ≠ .poll := by
    constructor <;>
    · intro hpc
      rw [hpc] at hmem
      exact List.not_mem_nil hmem
  refine Machine.Trace.leadsTo_of_strongFair (fun s => stepsOfBatch s.pc) hfair.loop ?_ ?_
  · exact fun s a s' _ hs hstep => (step_moves hstep).batch_member hs
  · intro n hn
    refine enabled_again hfair (fun k hk => (hplace (hn k hk).1).1) (fun k hk => (hn k hk).2) ?_
    exact (absurd · (hplace (hn n (Nat.le_refl n)).1).2)

/-- Every functor that was posted since `loop` was entered is called, unless `loop` returns before: no thread that queued a functor waits for a timeout of `poll`. -/
theorem posted_functor_called (hfair : Fair r) (e : Posted T F) :
    r.LeadsTo (fun s => e ∈ s.pushed ∧ e.era = s.entries)
      (fun s => s.pc = .outside ∨ e ∈ s.executed) := by
  intro n hn
  obtain ⟨hpushed, hera⟩ := hn
  have hledger := Fifo.popped_append_queue (fifoRefinement.reachable (r.reachable n))
  change (r.state n).executed ++ (r.state n).waiting = (r.state n).pushed at hledger
  rw [← hledger] at hpushed
  have hbatch : r.LeadsTo (fun s => s.pc = .outside ∨ e ∈ s.pc.rest)
      (fun s => s.pc = .outside ∨ e ∈ s.executed) :=
    (Machine.Trace.LeadsTo.of_imp fun _ => Or.inl).or
      ((batch_called hfair e).trans (Machine.Trace.LeadsTo.of_imp fun _ => Or.inr))
  rcases List.mem_append.mp hpushed with hdone | hwaiting
  · exact ⟨n, Nat.le_refl n, Or.inr hdone⟩
  · rcases List.mem_append.mp hwaiting with hrest | hpending
    · exact hbatch n (Or.inr hrest)
    · by_cases hpc : (r.state n).pc = .outside
      · exact ⟨n, Nat.le_refl n, Or.inl hpc⟩
      · exact (queued_swapped hfair e).trans hbatch n ⟨hpc, hpending, hera⟩

theorem posted_functor_called_postAndQuit :
    ∃ r : (machine : Machine (Threads Unit Unit) (ThreadStep Unit Unit)).Trace,
      r.act 3 = some (.call (some ()) (.queueInLoop ())) ∧
        ∀ e, r.LeadsTo (fun s => e ∈ s.pushed ∧ e.era = s.entries)
          (fun s => s.pc = .outside ∨ e ∈ s.executed) := by
  obtain ⟨s, hrun, hpc, hidle⟩ := run_postAndQuit
  exact ⟨.ofRun rfl hrun, rfl, posted_functor_called (fair_ofRun hrun hpc hidle)⟩

/-! ### `quit` -/

/-- How far the loop thread is from the next test of `quit_`: the stage of the iteration first, then the rest of the batch. -/
def stepsToTest : LoopPc T F → Nat ×ₗ Nat
  | .entered => toLex (5, 0)
  | .poll => toLex (4, 0)
  | .dispatch true => toLex (3, 1)
  | .dispatch false => toLex (3, 0)
  | .swap => toLex (2, 0)
  | .functors rest => toLex (1, 2 * rest.length)
  | .body rest => toLex (1, 2 * rest.length + 1)
  | .test => toLex (0, 0)
  | .outside => toLex (0, 0)

/-- `quit_` is set, and nothing resets it before `loop` returns. -/
def ToldToQuit (s : Threads T F) : Prop :=
  s.pc ≠ .outside ∧ s.pc ≠ .entered ∧ s.loop.quit = true

section Steps

variable {s s' : Threads T F} {a : ThreadStep T F}

theorem Moves.toldToQuit (htold : s.ToldToQuit) (h : s.Moves a s') :
    s'.pc = .outside ∨
      s'.ToldToQuit ∧ stepsToTest s'.pc ≤ stepsToTest s.pc ∧
        (a.OfLoop → stepsToTest s'.pc < stepsToTest s.pc) := by
  have ⟨hinside, hreset, hquit⟩ := htold
  have hless {t : Threads T F} (ht : t.ToldToQuit) (hlt : stepsToTest t.pc < stepsToTest s.pc) :
      t.pc = .outside ∨ t.ToldToQuit ∧ stepsToTest t.pc ≤ stepsToTest s.pc ∧
        (a.OfLoop → stepsToTest t.pc < stepsToTest s.pc) :=
    Or.inr ⟨ht, le_of_lt hlt, fun _ => hlt⟩
  have hsame {t : Threads T F} (hpc : t.pc = s.pc) (hset : t.loop.quit = true)
      (hA : ¬ a.OfLoop) :
      t.pc = .outside ∨ t.ToldToQuit ∧ stepsToTest t.pc ≤ stepsToTest s.pc ∧
        (a.OfLoop → stepsToTest t.pc < stepsToTest s.pc) := by
    refine Or.inr ⟨?_, le_of_eq (by rw [hpc]), (absurd · hA)⟩
    rw [ToldToQuit, hpc]
    exact ⟨hinside, hreset, hset⟩
  cases h with
  | publish hpc => exact absurd hpc hinside
  | enterLoop _ hpc => exact absurd hpc hinside
  | resetQuit hpc => exact absurd hpc hreset
  | leaveLoop => exact Or.inl rfl
  | stayInLoop hpc hstay =>
    rw [hquit] at hstay
    cases hstay
  | handleRead hpc | beginPendingFunctors _ hpc | swapFunctors hpc | endPendingFunctors hpc =>
    refine hless ⟨nofun, nofun, hquit⟩ ?_
    simp [hpc, stepsToTest, Prod.Lex.toLex_lt_toLex]
  | pollReturns woken hpc =>
    refine hless ⟨nofun, nofun, hquit⟩ ?_
    cases woken <;> simp [hpc, stepsToTest, Prod.Lex.toLex_lt_toLex]
  | runFunctor f rest hpc =>
    refine hless ⟨nofun, nofun, hquit⟩ ?_
    rw [hpc]
    exact Prod.Lex.toLex_lt_toLex.mpr (Or.inr ⟨rfl, by simp only [List.length_cons]; omega⟩)
  | functorReturns rest _ hpc =>
    refine hless ⟨nofun, nofun, hquit⟩ ?_
    simp [hpc, stepsToTest, Prod.Lex.toLex_lt_toLex]
  | call t c =>
    cases c with
    | queueInLoop cb => exact hsame rfl hquit id
    | quit => exact hsame rfl rfl id
    | wakeup => exact hsame rfl hquit id
  | finishPush t n =>
    refine hsame rfl ?_ id
    unfold EventLoop.wakeAfterPush
    split <;> exact hquit
  | finishQuit t =>
    refine hsame rfl ?_ id
    unfold EventLoop.wakeAfterQuit
    split <;> exact hquit

/-- Where `quit_` is set with the loop thread in `poll`, the `quit` that has set it is still to wake the loop or has done so. -/
theorem Moves.quit_roused (hroused : s.pc = .poll → s.loop.quit = true → s.Roused)
    (h : s.Moves a s') : s'.pc = .poll → s'.loop.quit = true → s'.Roused := by
  intro hpc hquit
  have hlater (hthere : s.pc = .poll) (hset : s.loop.quit = true) :
      0 < s'.loop.wakeupFd ∨ s'.Roused := by
    rcases hroused hthere hset with hpos | ⟨u, hbusy⟩
    · left
      cases h with
      | stayInLoop hpc' =>
        rw [hthere] at hpc'
        cases hpc'
      | call t c =>
        cases c with
        | queueInLoop cb => exact hpos
        | quit => exact hpos
        | wakeup => exact Nat.succ_pos _
      | publish => exact hpos
      | finishPush t n =>
        unfold EventLoop.wakeAfterPush
        dsimp only
        split
        · exact Nat.succ_pos _
        · exact hpos
      | finishQuit t =>
        unfold EventLoop.wakeAfterQuit
        dsimp only
        split
        · exact Nat.succ_pos _
        · exact hpos
      | _ => cases hpc
    · rcases h.poll_busy hbusy hthere with (haway | hpos) | ⟨hbusy', _⟩
      · exact absurd hpc haway
      · exact Or.inl hpos
      · exact Or.inr (Or.inr ⟨u, hbusy'⟩)
  have hdone : 0 < s'.loop.wakeupFd ∨ s'.Roused → s'.Roused := by
    intro h
    exact h.elim Or.inl id
  cases h with
  | stayInLoop hpc' hstay =>
    change s.loop.quit = true at hquit
    rw [hstay] at hquit
    cases hquit
  | call t c hidle huser =>
    cases c with
    | queueInLoop cb => exact hdone (hlater hpc hquit)
    | wakeup => exact hdone (hlater hpc hquit)
    | quit =>
      cases t with
      | none =>
        have hcode := huser rfl
        change s.pc = .poll at hpc
        rw [hpc] at hcode
        exact hcode.elim
      | some u =>
        refine Or.inr ⟨u, ?_⟩
        change Function.update s.stage (some u) .quitStored (some u) ≠ .idle
        rw [Function.update_self]
        exact CallStage.noConfusion
  | publish => exact hdone (hlater hpc hquit)
  | finishPush t n =>
    refine hdone (hlater hpc ?_)
    unfold EventLoop.wakeAfterPush at hquit
    dsimp only at hquit
    split at hquit <;> exact hquit
  | finishQuit t =>
    refine hdone (hlater hpc ?_)
    unfold EventLoop.wakeAfterQuit at hquit
    dsimp only at hquit
    split at hquit <;> exact hquit
  | _ => cases hpc

theorem reachable_quit_roused (h : machine.Reachable s) :
    s.pc = .poll → s.loop.quit = true → s.Roused := by
  refine h.invariant
    (P := fun s : Threads T F => s.pc = .poll → s.loop.quit = true → s.Roused) ?_ ?_
  · intro _ h
    subst h
    exact nofun
  · exact fun s a s' _ _ hstep hroused => (step_moves hstep).quit_roused hroused

end Steps

theorem toldToQuit_leaves (hfair : Fair r) : r.LeadsTo ToldToQuit (fun s => s.pc = .outside) := by
  refine Machine.Trace.leadsTo_of_strongFair (fun s => stepsToTest s.pc) hfair.loop ?_ ?_
  · exact fun s a s' _ hs hstep => (step_moves hstep).toldToQuit hs
  · intro n hn
    refine enabled_again hfair (fun k hk => (hn k hk).1.1) (fun k hk => (hn k hk).2) ?_
    exact fun hpc => reachable_quit_roused (r.reachable n) hpc (hn n (Nat.le_refl n)).1.2.2

/-- Once the reset at its start is over, `loop` returns when `quit_` is set, whoever has set it and wherever the loop thread was. -/
theorem told_to_quit_returns (hfair : Fair r) :
    r.LeadsTo (fun s => s.pc ≠ .entered ∧ s.loop.quit = true) (fun s => s.pc = .outside) := by
  intro n hn
  by_cases hpc : (r.state n).pc = .outside
  · exact ⟨n, Nat.le_refl n, hpc⟩
  · exact toldToQuit_leaves hfair n ⟨hpc, hn.1, hn.2⟩

theorem told_to_quit_returns_postAndQuit :
    ∃ r : (machine : Machine (Threads Unit Unit) (ThreadStep Unit Unit)).Trace,
      r.act 5 = some (.call (some ()) .quit) ∧
        r.LeadsTo (fun s => s.pc ≠ .entered ∧ s.loop.quit = true) (fun s => s.pc = .outside) := by
  obtain ⟨s, hrun, hpc, hidle⟩ := run_postAndQuit
  exact ⟨.ofRun rfl hrun, rfl, told_to_quit_returns (fair_ofRun hrun hpc hidle)⟩

end Threads

end LTMuduo
