import LTMuduo.EventLoop.Threads

/-!
# `quit` and the start of the loop

`EventLoopThread::threadFunc` publishes the loop before it calls `loop`, and `loop` resets `quit_` at its start. A `quit` between the two is overwritten, and its wakeup is read by the first iteration. From the reset on, no `quit` is lost.
-/

namespace LTMuduo.Threads

variable {T F : Type*}

/-- The order of `threadFunc`: it publishes the loop, then calls `loop` once; another thread has the loop from `startLoop`. -/
def threadFunc (s : Threads T F) : ThreadStep T F → Bool
  | .enterLoop => s.published && s.entries == 0
  | .call (some _) .quit => s.published
  | _ => true

/-- `loop` resets `quit_` before any `quit` of another thread stores to it. -/
def resetsFirst (s : Threads T F) : ThreadStep T F → Bool
  | .resetQuit => !s.quitStored
  | _ => true

/-- The loop goes back to sleep after a `quit` that came between the publication and the reset has returned. -/
theorem quit_overwritten :
    ¬ ∀ s : Threads Unit Unit, machine.ReachableVia (fun s a => s.threadFunc a = true) s →
      s.quitReturned = true → ¬ (s.pc = .poll ∧ s.loop.wakeupFd = 0) := by
  intro hclaim
  let steps : List (ThreadStep Unit Unit) :=
    [.publish, .call (some ()) .quit, .finishCall (some ()), .enterLoop, .resetQuit, .testQuit,
      .pollReturns true, .handleRead, .beginPendingFunctors, .swapFunctors, .endPendingFunctors,
      .testQuit]
  have hend : ((machine.restrict fun s a => threadFunc s a = true).run start steps).map
      (fun s => (s.quitReturned, s.pc, s.loop.wakeupFd)) = some (true, .poll, 0) := by decide
  obtain ⟨s, hrun, hs⟩ := Option.map_eq_some_iff.mp hend
  obtain ⟨hreturned, hs⟩ := Prod.mk.inj hs
  obtain ⟨hpc, hzero⟩ := Prod.mk.inj hs
  have hreach : machine.ReachableVia (fun s a => threadFunc s a = true) s :=
    Machine.ReachableVia.run (.init rfl) hrun
  exact hclaim s hreach hreturned ⟨hpc, hzero⟩

/-- The invariant of the runs in which no `quit` is overwritten. -/
structure Quitting (s : Threads T F) : Prop where
  stored : s.quitStored = true → s.loop.quit = true
  stage : ∀ t, s.stage (some t) = .quitStored → s.quitStored = true
  returned : s.quitReturned = true → s.quitStored = true
  awake : s.quitReturned = true → s.pc = .poll → 0 < s.loop.wakeupFd

theorem start_quitting : (start : Threads T F).Quitting :=
  ⟨Bool.noConfusion, fun _ => CallStage.noConfusion, Bool.noConfusion, Bool.noConfusion⟩

variable [DecidableEq T] {s s' : Threads T F} {a : ThreadStep T F}

theorem stage_of_setStage {t : Option T} {u : T} {stage : CallStage} (hstage : stage ≠ .quitStored)
    (h : (s.setStage t stage).stage (some u) = .quitStored) :
    s.stage (some u) = .quitStored := by
  change Function.update s.stage t stage (some u) = .quitStored at h
  by_cases hu : some u = t
  · subst hu
    rw [Function.update_self] at h
    exact absurd h hstage
  · rwa [Function.update_of_ne hu] at h

theorem Moves.quitting (hquitting : s.Quitting) (hfirst : s.resetsFirst a = true)
    (h : s.Moves a s') : s'.Quitting := by
  obtain ⟨hstored, hstage, hreturned, hawake⟩ := hquitting
  cases h with
  | publish => exact ⟨hstored, hstage, hreturned, hawake⟩
  | resetQuit hpc =>
    have hnone : s.quitStored = false := by simpa [resetsFirst] using hfirst
    refine ⟨?_, hstage, hreturned, nofun⟩
    intro hset
    exact absurd hset (by simp [hnone])
  | stayInLoop hpc hquit =>
    refine ⟨hstored, hstage, hreturned, ?_⟩
    -- the test has read `quit_` as false, so no `quit` has stored to it
    intro hback
    have hset := hstored (hreturned hback)
    rw [hquit] at hset
    cases hset
  | enterLoop | leaveLoop | pollReturns | handleRead | beginPendingFunctors | swapFunctors
  | runFunctor | functorReturns | endPendingFunctors =>
    exact ⟨hstored, hstage, hreturned, nofun⟩
  | call t c hidle huser =>
    cases c with
    | queueInLoop cb =>
      refine ⟨hstored, ?_, hreturned, hawake⟩
      exact fun u hu => hstage u (stage_of_setStage CallStage.noConfusion hu)
    | wakeup => exact ⟨hstored, hstage, hreturned, fun _ _ => Nat.succ_pos _⟩
    | quit =>
      refine ⟨fun _ => rfl, ?_, ?_, hawake⟩
      · intro u hu
        by_cases ht : some u = t
        · subst ht
          exact Bool.or_true _
        · change Function.update s.stage t .quitStored (some u) = .quitStored at hu
          rw [Function.update_of_ne ht] at hu
          exact Bool.or_eq_true_iff.mpr (Or.inl (hstage u hu))
      · exact fun hback => Bool.or_eq_true_iff.mpr (Or.inl (hreturned hback))
  | finishPush t n hn =>
    refine ⟨?_, fun u hu => hstage u (stage_of_setStage CallStage.noConfusion hu), hreturned, ?_⟩
    · unfold EventLoop.wakeAfterPush
      split <;> exact hstored
    · intro hback hpc
      have hpos := hawake hback hpc
      unfold EventLoop.wakeAfterPush
      dsimp only
      split
      · exact Nat.succ_pos _
      · exact hpos
  | finishQuit t ht =>
    refine ⟨?_, fun u hu => hstage u (stage_of_setStage CallStage.noConfusion hu), ?_, ?_⟩
    · unfold EventLoop.wakeAfterQuit
      split <;> exact hstored
    · intro hback
      rcases Bool.or_eq_true_iff.mp hback with hback | hforeign
      · exact hreturned hback
      · obtain ⟨u, rfl⟩ := Option.isSome_iff_exists.mp hforeign
        exact hstage u ht
    · intro hback hpc
      cases t with
      | none => exact hawake (by simpa using hback) hpc
      | some u => exact Nat.succ_pos _

/-- In the runs in which `loop` resets `quit_` before the first `quit` of another thread, a `quit` that has returned is seen: `quit_` stays set, and the loop thread does not block with the eventfd at zero. -/
theorem quit_not_lost
    (h : machine.ReachableVia (fun s a => (threadFunc s a && resetsFirst s a) = true) s)
    (hreturned : s.quitReturned = true) :
    s.loop.quit = true ∧ ¬ (s.pc = .poll ∧ s.loop.wakeupFd = 0) := by
  have hquitting : s.Quitting := by
    refine h.invariant (P := Quitting) ?_ ?_
    · intro _ h
      subst h
      exact start_quitting
    · intro s a s' _ hguard hstep hquitting
      exact (step_moves hstep).quitting hquitting (Bool.and_eq_true_iff.mp hguard).2
  refine ⟨hquitting.stored (hquitting.returned hreturned), ?_⟩
  intro h
  obtain ⟨hpc, hzero⟩ := h
  have hpos := hquitting.awake hreturned hpc
  omega

/-- A `quit` while the loop thread is about to block. -/
theorem quit_not_lost_asleep :
    ∃ s : Threads Unit Unit,
      (machine.restrict fun s a => (threadFunc s a && resetsFirst s a) = true).run start
        [.publish, .enterLoop, .resetQuit, .testQuit, .call (some ()) .quit,
          .finishCall (some ())] = some s ∧
      s.loop.quit = true ∧ ¬ (s.pc = .poll ∧ s.loop.wakeupFd = 0) := by
  have hend : ((machine.restrict fun s a => (threadFunc s a && resetsFirst s a) = true).run start
      [.publish, .enterLoop, .resetQuit, .testQuit, .call (some ()) .quit,
        .finishCall (some ())]).map (fun s : Threads Unit Unit => s.quitReturned) = some true := by
    decide
  obtain ⟨s, hrun, hreturned⟩ := Option.map_eq_some_iff.mp hend
  exact ⟨s, hrun, quit_not_lost (Machine.ReachableVia.run (.init rfl) hrun) hreturned⟩

end LTMuduo.Threads
