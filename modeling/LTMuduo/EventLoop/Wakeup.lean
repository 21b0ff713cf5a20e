import LTMuduo.EventLoop.Threads

/-!
# No functor sleeps with the loop

`queueInLoop` wakes the loop for another thread and from the body of a functor, and does not when a channel calls it. The invariant says why this is enough: outside of the stretch between `poll` and the swap, a functor that was posted inside of `loop` is either in the hands of a call that has not returned, or the eventfd is not zero.
-/

namespace LTMuduo

namespace LoopPc

variable {T F : Type*}

/-- `callingPendingFunctors_` is set. -/
def Calling : LoopPc T F → Prop
  | .swap => True
  | .functors _ => True
  | .body _ => True
  | _ => False

/-- The loop thread swaps the queue before it polls again. -/
def SwapsFirst : LoopPc T F → Prop
  | .outside => True
  | .dispatch _ => True
  | .swap => True
  | _ => False

end LoopPc

namespace Threads

variable {T F : Type*} {s s' : Threads T F}

/-- The call that posted the functor has not returned. -/
def InFlight (s : Threads T F) (e : Posted T F) : Prop := s.stage e.poster = .pushed e.call

structure Awake (s : Threads T F) : Prop where
  calling : s.loop.callingPendingFunctors = true ↔ s.pc.Calling
  own : s.stage none ≠ .idle → s.pc.InUserCode
  eras : ∀ e ∈ s.loop.pendingFunctors, e.era ≤ s.entries
  covered : ¬ s.pc.SwapsFirst → ∀ e ∈ s.loop.pendingFunctors, e.era = s.entries →
    s.InFlight e ∨ 0 < s.loop.wakeupFd

theorem start_awake : (start : Threads T F).Awake := by
  refine ⟨⟨Bool.noConfusion, False.elim⟩, (absurd rfl ·), ?_, (absurd trivial ·)⟩
  intro e he
  cases he

variable [DecidableEq T]

theorem InFlight.other {t : Option T} {stage : CallStage} {e : Posted T F} (h : s.InFlight e)
    (hother : ∀ n, s.stage t ≠ .pushed n) : (s.setStage t stage).InFlight e := by
  have hposter : e.poster ≠ t := by
    intro h
    subst h
    exact hother e.call h
  exact (Function.update_of_ne hposter _ _).trans h

theorem setStage_own {t : Option T} {stage : CallStage}
    (hown : s.stage none ≠ .idle → s.pc.InUserCode) (huser : t = none → s.pc.InUserCode) :
    (s.setStage t stage).stage none ≠ .idle → s.pc.InUserCode := by
  intro hbusy
  by_cases ht : t = none
  · exact huser ht
  · apply hown
    change Function.update s.stage t stage none ≠ .idle at hbusy
    rwa [Function.update_of_ne (Ne.symm ht)] at hbusy

omit [DecidableEq T] in
theorem Awake.user (hawake : s.Awake) {t : Option T} (hbusy : s.stage t ≠ .idle) (ht : t = none) :
    s.pc.InUserCode := by
  subst ht
  exact hawake.own hbusy

theorem Moves.awake {a : ThreadStep T F} (hawake : s.Awake) (h : s.Moves a s') : s'.Awake := by
  have ⟨hcalling, hown, heras, hcovered⟩ := hawake
  cases h with
  | publish => exact ⟨hcalling, hown, heras, hcovered⟩
  | enterLoop hidle hpc =>
    rw [hpc] at hcalling
    refine ⟨hcalling, (absurd hidle ·), fun e he => Nat.le_succ_of_le (heras e he), ?_⟩
    intro _ e he hera
    have hold := heras e he
    dsimp only at hera
    omega
  | resetQuit hpc =>
    rw [hpc] at hcalling hown hcovered
    exact ⟨hcalling, hown, heras, hcovered⟩
  | leaveLoop hpc =>
    rw [hpc] at hcalling
    exact ⟨hcalling, fun _ => trivial, heras, (absurd trivial ·)⟩
  | stayInLoop hpc =>
    rw [hpc] at hcalling hown hcovered
    exact ⟨hcalling, hown, heras, hcovered⟩
  | pollReturns woken hpc =>
    rw [hpc] at hcalling
    exact ⟨hcalling, fun _ => trivial, heras, (absurd trivial ·)⟩
  | handleRead hpc =>
    rw [hpc] at hcalling
    exact ⟨hcalling, fun _ => trivial, heras, (absurd trivial ·)⟩
  | beginPendingFunctors hidle hpc =>
    exact ⟨iff_of_true rfl trivial, (absurd hidle ·), heras, (absurd trivial ·)⟩
  | swapFunctors hpc =>
    rw [hpc] at hcalling hown
    have hempty : ∀ e : Posted T F, e ∉ s.loop.swapFunctors.1.pendingFunctors := by
      intro e
      exact List.not_mem_nil
    exact ⟨hcalling, hown, fun e he => absurd he (hempty e), fun _ e he => absurd he (hempty e)⟩
  | runFunctor f rest hpc =>
    rw [hpc] at hcalling hcovered
    exact ⟨hcalling, fun _ => trivial, heras, hcovered⟩
  | functorReturns rest hidle hpc =>
    rw [hpc] at hcalling hcovered
    exact ⟨hcalling, (absurd hidle ·), heras, hcovered⟩
  | endPendingFunctors hpc =>
    rw [hpc] at hown hcovered
    exact ⟨iff_of_false Bool.false_ne_true id, hown, heras, hcovered⟩
  | call t c hidle huser =>
    have hother : ∀ n, s.stage t ≠ .pushed n := by
      rw [hidle]
      exact fun _ => CallStage.noConfusion
    cases c with
    | queueInLoop cb =>
      refine ⟨hcalling, setStage_own hown huser, ?_, ?_⟩
      · intro e he
        rcases List.mem_append.mp he with he | he
        · exact heras e he
        · rw [List.mem_singleton.mp he]
          exact Nat.le_refl _
      · intro hpc e he hera
        rcases List.mem_append.mp he with he | he
        · exact (hcovered hpc e he hera).imp_left (·.other hother)
        · rw [List.mem_singleton.mp he]
          exact Or.inl (Function.update_self _ _ _)
    | quit =>
      refine ⟨hcalling, setStage_own hown huser, heras, ?_⟩
      intro hpc e he hera
      exact (hcovered hpc e he hera).imp_left (·.other hother)
    | wakeup => exact ⟨hcalling, hown, heras, fun _ _ _ _ => Or.inr (Nat.succ_pos _)⟩
  | finishPush t n hstage =>
    have huser := hawake.user (t := t) (by simp [hstage])
    cases hwakes : !t.isNone || s.loop.callingPendingFunctors with
    | true =>
      rw [EventLoop.wakeAfterPush, hwakes]
      exact ⟨hcalling, setStage_own hown huser, heras, fun _ _ _ _ => Or.inr (Nat.succ_pos _)⟩
    | false =>
      rw [EventLoop.wakeAfterPush, hwakes]
      refine ⟨hcalling, setStage_own hown huser, heras, ?_⟩
      obtain ⟨hloop, hquiet⟩ := Bool.or_eq_false_iff.mp hwakes
      have hpc := huser (by simpa using hloop)
      have hnot : ¬ s.pc.Calling := by
        rw [← hcalling, hquiet]
        exact Bool.false_ne_true
      intro hlate
      change ¬ s.pc.SwapsFirst at hlate
      cases hs : s.pc <;> simp_all [LoopPc.InUserCode, LoopPc.Calling, LoopPc.SwapsFirst]
  | finishQuit t hstage =>
    have hother : ∀ n, s.stage t ≠ .pushed n := by
      rw [hstage]
      exact fun _ => CallStage.noConfusion
    have huser := hawake.user (t := t) (by simp [hstage])
    have hcovered' : ¬ s.pc.SwapsFirst → ∀ e ∈ s.loop.pendingFunctors, e.era = s.entries →
        (s.setStage t .idle).InFlight e ∨ 0 < s.loop.wakeupFd :=
      fun hpc e he hera => (hcovered hpc e he hera).imp_left (·.other hother)
    unfold EventLoop.wakeAfterQuit
    split
    · exact ⟨hcalling, setStage_own hown huser, heras, fun _ _ _ _ => Or.inr (Nat.succ_pos _)⟩
    · exact ⟨hcalling, setStage_own hown huser, heras, hcovered'⟩

theorem reachable_awake (h : machine.Reachable s) : s.Awake := by
  refine h.invariant (P := Awake) ?_ ?_
  · intro _ h
    subst h
    exact start_awake
  · exact fun _ _ _ _ _ hstep hawake => (step_moves hstep).awake hawake

/-- When the loop thread is about to block with the eventfd at zero, every functor in the queue that was posted since `loop` was entered belongs to a call that has not returned. -/
theorem no_stranded_functor (h : machine.Reachable s) (hpc : s.pc = .poll)
    (hzero : s.loop.wakeupFd = 0) :
    ∀ e ∈ s.loop.pendingFunctors, e.era = s.entries → s.InFlight e := by
  intro e he hera
  have hlate : ¬ s.pc.SwapsFirst := by
    rw [hpc]
    exact id
  rcases (reachable_awake h).covered hlate e he hera with hflight | hawake
  · exact hflight
  · omega

/-- The loop thread about to block between the push of another thread and its wakeup. -/
theorem no_stranded_functor_push :
    let as : List (ThreadStep Unit Unit) :=
      [.enterLoop, .resetQuit, .testQuit, .call (some ()) (.queueInLoop ())]
    ∃ s, machine.run start as = some s ∧
      ∀ e ∈ s.loop.pendingFunctors, e.era = s.entries → s.InFlight e := by
  intro as
  have hend : (machine.run start as).map (fun s => (s.pc, s.loop.wakeupFd)) = some (.poll, 0) := by
    decide
  obtain ⟨s, hrun, hs⟩ := Option.map_eq_some_iff.mp hend
  obtain ⟨hpc, hzero⟩ := Prod.mk.inj hs
  exact ⟨s, hrun, no_stranded_functor (Machine.Reachable.run (.init rfl) hrun) hpc hzero⟩

end Threads

end LTMuduo
