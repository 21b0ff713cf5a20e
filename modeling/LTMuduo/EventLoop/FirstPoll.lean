import LTMuduo.EventLoop.Wakeup

/-!
# The first `poll`

Functors can be posted before `loop` is called: by the owning thread, in the callback that `threadFunc` calls in front of `loop`, or by any thread that has the pointer. `queueInLoop` decides by `callingPendingFunctors_` whether the owning thread has to be woken, which is false then. A run here consists of calls of `queueInLoop` and `runInLoop`, cut as in `Threads`, and of the steps of the owning thread up to its first `poll`.
-/

namespace LTMuduo

/-- A call is made by thread `t` and returns with `finishCall`; for the owning thread `t` is `none`. -/
inductive EarlyStep (T F : Type*)
  | queueInLoop (t : Option T) (cb : F)
  | runInLoop (t : Option T) (cb : F)
  | finishCall (t : Option T)
  | publish
  | enterLoop
  | resetQuit
  | testQuit

namespace EarlyStep

variable {T F : Type*}

/-- The functors that a step adds to the queue, each with its poster. -/
def posts : EarlyStep T F → List (Option T × F)
  | .queueInLoop t cb => [(t, cb)]
  | .runInLoop (some t) cb => [(some t, cb)]
  | _ => []

/-- A call of another thread returns. -/
def foreignReturn : EarlyStep T F → Bool
  | .finishCall (some _) => true
  | _ => false

end EarlyStep

namespace Threads

variable {T F : Type*} [DecidableEq T]

section

variable (s : Threads T F)

/-- The owning thread calls `cb` at once, and the calls that `cb` makes are steps of their own. -/
def runInLoop (cb : F) : Option T → Option (Threads T F)
  | none => if s.stage none = .idle ∧ s.pc.InUserCode then some s else none
  | some t => s.step (.call (some t) (.queueInLoop cb))

def earlyStep : EarlyStep T F → Option (Threads T F)
  | .queueInLoop t cb => s.step (.call t (.queueInLoop cb))
  | .runInLoop t cb => s.runInLoop cb t
  | .finishCall t => s.step (.finishCall t)
  | .publish => s.step .publish
  | .enterLoop => s.step .enterLoop
  | .resetQuit => s.step .resetQuit
  | .testQuit => s.step .testQuit

def early : Machine (Threads T F) (EarlyStep T F) where
  init s := s = start
  step := earlyStep

end

variable {s s' : Threads T F} {a : EarlyStep T F} {as : List (EarlyStep T F)}

/-- Before the first `poll` nothing leaves the queue, and each post of another thread has written to the eventfd or is about to. -/
structure Early (s : Threads T F) : Prop where
  calling : s.loop.callingPendingFunctors = false
  calls : ∀ t, s.stage t ≠ .quitStored
  pending : s.loop.pendingFunctors = s.pushed
  woken : (∃ e ∈ s.pushed, e.poster ≠ none) ↔
    0 < s.loop.wakeupFd ∨ ∃ t n, s.stage (some t) = .pushed n

omit [DecidableEq T] in
theorem start_early : (start : Threads T F).Early := by
  refine ⟨rfl, fun _ => CallStage.noConfusion, rfl, iff_of_false ?_ ?_⟩
  · rintro ⟨e, he, _⟩
    cases he
  · rintro (hwoken | ⟨t, n, hstage⟩)
    · exact Nat.lt_irrefl 0 hwoken
    · cases hstage

theorem stage_setStage_some {stage : CallStage} (t : T) :
    (s.setStage none stage).stage (some t) = s.stage (some t) :=
  Function.update_of_ne (Option.some_ne_none t) stage s.stage

theorem setStage_calls {t : Option T} {stage : CallStage} (h : ∀ u, s.stage u ≠ .quitStored)
    (hstage : stage ≠ .quitStored) (u : Option T) : (s.setStage t stage).stage u ≠ .quitStored := by
  change Function.update s.stage t stage u ≠ .quitStored
  by_cases hu : u = t
  · rw [hu, Function.update_self]
    exact hstage
  · rw [Function.update_of_ne hu]
    exact h u

theorem Early.queueInLoop (h : s.Early) (t : Option T) (cb : F) :
    (s.call t (.queueInLoop cb)).Early := by
  refine ⟨h.calling, setStage_calls h.calls CallStage.noConfusion, ?_, ?_⟩
  · exact congrArg (· ++ [s.nextPosted t cb]) h.pending
  · change (∃ e ∈ s.pushed ++ [s.nextPosted t cb], e.poster ≠ none) ↔
      0 < s.loop.wakeupFd ∨ ∃ u n, (s.setStage t (.pushed s.pushed.length)).stage (some u) = .pushed n
    cases t with
    | none =>
      simp only [stage_setStage_some]
      rw [← h.woken]
      constructor
      · rintro ⟨e, he, hposter⟩
        rcases List.mem_append.mp he with he | he
        · exact ⟨e, he, hposter⟩
        · rw [List.mem_singleton.mp he] at hposter
          exact absurd rfl hposter
      · rintro ⟨e, he, hposter⟩
        exact ⟨e, List.mem_append_left _ he, hposter⟩
    | some t =>
      refine iff_of_true ⟨s.nextPosted (some t) cb, ?_, Option.some_ne_none t⟩
        (Or.inr ⟨t, s.pushed.length, ?_⟩)
      · exact List.mem_append_right _ (List.mem_singleton_self _)
      · exact Function.update_self _ _ _

theorem Early.finishPush (h : s.Early) {t : Option T} {n : Nat} (hstage : s.stage t = .pushed n) :
    ({ s.setStage t .idle with loop := s.loop.wakeAfterPush t.isNone } : Threads T F).Early := by
  cases t with
  | none =>
    have hquiet : s.loop.wakeAfterPush (none : Option T).isNone = s.loop := by
      rw [EventLoop.wakeAfterPush, h.calling]
      rfl
    rw [hquiet]
    refine ⟨h.calling, setStage_calls h.calls CallStage.noConfusion, h.pending, ?_⟩
    simp only [stage_setStage_some]
    exact h.woken
  | some t =>
    refine ⟨h.calling, setStage_calls h.calls CallStage.noConfusion, h.pending, iff_of_true ?_ ?_⟩
    · exact h.woken.mpr (Or.inr ⟨t, n, hstage⟩)
    · exact Or.inl (Nat.succ_pos _)

/-- What a step does to the queue and to the eventfd. -/
structure EarlyEffect (s : Threads T F) (a : EarlyStep T F) (s' : Threads T F) : Prop where
  early : s'.Early
  posted : s'.pushed.map (fun e => (e.poster, e.functor)) =
    s.pushed.map (fun e => (e.poster, e.functor)) ++ a.posts
  wakeupFd : s'.loop.wakeupFd = s.loop.wakeupFd + a.foreignReturn.toNat

theorem Early.post (h : s.Early) {t : Option T} {cb : F} (hposts : a.posts = [(t, cb)])
    (hreturn : a.foreignReturn = false) (hstep : s.step (.call t (.queueInLoop cb)) = some s') :
    EarlyEffect s a s' := by
  cases step_moves hstep with
  | call =>
    refine ⟨h.queueInLoop t cb, ?_, ?_⟩
    · rw [hposts]
      exact List.map_append
    · rw [hreturn]
      rfl

omit [DecidableEq T] in
theorem Early.still (h : s.Early) {looping quit published : Bool} {pc : LoopPc T F} {entries : Nat}
    (hposts : a.posts = []) (hreturn : a.foreignReturn = false) :
    EarlyEffect s a
      { s with loop := { s.loop with looping, quit }, pc, published, entries } := by
  refine ⟨⟨h.calling, h.calls, h.pending, h.woken⟩, ?_, ?_⟩
  · rw [hposts, List.append_nil]
  · rw [hreturn]
    rfl

theorem Early.step (h : s.Early) (hstep : early.step s a = some s') : EarlyEffect s a s' := by
  change s.earlyStep a = some s' at hstep
  cases a with
  | queueInLoop t cb => exact h.post rfl rfl hstep
  | runInLoop t cb =>
    cases t with
    | none =>
      obtain ⟨_, hsame⟩ := Option.ite_none_right_eq_some.mp hstep
      cases hsame
      exact h.still rfl rfl
    | some t => exact h.post rfl rfl hstep
  | finishCall t =>
    cases step_moves (a := .finishCall t) hstep with
    | finishPush _ n hstage =>
      refine ⟨h.finishPush hstage, (List.append_nil _).symm, ?_⟩
      cases t with
      | none =>
        rw [EventLoop.wakeAfterPush, h.calling]
        rfl
      | some t => rfl
    | finishQuit _ hstage => exact absurd hstage (h.calls t)
  | publish =>
    cases step_moves (a := .publish) hstep
    exact h.still rfl rfl
  | enterLoop =>
    cases step_moves (a := .enterLoop) hstep
    exact h.still rfl rfl
  | resetQuit =>
    cases step_moves (a := .resetQuit) hstep
    exact h.still rfl rfl
  | testQuit =>
    cases step_moves (a := .testQuit) hstep with
    | leaveLoop => exact h.still rfl rfl
    | stayInLoop => exact h.still rfl rfl

theorem Early.run (h : s.Early) (hrun : early.run s as = some s') : s'.Early :=
  Machine.run_preserves (fun _ _ _ _ h hstep => (h.step hstep).early) h hrun

theorem pushed_of_run (hrun : early.run start as = some s) :
    s.pushed.map (fun e => (e.poster, e.functor)) = as.flatMap EarlyStep.posts := by
  have hledger := Machine.run_collect (P := Early) (f := fun _ a => a.posts)
    (fun s => s.pushed.map fun e => (e.poster, e.functor))
    (fun s a s' h hstep => ⟨(h.step hstep).early, (h.step hstep).posted⟩) start_early hrun
  rw [hledger, Machine.collect_actions _ hrun]
  rfl

/-- The eventfd counts the calls of other threads that have returned. -/
theorem wakeupFd_of_run (h : s.Early) (hrun : early.run s as = some s') :
    s'.loop.wakeupFd = s.loop.wakeupFd + as.countP EarlyStep.foreignReturn := by
  induction as generalizing s with
  | nil =>
    cases hrun
    rfl
  | cons a as ih =>
    rw [Machine.run_cons] at hrun
    obtain ⟨t, hstep, hrest⟩ := Option.bind_eq_some_iff.mp hrun
    have hhead := h.step hstep
    rw [ih hhead.early hrest, hhead.wakeupFd, List.countP_cons]
    rw [Nat.add_assoc, Nat.add_comm (Bool.toNat _)]
    cases a.foreignReturn <;> rfl

theorem wakeupFd_pos_iff (hrun : early.run start as = some s) :
    0 < s.loop.wakeupFd ↔ ∃ t, .finishCall (some t) ∈ as := by
  rw [wakeupFd_of_run start_early hrun]
  change 0 < 0 + as.countP EarlyStep.foreignReturn ↔ _
  rw [Nat.zero_add, List.countP_pos_iff]
  constructor
  · rintro ⟨a, ha, hreturn⟩
    cases a with
    | finishCall t =>
      cases t with
      | none => cases hreturn
      | some t => exact ⟨t, ha⟩
    | _ => cases hreturn
  · rintro ⟨t, ht⟩
    exact ⟨_, ht, rfl⟩

theorem pendingFunctors_eq_nil_iff (hrun : early.run start as = some s) :
    s.loop.pendingFunctors = [] ↔ as.flatMap EarlyStep.posts = [] := by
  rw [(start_early.run hrun).pending, ← pushed_of_run hrun, List.map_eq_nil_iff]

theorem returned_iff_posted (hrun : early.run start as = some s) (hidle : ∀ t, s.stage t = .idle) :
    (∃ t, .finishCall (some t) ∈ as) ↔ ∃ post ∈ as.flatMap EarlyStep.posts, post.1 ≠ none := by
  have hwoken := (start_early.run hrun).woken
  rw [or_iff_left, wakeupFd_pos_iff hrun] at hwoken
  · rw [← hwoken, ← pushed_of_run hrun]
    simp only [List.mem_map, exists_exists_and_eq_and]
  · rintro ⟨t, n, hstage⟩
    rw [hidle] at hstage
    cases hstage

theorem reachable_of_early (hrun : early.run start as = some s) : machine.Reachable s := by
  refine Machine.run_preserves (P := machine.Reachable) ?_ (.init rfl) hrun
  intro s a s' _ hreach hstep
  cases a with
  | queueInLoop t cb => exact .step hreach trivial (a := .call t (.queueInLoop cb)) hstep
  | runInLoop t cb =>
    cases t with
    | none =>
      obtain ⟨_, hsame⟩ := Option.ite_none_right_eq_some.mp hstep
      cases hsame
      exact hreach
    | some t => exact .step hreach trivial (a := .call (some t) (.queueInLoop cb)) hstep
  | finishCall t => exact .step hreach trivial (a := .finishCall t) hstep
  | publish => exact .step hreach trivial (a := .publish) hstep
  | enterLoop => exact .step hreach trivial (a := .enterLoop) hstep
  | resetQuit => exact .step hreach trivial (a := .resetQuit) hstep
  | testQuit => exact .step hreach trivial (a := .testQuit) hstep

theorem runs_at_once (hown : s.stage none = .idle) (hpoll : s.pc = .poll)
    (hwoken : 0 < s.loop.wakeupFd) :
    ∃ s', machine.run s [.pollReturns true, .handleRead, .beginPendingFunctors, .swapFunctors] =
      some s' ∧ s'.pc = .functors s.loop.pendingFunctors := by
  simp [Machine.run_cons, machine, Threads.step, loopStep, hown, hpoll, hwoken,
    EventLoop.handleRead, EventLoop.beginPendingFunctors, EventLoop.swapFunctors]

/-- In the first `poll`, the queue is empty or the eventfd is readable if and only if nothing was posted or a call of another thread has returned; with all calls returned, if and only if nothing was posted or another thread has posted as well. -/
theorem first_poll_ready_iff (hrun : early.run start as = some s) (hpoll : s.pc = .poll) :
    (s.loop.pendingFunctors = [] ∨ 0 < s.loop.wakeupFd ↔
      as.flatMap EarlyStep.posts = [] ∨ ∃ t, .finishCall (some t) ∈ as) ∧
    ((∀ t, s.stage t = .idle) →
      (s.loop.pendingFunctors = [] ∨ 0 < s.loop.wakeupFd ↔
        as.flatMap EarlyStep.posts = [] ∨
          ∃ post ∈ as.flatMap EarlyStep.posts, post.1 ≠ none)) ∧
    (0 < s.loop.wakeupFd →
      ∃ s', machine.run s
          [.pollReturns true, .handleRead, .beginPendingFunctors, .swapFunctors] = some s' ∧
        s'.pc = .functors s.loop.pendingFunctors) := by
  have hexact : s.loop.pendingFunctors = [] ∨ 0 < s.loop.wakeupFd ↔
      as.flatMap EarlyStep.posts = [] ∨ ∃ t, .finishCall (some t) ∈ as :=
    or_congr (pendingFunctors_eq_nil_iff hrun) (wakeupFd_pos_iff hrun)
  have hown : s.stage none = .idle := by
    by_contra hbusy
    have huser := (reachable_awake (reachable_of_early hrun)).own hbusy
    rw [hpoll] at huser
    exact huser
  refine ⟨hexact, ?_, runs_at_once hown hpoll⟩
  intro hidle
  rw [hexact, returned_iff_posted hrun hidle]

/-- The owning thread posts from the callback before `loop`, and another thread posts as well. -/
theorem first_poll_ready_iff_both :
    let as : List (EarlyStep Unit Unit) := [.queueInLoop none (), .runInLoop (some ()) (),
      .finishCall none, .enterLoop, .finishCall (some ()), .resetQuit, .testQuit]
    ∃ s, early.run start as = some s ∧
      (s.loop.pendingFunctors = [] ∨ 0 < s.loop.wakeupFd ↔
        as.flatMap EarlyStep.posts = [] ∨ ∃ t, .finishCall (some t) ∈ as) := by
  intro as
  have hend : (early.run start as).map (·.pc) = some .poll := by decide
  obtain ⟨s, hrun, hpoll⟩ := Option.map_eq_some_iff.mp hend
  exact ⟨s, hrun, (first_poll_ready_iff hrun hpoll).1⟩

/-- The callback of `threadFunc` posts a functor, and `poll` blocks on it. -/
theorem posted_functor_stranded :
    ¬ ∀ (as : List (EarlyStep Unit Unit)) (s : Threads Unit Unit), early.run start as = some s →
      s.pc = .poll → (∀ t, s.stage t = .idle) →
        s.loop.pendingFunctors = [] ∨ 0 < s.loop.wakeupFd := by
  intro hclaim
  let as : List (EarlyStep Unit Unit) := [.queueInLoop none (), .finishCall none, .publish,
    .enterLoop, .resetQuit, .testQuit]
  have hend : (early.run start as).map (fun s =>
      (s.pc, s.stage none, s.stage (some ()), s.loop.wakeupFd, s.loop.pendingFunctors.length)) =
      some (.poll, .idle, .idle, 0, 1) := by decide
  obtain ⟨s, hrun, hs⟩ := Option.map_eq_some_iff.mp hend
  simp only [Prod.mk.injEq] at hs
  obtain ⟨hpoll, hown, hother, hzero, hqueue⟩ := hs
  rcases hclaim as s hrun hpoll (by rintro (_ | _) <;> assumption) with hnil | hwoken
  · rw [hnil] at hqueue
    cases hqueue
  · rw [hzero] at hwoken
    exact Nat.lt_irrefl 0 hwoken

end Threads

end LTMuduo
