import LTMuduo.EventLoop.Progress
import LTMuduo.Lib.Component
import LTMuduo.TcpServer.Teardown

/-!
# The end of a server comes

The thread of the base loop goes on in `~TcpServer`, the io loops go on where they can and the calls of other threads return. Then every `quit` of the destructor ends its loop, wherever this loop stands, every join returns, and so does the destructor. Each io loop is a trace of `Threads` of its own, and what ends it is proved there.
-/

namespace LTMuduo

namespace ServerPc

variable {n : Nat} {C : Type*}

/-- The loop that the destructor is in a call of. -/
def calling : ServerPc n C → Option (Fin n)
  | .pushed loop _ => some loop
  | .quitting thread _ => some thread
  | _ => none

/-- The loop that has been told to quit and is not joined yet. -/
def awaited : ServerPc n C → Option (Fin n)
  | .quitting thread _ => some thread
  | .joining thread _ => some thread
  | _ => none

/-- The steps that are left of the destructor. -/
def left : ServerPc n C → Nat
  | .posting connections => 2 * connections.length + 3 * n + 1
  | .pushed _ connections => 2 * connections.length + 3 * n + 2
  | .stopping threads => 3 * threads.length
  | .quitting _ threads => 3 * threads.length + 2
  | .joining _ threads => 3 * threads.length + 1

theorem eq_of_left {pc : ServerPc n C} (h : pc.left = 0) : pc = .stopping [] := by
  cases pc with
  | stopping threads =>
    cases threads with
    | nil => rfl
    | cons => exact absurd h (Nat.succ_ne_zero _)
  | _ => exact absurd h (Nat.succ_ne_zero _)

end ServerPc

namespace Threads

variable {C U : Type*} [DecidableEq U] {x y : Threads (IoCaller U) (IoFunctor C)}
  {a : ThreadStep (IoCaller U) (IoFunctor C)}

theorem Moves.base_stage (hown : a.ofIoLoop = true) (hmoves : x.Moves a y) :
    y.stage (some .base) = x.stage (some .base) := by
  have hset {t : Option (IoCaller U)} {stage : CallStage} (hne : some .base ≠ t) :
      (x.setStage t stage).stage (some .base) = x.stage (some .base) :=
    Function.update_of_ne hne _ _
  cases hmoves with
  | call t c =>
    have hne : some .base ≠ t := by
      rintro rfl
      cases hown
    cases c with
    | wakeup => rfl
    | _ => exact hset hne
  | finishPush t =>
    refine hset ?_
    rintro rfl
    cases hown
  | finishQuit t =>
    refine hset ?_
    rintro rfl
    cases hown
  | _ => rfl

end Threads

namespace Teardown

variable {n : Nat} {C U : Type*} [DecidableEq U] {s s' : Teardown n C U}
  {a : TeardownStep n C U} {connections : List (C × Fin n)}

/-- The calls of the destructor: on which loop it is in one, and which loop it has told to quit. -/
structure Calls (s : Teardown n C U) : Prop where
  stage : ∀ i, (s.io i).stage (some .base) ≠ .idle ↔ s.pc.calling = some i
  quit : ∀ i, s.pc.awaited = some i → (s.io i).loop.quit = true

omit [DecidableEq U] in
theorem Calls.update (h : s.Calls) {i : Fin n} (pc : ServerPc n C)
    {x : Threads (IoCaller U) (IoFunctor C)}
    (hi : x.stage (some .base) ≠ .idle ↔ pc.calling = some i)
    (hothers : ∀ j ≠ i, (pc.calling = some j ↔ s.pc.calling = some j) ∧
      (pc.awaited = some j → s.pc.awaited = some j))
    (hquit : pc.awaited = some i → x.loop.quit = true) :
    ({ s.setLoop i x with pc := pc } : Teardown n C U).Calls where
  stage := setLoop_forall (P := fun j y => y.stage (some .base) ≠ .idle ↔ pc.calling = some j) hi
    fun j hj => (h.stage j).trans (hothers j hj).1.symm
  quit := setLoop_forall (P := fun j y => pc.awaited = some j → y.loop.quit = true) hquit
    fun j hj hpc => h.quit j ((hothers j hj).2 hpc)

theorem Moves.calls (h : s.Calls) (hsound : s.Sound connections) (hmoves : s.Moves a s') :
    s'.Calls := by
  cases hmoves with
  | loop i b x hown hstep =>
    have hmoves := Threads.step_moves hstep
    refine h.update s.pc ?_ (fun j _ => ⟨Iff.rfl, id⟩) fun hpc => ?_
    · rw [hmoves.base_stage hown]
      exact h.stage i
    · rw [hmoves.quit_quiet (hsound.running i) (Threads.quiet_of_ofIoLoop hown)]
      exact h.quit i hpc
  | post i conn rest x hpc hstep =>
    have hpushed := Threads.step_moves hstep
    cases hpushed
    refine h.update _ (iff_of_true ?_ rfl) (fun j hj => ?_) nofun
    · change Function.update (s.io i).stage (some .base) (.pushed _) (some .base) ≠ .idle
      rw [Function.update_self]
      exact CallStage.noConfusion
    · rw [hpc]
      exact ⟨iff_of_false (fun heq => hj (Option.some.inj heq).symm) nofun, nofun⟩
  | postReturns i rest x hpc hstep =>
    have hidle := (Threads.step_moves hstep).finishes (t := some .base) (by exact rfl)
    refine h.update _ (iff_of_false (absurd hidle) nofun) (fun j hj => ?_) nofun
    rw [hpc]
    exact ⟨iff_of_false nofun (fun heq => hj (Option.some.inj heq).symm), nofun⟩
  | posted hpc =>
    refine ⟨fun i => ?_, nofun⟩
    rw [h.stage i, hpc]
    rfl
  | quits i threads x hpc hstep =>
    have hquit := Threads.step_moves hstep
    cases hquit
    refine h.update _ (iff_of_true ?_ rfl) (fun j hj => ?_) fun _ => rfl
    · change Function.update (s.io i).stage (some .base) .quitStored (some .base) ≠ .idle
      rw [Function.update_self]
      exact CallStage.noConfusion
    · have hne : some i ≠ some j := fun heq => hj (Option.some.inj heq).symm
      rw [hpc]
      exact ⟨iff_of_false hne nofun, fun heq => absurd heq hne⟩
  | quitReturns i threads x hpc hstep =>
    have hmoves := Threads.step_moves hstep
    have hidle := hmoves.finishes (t := some .base) (by exact rfl)
    refine h.update _ (iff_of_false (absurd hidle) nofun) (fun j hj => ?_) fun _ => ?_
    · rw [hpc]
      exact ⟨iff_of_false nofun (fun heq => hj (Option.some.inj heq).symm), id⟩
    · rw [hmoves.quit_quiet (hsound.running i) rfl]
      exact h.quit i (by rw [hpc]; rfl)
  | joins i threads hpc hout =>
    refine ⟨fun j => ?_, nofun⟩
    rw [h.stage j, hpc]
    rfl

/-! ### The io loops as components -/

/-- What an action does to an io loop. -/
def onLoop (i : Fin n) (s : Teardown n C U) :
    TeardownStep n C U → Option (ThreadStep (IoCaller U) (IoFunctor C))
  | .loop j b => if j = i then some b else none
  | .destructor =>
    match s.pc.next with
    | some (j, b, _) => if j = i then some b else none
    | none => none

theorem setLoop_component {j : Fin n} {b : ThreadStep (IoCaller U) (IoFunctor C)}
    {x : Threads (IoCaller U) (IoFunctor C)} (hstep : (s.io j).step b = some x) (i : Fin n) :
    (if j = i then some b else none).elim (some (s.io i)) (Threads.machine.step (s.io i)) =
      some ((s.setLoop j x).io i) := by
  by_cases hij : j = i
  · subst hij
    rw [if_pos rfl, setLoop_self]
    exact hstep
  · rw [if_neg hij, setLoop_of_ne (Ne.symm hij)]
    rfl

theorem Moves.component (hmoves : s.Moves a s') (i : Fin n) :
    (onLoop i s a).elim (some (s.io i)) (Threads.machine.step (s.io i)) = some (s'.io i) := by
  cases hmoves with
  | loop j b x hown hstep => exact setLoop_component hstep i
  | post j conn rest x hpc hstep | postReturns j rest x hpc hstep | quits j threads x hpc hstep
  | quitReturns j threads x hpc hstep =>
    rw [onLoop, hpc]
    exact setLoop_component hstep i
  | posted hpc | joins _ _ hpc =>
    rw [onLoop, hpc]
    rfl

omit [DecidableEq U] in
theorem calling_next {i : Fin n} (h : s.pc.calling = some i) :
    ∃ pc : ServerPc n C, s.pc.next = some (i, .finishCall (some (.base : IoCaller U)), pc) := by
  cases hpc : s.pc with
  | pushed j rest =>
    rw [hpc] at h
    cases h
    exact ⟨_, rfl⟩
  | quitting j threads =>
    rw [hpc] at h
    cases h
    exact ⟨_, rfl⟩
  | _ =>
    rw [hpc] at h
    cases h

theorem enabled_next {i : Fin n} {b : ThreadStep (IoCaller U) (IoFunctor C)} {pc : ServerPc n C}
    {x : Threads (IoCaller U) (IoFunctor C)} (hnext : s.pc.next = some (i, b, pc))
    (hstep : (s.io i).step b = some x) : machine.Enabled (· = .destructor) s := by
  refine ⟨.destructor, { s.setLoop i x with pc := pc }, rfl, ?_⟩
  change s.step .destructor = _
  unfold step
  dsimp only
  split
  · rename_i hpc
    rw [hpc] at hnext
    cases hnext
  · rename_i hpc
    rw [hpc] at hnext
    cases hnext
  · rw [hnext, Option.bind_some, hstep]
    rfl

/-! ### Fairness -/

/-- The destructor begins while the loops are running and its thread is in no other call. -/
structure Entered (connections : List (C × Fin n)) (s : Teardown n C U) : Prop where
  fresh : s.Fresh connections
  idle : ∀ i, (s.io i).stage (some .base) = .idle

/-- What holds in the whole run. -/
structure Underway (connections : List (C × Fin n)) (s : Teardown n C U) : Prop where
  sound : s.Sound connections
  calls : s.Calls

theorem Entered.underway (h : s.Entered connections) : s.Underway connections where
  sound := h.fresh.sound
  calls := by
    constructor
    · intro i
      rw [h.fresh.pc]
      exact iff_of_false (absurd (h.idle i)) nofun
    · intro i hpc
      rw [h.fresh.pc] at hpc
      cases hpc

theorem Underway.step (h : s.Underway connections) (hstep : s.step a = some s') :
    s'.Underway connections :=
  ⟨(step_moves hstep).sound h.sound, (step_moves hstep).calls h.calls h.sound⟩

/-- The thread of the destructor goes on, each io loop goes on where it can, and the calls of the other threads return. -/
structure Fair (r : (machine : Machine (Teardown n C U) (TeardownStep n C U)).Trace) : Prop where
  destructor : r.StrongFair (· = .destructor)
  loop : ∀ i, r.StrongFair fun a => ∃ b, a = .loop i b ∧ b.OfLoop
  calls : ∀ i t, t ≠ some .base → r.WeakFair (· = .loop i (.finishCall t))

variable {r : (machine : Machine (Teardown n C U) (TeardownStep n C U)).Trace}

theorem underway (hstart : (r.state 0).Entered connections) (k : Nat) :
    (r.state k).Underway connections :=
  r.invariant (I := Underway connections) (fun _ _ _ h hstep => h.step hstep) hstart.underway k
    (Nat.zero_le k)

theorem enabled_loop {i : Fin n} {b : ThreadStep (IoCaller U) (IoFunctor C)}
    {x : Threads (IoCaller U) (IoFunctor C)} (hown : b.ofIoLoop = true)
    (hstep : (s.io i).step b = some x) :
    s.step (.loop i b) = some (s.setLoop i x) := by
  unfold step
  dsimp only
  rw [if_pos hown, hstep]
  rfl

theorem ofLoop_own {x y : Threads (IoCaller U) (IoFunctor C)}
    {b : ThreadStep (IoCaller U) (IoFunctor C)} (hrunning : x.Running) (hA : b.OfLoop)
    (hstep : x.step b = some y) : b.ofIoLoop = true := by
  cases b with
  | resetQuit =>
    cases Threads.step_moves hstep with
    | resetQuit hpc => exact absurd hpc hrunning.1
  | testQuit | pollReturns | handleRead | beginPendingFunctors | swapFunctors | runFunctor
  | functorReturns | endPendingFunctors => rfl
  | publish | enterLoop | call | finishCall => exact hA.elim

/-- What a fair run of the server does to one of its loops is a fair run of the loop. -/
theorem component_fair (hfair : Fair r) (hstart : (r.state 0).Entered connections) {i : Fin n}
    {r' : (Threads.machine : Machine (Threads (IoCaller U) (IoFunctor C)) _).Trace} {k : Nat}
    (hshows : r'.Shows k r (fun s => s.io i) (onLoop i)) : Threads.Fair r' where
  loop := by
    refine hshows.strongFair (hfair.loop i) ?_ ?_
    · rintro l a ⟨b, rfl, hA⟩
      exact ⟨b, if_pos rfl, hA⟩
    · rintro l ⟨b, x, hA, hstep⟩
      have hown := ofLoop_own ((underway hstart l).sound.running i) hA hstep
      exact ⟨.loop i b, _, ⟨b, rfl, hA⟩, enabled_loop hown hstep⟩
  calls t := by
    have hfinish {l : Nat} (hen : Threads.machine.Enabled (ThreadStep.Finishes t) ((r.state l).io i)) :
        ∃ x, ((r.state l).io i).step (.finishCall t) = some x := by
      obtain ⟨b, x, hA, hstep⟩ := hen
      cases b with
      | finishCall u =>
        cases hA
        exact ⟨x, hstep⟩
      | _ => exact hA.elim
    by_cases hbase : t = some .base
    · subst hbase
      have hcalling {l : Nat}
          (hen : Threads.machine.Enabled (ThreadStep.Finishes (some .base)) ((r.state l).io i)) :
          ∃ pc, (r.state l).pc.next = some (i, .finishCall (some (.base : IoCaller U)), pc) := by
        refine calling_next (((underway hstart l).calls.stage i).mp fun hidle => ?_)
        exact Threads.not_enabled_idle hidle hen
      refine hshows.weakFair hfair.destructor.weakFair ?_ ?_
      · rintro l a hen rfl
        obtain ⟨pc, hnext⟩ := hcalling hen
        refine ⟨.finishCall (some .base), ?_, rfl⟩
        rw [onLoop, hnext]
        exact if_pos rfl
      · intro l hen
        obtain ⟨pc, hnext⟩ := hcalling hen
        obtain ⟨x, hstep⟩ := hfinish hen
        exact enabled_next hnext hstep
    · refine hshows.weakFair (hfair.calls i t hbase) ?_ ?_
      · rintro l a _ rfl
        exact ⟨_, if_pos rfl, rfl⟩
      · intro l hen
        obtain ⟨x, hstep⟩ := hfinish hen
        have hown : (ThreadStep.finishCall t : ThreadStep (IoCaller U) (IoFunctor C)).ofIoLoop := by
          unfold ThreadStep.ofIoLoop
          split <;> simp_all
        exact ⟨.loop i (.finishCall t), _, rfl, enabled_loop hown hstep⟩

theorem loop_leaves (hfair : Fair r) (hstart : (r.state 0).Entered connections) (i : Fin n) :
    r.LeadsTo (fun s => (s.io i).ToldToQuit) (fun s => (s.io i).pc = .outside) := by
  obtain ⟨r', k, hshows⟩ : ∃ (r' : Threads.machine.Trace) (k : Nat),
      r'.Shows k r (fun s => s.io i) (onLoop i) := by
    refine Machine.Trace.exists_shows (hstart.fresh.reach i) fun l a ha => ?_
    exact (step_moves (r.step_of_act ha)).component i
  exact hshows.leadsTo (Threads.toldToQuit_leaves (component_fair hfair hstart hshows))

/-! ### The destructor -/

theorem Moves.pc_left (hmoves : s.Moves a s') :
    a ≠ .destructor ∧ s'.pc = s.pc ∨ s'.pc.left < s.pc.left := by
  cases hmoves with
  | loop => exact Or.inl ⟨nofun, rfl⟩
  | post i conn rest x hpc | postReturns i rest x hpc | quits i threads x hpc
  | quitReturns i threads x hpc | joins i threads hpc =>
    right
    rw [hpc]
    simp only [ServerPc.left, List.length_cons]
    omega
  | posted hpc =>
    right
    rw [hpc]
    simp only [ServerPc.left, List.length_finRange, List.length_nil]
    omega

theorem Underway.enabled_destructor (h : s.Underway connections) (hend : s.pc ≠ .stopping [])
    (hjoin : ∀ i threads, s.pc = .joining i threads → (s.io i).pc = .outside) :
    machine.Enabled (· = .destructor) s := by
  have hcall {i : Fin n} {c : UserCall (IoFunctor C)} {pc : ServerPc n C}
      (hnext : s.pc.next = some (i, .call (some (.base : IoCaller U)) c, pc))
      (hnot : s.pc.calling ≠ some i) : machine.Enabled (· = .destructor) s := by
    have hidle : (s.io i).stage (some .base) = .idle :=
      not_not.mp fun hbusy => hnot ((h.calls.stage i).mp hbusy)
    exact enabled_next hnext (if_pos ⟨hidle, nofun⟩)
  have hfinish {i : Fin n} (hcalling : s.pc.calling = some i) :
      machine.Enabled (· = .destructor) s := by
    obtain ⟨pc, hnext⟩ := calling_next (U := U) hcalling
    obtain ⟨b, x, hA, hstep⟩ := Threads.enabled_finishes ((h.calls.stage i).mpr hcalling)
    cases b with
    | finishCall u =>
      cases hA
      exact enabled_next hnext hstep
    | _ => exact hA.elim
  cases hpc : s.pc with
  | posting rest =>
    cases rest with
    | nil =>
      refine ⟨.destructor, { s with pc := .stopping (List.finRange n) }, rfl, ?_⟩
      change s.step .destructor = _
      unfold Teardown.step
      rw [hpc]
    | cons x rest => exact hcall (by rw [hpc]; rfl) (by rw [hpc]; exact nofun)
  | pushed i rest => exact hfinish (i := i) (by rw [hpc]; rfl)
  | stopping threads =>
    cases threads with
    | nil => exact absurd hpc hend
    | cons i threads => exact hcall (by rw [hpc]; rfl) (by rw [hpc]; exact nofun)
  | quitting i threads => exact hfinish (i := i) (by rw [hpc]; rfl)
  | joining i threads =>
    refine ⟨.destructor, { s with pc := .stopping threads }, rfl, ?_⟩
    change s.step .destructor = _
    unfold Teardown.step
    rw [hpc]
    dsimp only
    rw [hjoin i threads hpc]

theorem destructor_ends (hfair : Fair r) (hstart : (r.state 0).Entered connections) :
    r.LeadsTo (fun s => s.pc ≠ .stopping []) (fun s => s.pc = .stopping []) := by
  refine Machine.Trace.leadsTo_of_strongFair (fun s => s.pc.left) hfair.destructor ?_ ?_
  · intro s a s' _ hon hstep
    by_cases hend : s'.pc = .stopping []
    · exact Or.inl hend
    · rcases (step_moves hstep).pc_left with ⟨hnot, hsame⟩ | hless
      · exact Or.inr ⟨hend, le_of_eq (by rw [hsame]), fun hA => absurd hA hnot⟩
      · exact Or.inr ⟨hend, Nat.le_of_lt hless, fun _ => hless⟩
  · intro k hk
    have hunderway := underway hstart
    -- the destructor stands still, so a loop that it joins gets the time to return
    have hsame : ∀ l, k ≤ l → (r.state l).pc = (r.state k).pc := by
      refine Machine.Trace.keeps_while_not_taken (r := r) (A := (· = .destructor))
        (I := fun s => s.pc = (r.state k).pc) ?_ rfl fun l hl => (hk l hl).2
      intro s a s' hpc hA hstep
      cases step_moves hstep with
      | loop => exact hpc
      | _ => exact absurd rfl hA
    obtain ⟨l, hl, hjoin⟩ : ∃ l, k ≤ l ∧ ∀ i threads, (r.state l).pc = .joining i threads →
        ((r.state l).io i).pc = .outside := by
      by_cases hjoining : ∃ i threads, (r.state k).pc = .joining i threads
      · obtain ⟨i, threads, hpc⟩ := hjoining
        have hquit := (hunderway k).calls.quit i (by rw [hpc]; rfl)
        have hwait : r.LeadsTo
            (fun s => (s.io i).pc = .outside ∨ (s.io i).ToldToQuit)
            (fun s => (s.io i).pc = .outside) :=
          (Machine.Trace.LeadsTo.of_imp fun _ => id).or (loop_leaves hfair hstart i)
        obtain ⟨l, hl, hout⟩ := hwait k (by
          by_cases hout : ((r.state k).io i).pc = .outside
          · exact Or.inl hout
          · exact Or.inr ⟨hout, ((hunderway k).sound.running i).1, hquit⟩)
        refine ⟨l, hl, fun j others hthere => ?_⟩
        rw [hsame l hl, hpc] at hthere
        cases hthere
        exact hout
      · exact ⟨k, Nat.le_refl k, fun i threads hpc => absurd ⟨i, threads, hpc⟩ hjoining⟩
    exact ⟨l, hl, (hunderway l).enabled_destructor (hk l hl).1 hjoin⟩

theorem doomed_iff_late (hstart : (r.state 0).Entered connections) (i : Fin n) (k : Nat) :
    ((r.state k).io i).Doomed ↔
      ∃ j a, j < k ∧ r.act j = some a ∧ (r.state j).QuitsLate a i := by
  induction k with
  | zero =>
    refine iff_of_false (fun hdoomed => ?_) nofun
    have hquit := hdoomed.1
    rw [(hstart.fresh.running i).2.2] at hquit
    cases hquit
  | succ k ih =>
    have hsplit : (∃ j a, j < k + 1 ∧ r.act j = some a ∧ (r.state j).QuitsLate a i) ↔
        (∃ j a, j < k ∧ r.act j = some a ∧ (r.state j).QuitsLate a i) ∨
          ∃ a, r.act k = some a ∧ (r.state k).QuitsLate a i := by
      constructor
      · rintro ⟨j, a, hj, ha, hlate⟩
        rcases Nat.lt_succ_iff_lt_or_eq.mp hj with hj | rfl
        · exact Or.inl ⟨j, a, hj, ha, hlate⟩
        · exact Or.inr ⟨a, ha, hlate⟩
      · rintro (⟨j, a, hj, ha, hlate⟩ | ⟨a, ha, hlate⟩)
        · exact ⟨j, a, Nat.lt_succ_of_lt hj, ha, hlate⟩
        · exact ⟨k, a, Nat.lt_succ_self k, ha, hlate⟩
    rw [hsplit, ← ih]
    rcases r.next_cases k with ⟨hnone, hsame⟩ | ⟨a, ha, hstep⟩
    · rw [hsame, hnone]
      exact (or_iff_left nofun).symm
    · rw [(step_moves hstep).doomed_iff (underway hstart k).sound i, ha]
      refine or_congr_right ⟨fun hlate => ⟨a, rfl, hlate⟩, ?_⟩
      rintro ⟨b, hb, hlate⟩
      cases hb
      exact hlate

/-- `~TcpServer` returns: it has posted `connectDestroyed` for every entry of `connections_`, in order, has ended all io loops and has joined their threads. In the end every connection has been destroyed on its loop, in the order of the posts, if and only if no `quit` came late. -/
theorem destructor_returns (hfair : Fair r) (hstart : (r.state 0).Entered connections) :
    ∃ k, ∀ l, k ≤ l → (r.state l).pc = .stopping [] ∧
      (∀ i, conns ((r.state l).io i).pushed = due connections i) ∧
      (∀ i, ((r.state l).io i).pc = .outside) ∧
      ((∀ i, conns ((r.state l).io i).executed = due connections i) ↔
        ∀ j a, r.act j = some a → (r.state j).quitsInTime a = true) := by
  have hposting : (r.state 0).pc ≠ .stopping [] := by
    rw [hstart.fresh.pc]
    exact nofun
  obtain ⟨k, _, hend⟩ := destructor_ends hfair hstart 0 hposting
  have hover : ∀ l, k ≤ l → (r.state l).pc = .stopping [] := by
    refine r.invariant (I := fun s => s.pc = .stopping []) ?_ hend
    intro s a s' hpc hstep
    cases step_moves hstep with
    | loop => exact hpc
    | post _ _ _ _ hpc' | postReturns _ _ _ hpc' | posted hpc' | quits _ _ _ hpc'
    | quitReturns _ _ _ hpc' | joins _ _ hpc' =>
      rw [hpc] at hpc'
      cases hpc'
  refine ⟨k, fun l hl => ?_⟩
  have hsound := (underway hstart l).sound
  have hout (i : Fin n) : ((r.state l).io i).pc = .outside :=
    hsound.joined i (by rw [hover l hl]; exact List.not_mem_nil)
  refine ⟨hover l hl, hsound.all_posted (hover l hl), hout, ?_⟩
  constructor
  · intro hall j a ha
    rw [quitsInTime_iff]
    intro i hlate
    refine hsound.not_doomed (hover l hl) (fun i _ => hall i) i ?_
    rw [doomed_iff_late hstart]
    refine ⟨j, a, ?_, ha, hlate⟩
    by_contra hj
    obtain ⟨_, ⟨threads, hpc⟩, _⟩ := hlate
    rw [hover j (by omega)] at hpc
    cases hpc
  · intro hguard i
    refine hsound.tornDown (fun i hdoomed => ?_) i (hout i)
    obtain ⟨j, a, _, ha, hlate⟩ := (doomed_iff_late hstart i l).mp hdoomed
    exact quitsInTime_iff.mp (hguard j a ha) i hlate

/-- One connection is left, and its io loop is in `poll` when the `quit` comes. -/
def wokenUp (i : Fin n) : List (TeardownStep n C U) :=
  [.destructor, .destructor, .destructor, .destructor, .destructor, .loop i (.pollReturns true),
    .loop i .handleRead, .loop i .beginPendingFunctors, .loop i .swapFunctors, .loop i .runFunctor,
    .loop i .functorReturns, .loop i .endPendingFunctors, .loop i .testQuit, .destructor]

theorem fair_ofRun {as : List (TeardownStep n C U)} (hinit : machine.init s)
    (hrun : machine.run s as = some s') (hpc : s'.pc = .stopping [])
    (hout : ∀ i, (s'.io i).pc = .outside) (hidle : ∀ i t, (s'.io i).stage t = .idle) :
    Fair (Machine.Trace.ofRun hinit hrun) := by
  refine ⟨Machine.Trace.ofRun_strongFair ?_, fun i => Machine.Trace.ofRun_strongFair ?_,
    fun i t _ => (Machine.Trace.ofRun_strongFair ?_).weakFair⟩
  · rintro ⟨a, t, rfl, hstep⟩
    have hmoves : s'.Moves .destructor t := step_moves hstep
    cases hmoves with
    | post _ _ _ _ hpc' | postReturns _ _ _ hpc' | posted hpc' | quits _ _ _ hpc'
    | quitReturns _ _ _ hpc' | joins _ _ hpc' =>
      rw [hpc] at hpc'
      cases hpc'
  · rintro ⟨a, t, ⟨b, rfl, hA⟩, hstep⟩
    have hmoves : s'.Moves (.loop i b) t := step_moves hstep
    cases hmoves with
    | loop _ _ x _ hx => exact Threads.not_enabled_outside (hout i) ⟨b, x, hA, hx⟩
  · rintro ⟨a, u, rfl, hstep⟩
    have hmoves : s'.Moves (.loop i (.finishCall t)) u := step_moves hstep
    cases hmoves with
    | loop _ _ x _ hx => exact Threads.not_enabled_idle (hidle i t) ⟨.finishCall t, x, rfl, hx⟩

theorem destructor_returns_wokenUp :
    ∃ r : (machine : Machine (Teardown 1 Unit Unit) (TeardownStep 1 Unit Unit)).Trace,
      r.state 0 = single ∧ r.act 3 = some .destructor ∧
        ∃ k, ∀ l, k ≤ l → (r.state l).pc = .stopping [] ∧
          (∀ i, conns ((r.state l).io i).pushed = due [((), 0)] i) ∧
          (∀ i, ((r.state l).io i).pc = .outside) ∧
          ((∀ i, conns ((r.state l).io i).executed = due [((), 0)] i) ↔
            ∀ j a, r.act j = some a → (r.state j).quitsInTime a = true) := by
  have hend : (machine.run single (wokenUp 0)).map (fun s => (s.pc.left, (s.io 0).pc,
      (s.io 0).stage none, (s.io 0).stage (some .base), (s.io 0).stage (some (.other ())))) =
        some (0, .outside, .idle, .idle, .idle) := by
    decide +kernel
  obtain ⟨s', hrun, hs'⟩ := Option.map_eq_some_iff.mp hend
  obtain ⟨hleft, hs'⟩ := Prod.mk.inj hs'
  obtain ⟨hout, hs'⟩ := Prod.mk.inj hs'
  obtain ⟨hnone, hs'⟩ := Prod.mk.inj hs'
  obtain ⟨hbase, hother⟩ := Prod.mk.inj hs'
  have hfair : Fair (Machine.Trace.ofRun ⟨[((), 0)], rfl⟩ hrun) := by
    refine fair_ofRun _ hrun (ServerPc.eq_of_left hleft) (fun i => ?_) fun i t => ?_
    · rw [Subsingleton.elim i 0]
      exact hout
    · rw [Subsingleton.elim i 0]
      match t with
      | none => exact hnone
      | some .base => exact hbase
      | some (.other ()) => exact hother
  have hentered : single.Entered [((), 0)] := ⟨single_fresh, fun _ => rfl⟩
  exact ⟨.ofRun _ hrun, rfl, rfl, destructor_returns hfair hentered⟩

end Teardown

end LTMuduo
