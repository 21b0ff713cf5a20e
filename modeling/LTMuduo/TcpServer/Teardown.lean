import LTMuduo.EventLoop.Order

/-!
# The end of a server and its io loops

`~TcpServer` posts `connectDestroyed` for each entry of `connections_` to the loop of the connection, and then the members go: the destructor of the thread pool destroys its threads in order, each with a `quit` of its loop and a join. An io loop is the loop of `Threads`, entered once. The thread of the base loop is one of the threads that call into it, and it is in the destructor during the whole run.

A loop tests `quit_` right after `doPendingFunctors`. What is posted between the swap and the test waits for the next round, and there is none when `quit_` is set by then.
-/

namespace LTMuduo

/-- The functors of an io loop. `connectDestroyed` is one that `~TcpServer` has posted. -/
inductive IoFunctor (C : Type*)
  | connectDestroyed (conn : C)
  | other
  deriving DecidableEq

/-- The threads that call into an io loop. -/
inductive IoCaller (U : Type*)
  | base
  | other (u : U)
  deriving DecidableEq

/-- The connection that the functor destroys. -/
def IoFunctor.conn {C : Type*} : IoFunctor C → Option C
  | .connectDestroyed conn => some conn
  | .other => none

/-- Where `~TcpServer` stands. The lists are the entries of `connections_` and the threads of the pool that it has still to come to; it has finished at `stopping []`. -/
inductive ServerPc (n : Nat) (C : Type*)
  | posting (connections : List (C × Fin n))
  /-- in `queueInLoop` of the loop, behind the push -/
  | pushed (loop : Fin n) (connections : List (C × Fin n))
  /-- about to call `quit` of the first thread's loop -/
  | stopping (threads : List (Fin n))
  | quitting (thread : Fin n) (threads : List (Fin n))
  | joining (thread : Fin n) (threads : List (Fin n))

namespace ServerPc

variable {n : Nat} {C U : Type*}

/-- The next step of the destructor that is a step on a loop. -/
def next : ServerPc n C →
    Option (Fin n × ThreadStep (IoCaller U) (IoFunctor C) × ServerPc n C)
  | .posting ((conn, loop) :: connections) =>
    some (loop, .call (some .base) (.queueInLoop (.connectDestroyed conn)),
      .pushed loop connections)
  | .pushed loop connections => some (loop, .finishCall (some .base), .posting connections)
  | .stopping (thread :: threads) =>
    some (thread, .call (some .base) .quit, .quitting thread threads)
  | .quitting thread threads => some (thread, .finishCall (some .base), .joining thread threads)
  | _ => none

/-- The entries of `connections_` that are left. -/
def connections : ServerPc n C → List (C × Fin n)
  | .posting connections => connections
  | .pushed _ connections => connections
  | _ => []

/-- The threads that are not joined yet. -/
def threads : ServerPc n C → List (Fin n)
  | .stopping threads => threads
  | .quitting thread threads => thread :: threads
  | .joining thread threads => thread :: threads
  | _ => List.finRange n

/-- The destructor is still in its body. -/
def InBody : ServerPc n C → Prop
  | .posting _ => True
  | .pushed _ _ => True
  | _ => False

end ServerPc

structure Teardown (n : Nat) (C U : Type*) where
  pc : ServerPc n C
  io : Fin n → Threads (IoCaller U) (IoFunctor C)

inductive TeardownStep (n : Nat) (C U : Type*)
  | loop (i : Fin n) (a : ThreadStep (IoCaller U) (IoFunctor C))
  | destructor

/-- The steps of an io loop that is running and of its threads other than that of the base loop. Nobody but the destructor calls `quit`. -/
def ThreadStep.ofIoLoop {C U : Type*} : ThreadStep (IoCaller U) (IoFunctor C) → Bool
  | .publish => false
  | .enterLoop => false
  | .resetQuit => false
  | .call (some .base) _ => false
  | .call _ .quit => false
  | .call _ (.queueInLoop cb) => cb.conn.isNone
  | .finishCall (some .base) => false
  | _ => true

/-- Behind the swap of `doPendingFunctors`, up to the test of `quit_` and out of the loop. -/
def LoopPc.afterSwap {T F : Type*} : LoopPc T F → Bool
  | .functors _ => true
  | .body _ => true
  | .test => true
  | .outside => true
  | _ => false

/-- The connections to destroy in a list of functors. -/
def conns {C U : Type*} (fs : List (Posted (IoCaller U) (IoFunctor C))) : List C :=
  fs.filterMap fun f => f.functor.conn

/-- The connections of loop `i`. -/
def due {n : Nat} {C : Type*} (connections : List (C × Fin n)) (i : Fin n) : List C :=
  (connections.filter fun x => x.2 = i).map Prod.fst

section

variable {n : Nat} {C : Type*} {conn : C} {i j : Fin n} {connections : List (C × Fin n)}

theorem due_cons_self : due ((conn, i) :: connections) i = conn :: due connections i := by
  simp [due]

theorem due_cons_of_ne (h : i ≠ j) : due ((conn, i) :: connections) j = due connections j := by
  simp [due, h]

end

namespace Teardown

variable {n : Nat} {C U : Type*}

section

variable (s : Teardown n C U)

def setLoop (i : Fin n) (x : Threads (IoCaller U) (IoFunctor C)) : Teardown n C U :=
  { s with io := Function.update s.io i x }

/-- A loop that has returned has called `connectDestroyed` for each of its connections. -/
def TornDown (connections : List (C × Fin n)) : Prop :=
  ∀ i, (s.io i).pc = .outside → conns (s.io i).executed = due connections i

end

section

variable [DecidableEq U] (s : Teardown n C U)

def step : TeardownStep n C U → Option (Teardown n C U)
  | .loop i a => if a.ofIoLoop then ((s.io i).step a).map (s.setLoop i) else none
  | .destructor =>
    match s.pc with
    | .posting [] => some { s with pc := .stopping (List.finRange n) }
    | .joining i threads =>
      match (s.io i).pc with
      | .outside => some { s with pc := .stopping threads }
      | _ => none
    | pc => pc.next.bind fun next =>
      ((s.io next.1).step next.2.1).map fun x => { s.setLoop next.1 x with pc := next.2.2 }

def machine : Machine (Teardown n C U) (TeardownStep n C U) where
  init s := ∃ connections, s.pc = .posting connections
  step := step

/-- No `quit` of a loop that is between its swap and its test, with a `connectDestroyed` in its queue. -/
def quitsInTime : TeardownStep n C U → Bool
  | .destructor =>
    match s.pc with
    | .stopping (i :: _) =>
      !(s.io i).pc.afterSwap || (conns (s.io i).loop.pendingFunctors).isEmpty
    | _ => true
  | _ => true

end

/-! ### What a step does -/

section

variable [DecidableEq U] (s : Teardown n C U)

inductive Moves : TeardownStep n C U → Teardown n C U → Prop
  | loop (i : Fin n) (a : ThreadStep (IoCaller U) (IoFunctor C))
      (x : Threads (IoCaller U) (IoFunctor C)) (hown : a.ofIoLoop = true)
      (hstep : (s.io i).step a = some x) : Moves (.loop i a) (s.setLoop i x)
  | post (i : Fin n) (conn : C) (connections : List (C × Fin n))
      (x : Threads (IoCaller U) (IoFunctor C)) (hpc : s.pc = .posting ((conn, i) :: connections))
      (hstep : (s.io i).step (.call (some .base) (.queueInLoop (.connectDestroyed conn))) = some x) :
      Moves .destructor { s.setLoop i x with pc := .pushed i connections }
  | postReturns (i : Fin n) (connections : List (C × Fin n))
      (x : Threads (IoCaller U) (IoFunctor C)) (hpc : s.pc = .pushed i connections)
      (hstep : (s.io i).step (.finishCall (some .base)) = some x) :
      Moves .destructor { s.setLoop i x with pc := .posting connections }
  | posted (hpc : s.pc = .posting []) :
      Moves .destructor { s with pc := .stopping (List.finRange n) }
  | quits (i : Fin n) (threads : List (Fin n)) (x : Threads (IoCaller U) (IoFunctor C))
      (hpc : s.pc = .stopping (i :: threads))
      (hstep : (s.io i).step (.call (some .base) .quit) = some x) :
      Moves .destructor { s.setLoop i x with pc := .quitting i threads }
  | quitReturns (i : Fin n) (threads : List (Fin n)) (x : Threads (IoCaller U) (IoFunctor C))
      (hpc : s.pc = .quitting i threads)
      (hstep : (s.io i).step (.finishCall (some .base)) = some x) :
      Moves .destructor { s.setLoop i x with pc := .joining i threads }
  | joins (i : Fin n) (threads : List (Fin n)) (hpc : s.pc = .joining i threads)
      (hout : (s.io i).pc = .outside) : Moves .destructor { s with pc := .stopping threads }

variable {s} {s' : Teardown n C U} {a : TeardownStep n C U}

theorem step_moves (h : s.step a = some s') : s.Moves a s' := by
  cases a with
  | loop i b =>
    obtain ⟨hown, hsome⟩ := Option.ite_none_right_eq_some.mp h
    obtain ⟨x, hx, hset⟩ := Option.map_eq_some_iff.mp hsome
    subst hset
    exact .loop i b x hown hx
  | destructor =>
    unfold step at h
    dsimp only at h
    split at h
    · cases h
      exact .posted ‹_›
    · split at h
      · cases h
        exact .joins _ _ ‹_› ‹_›
      · cases h
    · obtain ⟨⟨i, b, pc⟩, hnext, hsome⟩ := Option.bind_eq_some_iff.mp h
      obtain ⟨x, hx, hset⟩ := Option.map_eq_some_iff.mp hsome
      subst hset
      unfold ServerPc.next at hnext
      split at hnext
      · rename_i hpc
        cases hnext
        exact .post _ _ _ x hpc hx
      · rename_i hpc
        cases hnext
        exact .postReturns _ _ x hpc hx
      · rename_i hpc
        cases hnext
        exact .quits _ _ x hpc hx
      · rename_i hpc
        cases hnext
        exact .quitReturns _ _ x hpc hx
      · cases hnext

end

end Teardown

/-! ### One io loop -/

namespace Threads

variable {C U : Type*}

/-- The loop leaves at its next test, and leaves a `connectDestroyed` in its queue. -/
def Doomed (x : Threads (IoCaller U) (IoFunctor C)) : Prop :=
  x.loop.quit = true ∧ x.pc.afterSwap = true ∧ conns x.loop.pendingFunctors ≠ []

/-- `loop` has been entered and has left only on a `quit`. -/
def Running (x : Threads (IoCaller U) (IoFunctor C)) : Prop :=
  x.pc ≠ .entered ∧ (x.pc = .outside → x.loop.quit = true)

/-- Neither a `quit`, nor a `connectDestroyed`, nor the entry of `loop`. -/
def quiet : ThreadStep (IoCaller U) (IoFunctor C) → Bool
  | .enterLoop => false
  | .resetQuit => false
  | .call _ .quit => false
  | .call _ (.queueInLoop cb) => cb.conn.isNone
  | _ => true

theorem quiet_of_ofIoLoop {a : ThreadStep (IoCaller U) (IoFunctor C)} (h : a.ofIoLoop = true) :
    quiet a = true := by
  unfold ThreadStep.ofIoLoop at h
  unfold quiet
  split at h <;> simp_all

@[simp] theorem conns_append (xs ys : List (Posted (IoCaller U) (IoFunctor C))) :
    conns (xs ++ ys) = conns xs ++ conns ys := List.filterMap_append

variable [DecidableEq U] {x y : Threads (IoCaller U) (IoFunctor C)}
  {a : ThreadStep (IoCaller U) (IoFunctor C)}

theorem Moves.running (h : x.Running) (hne : a ≠ .enterLoop) (hmoves : x.Moves a y) :
    y.Running := by
  cases hmoves with
  | enterLoop => exact absurd rfl hne
  | resetQuit hpc => exact absurd hpc h.1
  | leaveLoop _ hquit => exact ⟨nofun, fun _ => hquit⟩
  | publish => exact h
  | call t c =>
    cases c with
    | quit => exact ⟨h.1, fun _ => rfl⟩
    | _ => exact h
  | finishPush =>
    refine ⟨h.1, fun hpc => ?_⟩
    unfold EventLoop.wakeAfterPush
    split <;> exact h.2 hpc
  | finishQuit =>
    refine ⟨h.1, fun hpc => ?_⟩
    unfold EventLoop.wakeAfterQuit
    split <;> exact h.2 hpc
  | _ => exact ⟨nofun, nofun⟩

theorem Moves.outside (hpc : x.pc = .outside) (hne : a ≠ .enterLoop) (hmoves : x.Moves a y) :
    y.pc = .outside := by
  cases hmoves with
  | enterLoop => exact absurd rfl hne
  | call t c => cases c <;> exact hpc
  | leaveLoop => rfl
  | publish | finishPush | finishQuit => exact hpc
  | _ => simp_all

omit [DecidableEq U] in
theorem conns_of_other {cb : IoFunctor C} (h : cb.conn.isNone = true) {t : Option (IoCaller U)}
    {call era : Nat} : conns [(⟨cb, t, call, era⟩ : Posted (IoCaller U) (IoFunctor C))] = [] := by
  cases cb with
  | connectDestroyed conn => cases h
  | other => rfl

theorem Moves.quit_quiet (hrunning : x.Running) (hquiet : quiet a = true)
    (hmoves : x.Moves a y) : y.loop.quit = x.loop.quit := by
  cases hmoves with
  | resetQuit hpc => exact absurd hpc hrunning.1
  | call t c =>
    cases c with
    | quit => cases hquiet
    | _ => rfl
  | finishPush =>
    unfold EventLoop.wakeAfterPush
    split <;> rfl
  | finishQuit =>
    unfold EventLoop.wakeAfterQuit
    split <;> rfl
  | _ => rfl

theorem Moves.pushed_quiet (hquiet : quiet a = true) (hmoves : x.Moves a y) :
    conns y.pushed = conns x.pushed := by
  cases hmoves with
  | call t c =>
    cases c with
    | queueInLoop cb =>
      change conns (x.pushed ++ [x.nextPosted t cb]) = _
      rw [conns_append, nextPosted, conns_of_other hquiet, List.append_nil]
    | _ => rfl
  | _ => rfl

/-- Only the swap takes something out of the queue, and that is before the batch. -/
theorem Moves.doomed_quiet (hrunning : x.Running) (hquiet : quiet a = true)
    (hmoves : x.Moves a y) : y.Doomed ↔ x.Doomed := by
  have hquit := hmoves.quit_quiet hrunning hquiet
  have hsame (hpc : y.pc.afterSwap = x.pc.afterSwap)
      (hpending : conns y.loop.pendingFunctors = conns x.loop.pendingFunctors) :
      y.Doomed ↔ x.Doomed := by
    rw [Doomed, Doomed, hquit, hpc, hpending]
  have hneither (hx : ¬ x.Doomed) (hy : ¬ y.Doomed) : y.Doomed ↔ x.Doomed := iff_of_false hy hx
  cases hmoves with
  | publish => exact hsame rfl rfl
  | enterLoop => cases hquiet
  | resetQuit => cases hquiet
  | leaveLoop hpc | endPendingFunctors hpc => exact hsame (by rw [hpc]; rfl) rfl
  | stayInLoop hpc hset =>
    have hnot : ¬ x.Doomed := fun h => absurd h.1 (by simp [hset])
    exact hneither hnot fun h => absurd h.2.1 Bool.false_ne_true
  | pollReturns _ hpc | handleRead hpc | beginPendingFunctors _ hpc =>
    exact hsame (by rw [hpc]; rfl) rfl
  | swapFunctors hpc =>
    refine hneither (fun h => ?_) fun h => h.2.2 rfl
    rw [Doomed, hpc] at h
    exact absurd h.2.1 Bool.false_ne_true
  | runFunctor _ _ hpc | functorReturns _ _ hpc => exact hsame (by rw [hpc]; rfl) rfl
  | call t c =>
    cases c with
    | queueInLoop cb =>
      refine hsame rfl ?_
      change conns (x.loop.pendingFunctors ++ [x.nextPosted t cb]) = _
      rw [conns_append, nextPosted, conns_of_other hquiet, List.append_nil]
    | quit => cases hquiet
    | wakeup => exact hsame rfl rfl
  | finishPush =>
    refine hsame rfl ?_
    unfold EventLoop.wakeAfterPush
    split <;> rfl
  | finishQuit =>
    refine hsame rfl ?_
    unfold EventLoop.wakeAfterQuit
    split <;> rfl

theorem conns_executed (hreach : machine.Reachable x) (hpc : x.pc = .outside) :
    conns x.executed ++ conns x.loop.pendingFunctors = conns x.pushed := by
  have hqueue : x.executed ++ x.waiting = x.pushed :=
    Fifo.popped_append_queue (fifoRefinement.reachable hreach)
  rw [waiting, hpc] at hqueue
  rw [← hqueue, conns_append]
  rfl

end Threads

namespace Teardown

variable {n : Nat} {C U : Type*} [DecidableEq U] {s s' : Teardown n C U}
  {a : TeardownStep n C U} {connections : List (C × Fin n)}

/-! ### The invariant -/

/-- The threads that have been joined have left their loops. -/
def Joined (s : Teardown n C U) : Prop := ∀ i ∉ s.pc.threads, (s.io i).pc = .outside

structure Sound (connections : List (C × Fin n)) (s : Teardown n C U) : Prop where
  reach : ∀ i, Threads.machine.Reachable (s.io i)
  running : ∀ i, (s.io i).Running
  posted : ∀ i, conns (s.io i).pushed ++ due s.pc.connections i = due connections i
  body : s.pc.InBody → ∀ i, (s.io i).loop.quit = false
  joined : s.Joined

/-- The destructor begins while the loops are running. -/
structure Fresh (connections : List (C × Fin n)) (s : Teardown n C U) : Prop where
  reach : ∀ i, Threads.machine.Reachable (s.io i)
  running : ∀ i, (s.io i).pc ≠ .entered ∧ (s.io i).pc ≠ .outside ∧ (s.io i).loop.quit = false
  posted : ∀ i, conns (s.io i).pushed = []
  pc : s.pc = .posting connections

omit [DecidableEq U] in
@[simp] theorem setLoop_self (i : Fin n) (x : Threads (IoCaller U) (IoFunctor C)) :
    (s.setLoop i x).io i = x := Function.update_self _ _ _

omit [DecidableEq U] in
theorem setLoop_of_ne {i j : Fin n} (h : j ≠ i) (x : Threads (IoCaller U) (IoFunctor C)) :
    (s.setLoop i x).io j = s.io j := Function.update_of_ne h _ _

omit [DecidableEq U] in
theorem setLoop_forall {P : Fin n → Threads (IoCaller U) (IoFunctor C) → Prop} {i : Fin n}
    {x : Threads (IoCaller U) (IoFunctor C)} (hx : P i x) (hothers : ∀ j ≠ i, P j (s.io j)) (j) :
    P j ((s.setLoop i x).io j) := by
  by_cases hj : j = i
  · subst hj
    rwa [setLoop_self]
  · rw [setLoop_of_ne hj]
    exact hothers j hj

theorem Fresh.sound (h : s.Fresh connections) : s.Sound connections where
  reach := h.reach
  running i := ⟨(h.running i).1, fun hpc => absurd hpc (h.running i).2.1⟩
  posted i := by
    rw [h.posted i, h.pc]
    rfl
  body _ i := (h.running i).2.2
  joined i hi := by
    rw [h.pc] at hi
    exact absurd (List.mem_finRange i) hi

theorem Joined.update (h : s.Joined) {i : Fin n} (pc : ServerPc n C)
    {b : ThreadStep (IoCaller U) (IoFunctor C)} {x : Threads (IoCaller U) (IoFunctor C)}
    (hstep : (s.io i).step b = some x) (hne : b ≠ .enterLoop) (hthreads : pc.threads = s.pc.threads) :
    ({ s.setLoop i x with pc := pc } : Teardown n C U).Joined := by
  intro j hj
  change j ∉ pc.threads at hj
  rw [hthreads] at hj
  refine setLoop_forall (P := fun k y => k = j → y.pc = .outside) ?_ ?_ j rfl
  · intro hij
    subst hij
    exact (Threads.step_moves hstep).outside (h i hj) hne
  · intro k _ hkj
    subst hkj
    exact h k hj

omit [DecidableEq U] in
theorem enterLoop_not_ofIoLoop {b : ThreadStep (IoCaller U) (IoFunctor C)}
    (h : b.ofIoLoop = true) : b ≠ .enterLoop := by
  intro heq
  subst heq
  cases h

theorem Moves.joined (h : s.Joined) (hmoves : s.Moves a s') : s'.Joined := by
  cases hmoves with
  | loop i b x hown hstep => exact h.update s.pc hstep (enterLoop_not_ofIoLoop hown) rfl
  | post i conn rest x hpc hstep => exact h.update _ hstep nofun (by rw [hpc]; rfl)
  | postReturns i rest x hpc hstep => exact h.update _ hstep nofun (by rw [hpc]; rfl)
  | posted => exact fun i hi => absurd (List.mem_finRange i) hi
  | quits i threads x hpc hstep => exact h.update _ hstep nofun (by rw [hpc]; rfl)
  | quitReturns i threads x hpc hstep => exact h.update _ hstep nofun (by rw [hpc]; rfl)
  | joins i threads hpc hout =>
    intro j hj
    by_cases hij : j = i
    · subst hij
      exact hout
    · apply h
      rw [hpc]
      exact fun hmem => hj (List.mem_of_ne_of_mem hij hmem)

theorem Sound.update (h : s.Sound connections) {i : Fin n} (pc : ServerPc n C)
    {b : ThreadStep (IoCaller U) (IoFunctor C)} {x : Threads (IoCaller U) (IoFunctor C)}
    (hstep : (s.io i).step b = some x) (hne : b ≠ .enterLoop)
    (hposted : ∀ j, conns ((s.setLoop i x).io j).pushed ++ due pc.connections j =
      conns (s.io j).pushed ++ due s.pc.connections j)
    (hbody : pc.InBody → s.pc.InBody ∧ x.loop.quit = false)
    (hjoined : ({ s.setLoop i x with pc := pc } : Teardown n C U).Joined) :
    ({ s.setLoop i x with pc := pc } : Teardown n C U).Sound connections where
  reach := setLoop_forall (.step (h.reach i) trivial hstep) fun j _ => h.reach j
  running := setLoop_forall ((Threads.step_moves hstep).running (h.running i) hne)
    fun j _ => h.running j
  posted j := (hposted j).trans (h.posted j)
  body hpc := setLoop_forall (P := fun _ y => y.loop.quit = false) (hbody hpc).2
    fun j _ => h.body (hbody hpc).1 j
  joined := hjoined

theorem Moves.sound (h : s.Sound connections) (hmoves : s.Moves a s') : s'.Sound connections := by
  have hjoined := hmoves.joined h.joined
  have hquiet {i : Fin n} {b : ThreadStep (IoCaller U) (IoFunctor C)}
      {x : Threads (IoCaller U) (IoFunctor C)} (hb : Threads.quiet b = true)
      (hstep : (s.io i).step b = some x) (j : Fin n) :
      conns ((s.setLoop i x).io j).pushed = conns (s.io j).pushed := by
    refine setLoop_forall (P := fun k y => conns y.pushed = conns (s.io k).pushed) ?_
      (fun _ _ => rfl) j
    exact (Threads.step_moves hstep).pushed_quiet hb
  cases hmoves with
  | loop i b x hown hstep =>
    have hb := Threads.quiet_of_ofIoLoop hown
    refine h.update s.pc hstep (enterLoop_not_ofIoLoop hown)
      (fun j => by rw [hquiet hb hstep j]) (fun hbody => ⟨hbody, ?_⟩) hjoined
    rw [(Threads.step_moves hstep).quit_quiet (h.running i) hb]
    exact h.body hbody i
  | post i conn rest x hpc hstep =>
    refine h.update _ hstep nofun ?_ (fun _ => ?_) hjoined
    · have hpushed := Threads.step_moves hstep
      cases hpushed
      refine setLoop_forall (P := fun j y => conns y.pushed ++ due rest j =
        conns (s.io j).pushed ++ due s.pc.connections j) ?_ fun j hj => ?_
      · rw [hpc, ServerPc.connections, due_cons_self, List.append_cons]
        exact congrArg (· ++ due rest i) (Threads.conns_append _ _)
      · rw [hpc, ServerPc.connections, due_cons_of_ne hj.symm]
    · have hbody : s.pc.InBody := by rw [hpc]; trivial
      have hpushed := Threads.step_moves hstep
      cases hpushed
      exact ⟨hbody, h.body hbody i⟩
  | postReturns i rest x hpc hstep =>
    have hbody : s.pc.InBody := by rw [hpc]; trivial
    refine h.update _ hstep nofun (fun j => ?_) (fun _ => ⟨hbody, ?_⟩) hjoined
    · rw [hquiet rfl hstep j, hpc]
      rfl
    · rw [(Threads.step_moves hstep).quit_quiet (h.running i) rfl]
      exact h.body hbody i
  | posted hpc =>
    refine ⟨h.reach, h.running, fun i => ?_, nofun, hjoined⟩
    have hall := h.posted i
    rw [hpc] at hall
    exact hall
  | quits i threads x hpc hstep =>
    refine h.update _ hstep nofun ?_ nofun hjoined
    have hquit := Threads.step_moves hstep
    cases hquit
    refine setLoop_forall (P := fun j y => conns y.pushed ++ due [] j =
      conns (s.io j).pushed ++ due s.pc.connections j) ?_ fun j _ => ?_ <;> rw [hpc] <;> rfl
  | quitReturns i threads x hpc hstep =>
    refine h.update _ hstep nofun (fun j => ?_) nofun hjoined
    rw [hquiet rfl hstep j, hpc]
    rfl
  | joins i threads hpc hout =>
    refine ⟨h.reach, h.running, fun j => ?_, nofun, hjoined⟩
    have hall := h.posted j
    rw [hpc] at hall
    exact hall

/-! ### The exact condition -/

/-- The destructor stores to `quit_` of loop `i` behind its swap, and a `connectDestroyed` is in its queue. -/
def QuitsLate (s : Teardown n C U) (a : TeardownStep n C U) (i : Fin n) : Prop :=
  a = .destructor ∧ (∃ threads, s.pc = .stopping (i :: threads)) ∧
    (s.io i).pc.afterSwap = true ∧ conns (s.io i).loop.pendingFunctors ≠ []

omit [DecidableEq U] in
theorem quitsInTime_iff : s.quitsInTime a = true ↔ ∀ i, ¬ s.QuitsLate a i := by
  constructor
  · intro h i hlate
    obtain ⟨rfl, ⟨threads, hpc⟩, hafter, hleft⟩ := hlate
    simp [quitsInTime, hpc, hafter, hleft] at h
  · intro h
    unfold quitsInTime
    split
    · split
      · rename_i i threads hpc
        by_contra hlate
        refine h i ⟨rfl, ⟨threads, hpc⟩, ?_⟩
        simpa using hlate
      · rfl
    · rfl

omit [DecidableEq U] in
theorem not_quitsLate (h : ∀ threads, s.pc ≠ .stopping threads) (j : Fin n) :
    ¬ s.QuitsLate a j := by
  intro hlate
  obtain ⟨_, ⟨threads, hpc⟩, _⟩ := hlate
  exact h _ hpc

/-- A loop comes to be doomed by a late `quit`, and stays so. -/
theorem Moves.doomed_iff (h : s.Sound connections) (hmoves : s.Moves a s') (j : Fin n) :
    (s'.io j).Doomed ↔ (s.io j).Doomed ∨ s.QuitsLate a j := by
  have hquiet {i : Fin n} {b : ThreadStep (IoCaller U) (IoFunctor C)}
      {x : Threads (IoCaller U) (IoFunctor C)} (hb : Threads.quiet b = true)
      (hstep : (s.io i).step b = some x) :
      ((s.setLoop i x).io j).Doomed ↔ (s.io j).Doomed := by
    refine setLoop_forall (P := fun k y => y.Doomed ↔ (s.io k).Doomed) ?_ (fun _ _ => Iff.rfl) j
    exact (Threads.step_moves hstep).doomed_quiet (h.running i) hb
  cases hmoves with
  | loop i b x hown hstep =>
    have hlate : ¬ s.QuitsLate (.loop i b) j := fun hlate => by cases hlate.1
    rw [or_iff_left hlate]
    exact hquiet (Threads.quiet_of_ofIoLoop hown) hstep
  | post i conn rest x hpc hstep =>
    rw [or_iff_left (not_quitsLate (by simp [hpc]) j)]
    have hbody : s.pc.InBody := by rw [hpc]; trivial
    have hpushed := Threads.step_moves hstep
    cases hpushed
    have hnone (k : Fin n) {y : Threads (IoCaller U) (IoFunctor C)}
        (hdoomed : y.Doomed) (hy : y.loop.quit = (s.io k).loop.quit) : False := by
      have hset := hdoomed.1
      rw [hy, h.body hbody k] at hset
      cases hset
    refine setLoop_forall (P := fun k y => y.Doomed ↔ (s.io k).Doomed) ?_ (fun _ _ => Iff.rfl) j
    exact iff_of_false (fun hdoomed => hnone i hdoomed rfl) fun hdoomed => hnone i hdoomed rfl
  | postReturns i rest x hpc hstep | quitReturns i rest x hpc hstep =>
    rw [or_iff_left (not_quitsLate (by simp [hpc]) j)]
    exact hquiet rfl hstep
  | posted hpc | joins _ _ hpc _ => rw [or_iff_left (not_quitsLate (by simp [hpc]) j)]
  | quits i threads x hpc hstep =>
    have hquit := Threads.step_moves hstep
    cases hquit
    by_cases hij : j = i
    · subst hij
      have hlate : ((s.setLoop j ((s.io j).call (some .base) .quit)).io j).Doomed ↔
          s.QuitsLate .destructor j := by
        rw [setLoop_self]
        constructor
        · exact fun hdoomed => ⟨rfl, ⟨threads, hpc⟩, hdoomed.2⟩
        · exact fun hlate => ⟨rfl, hlate.2.2⟩
      refine hlate.trans ⟨Or.inr, fun hor => hor.elim (fun hdoomed => ?_) id⟩
      exact ⟨rfl, ⟨threads, hpc⟩, hdoomed.2⟩
    · have hlate : ¬ s.QuitsLate .destructor j := by
        intro hlate
        obtain ⟨_, ⟨others, hstop⟩, _⟩ := hlate
        rw [hpc] at hstop
        cases hstop
        exact hij rfl
      rw [or_iff_left hlate]
      change ((s.setLoop i _).io j).Doomed ↔ _
      rw [setLoop_of_ne hij]

theorem Sound.tornDown (h : s.Sound connections) (hnone : ∀ i, ¬ (s.io i).Doomed) :
    s.TornDown connections := by
  intro i hpc
  have hquit := (h.running i).2 hpc
  have hempty : conns (s.io i).loop.pendingFunctors = [] := by
    by_contra hleft
    exact hnone i ⟨hquit, by rw [hpc]; rfl, hleft⟩
  have hover : due s.pc.connections i = [] := by
    cases hbody : s.pc with
    | posting rest | pushed _ rest =>
      have hfalse := h.body (by rw [hbody]; trivial) i
      rw [hquit] at hfalse
      cases hfalse
    | _ => rfl
  have hall := Threads.conns_executed (h.reach i) hpc
  have hposted := h.posted i
  rw [hempty, List.append_nil] at hall
  rw [hover, List.append_nil, ← hall] at hposted
  exact hposted

theorem Sound.all_posted (h : s.Sound connections) (hpc : s.pc = .stopping []) (i : Fin n) :
    conns (s.io i).pushed = due connections i := by
  have hposted := h.posted i
  rw [hpc] at hposted
  exact (List.append_nil _).symm.trans hposted

theorem Sound.not_doomed (h : s.Sound connections) (hpc : s.pc = .stopping [])
    (htorn : s.TornDown connections) (i : Fin n) : ¬ (s.io i).Doomed := by
  intro hdoomed
  have hout : (s.io i).pc = .outside := h.joined i (by rw [hpc]; exact List.not_mem_nil)
  have hposted := h.all_posted hpc i
  rw [← Threads.conns_executed (h.reach i) hout, htorn i hout] at hposted
  exact hdoomed.2.2 (List.append_right_eq_self.mp hposted)

/-- Every io loop has called `connectDestroyed` for all of its connections when it returns, if no `quit` comes between the swap of a `doPendingFunctors` and the test of `quit_` with a `connectDestroyed` in the queue; when the destructor has come to its end, only if. -/
theorem torn_down_iff {as : List (TeardownStep n C U)} (hfresh : s.Fresh connections)
    (hrun : machine.run s as = some s') :
    ((machine.restrict fun s a => s.quitsInTime a = true).run s as = some s' →
      s'.TornDown connections) ∧
    (s'.pc = .stopping [] → s'.TornDown connections →
      (machine.restrict fun s a => s.quitsInTime a = true).run s as = some s') := by
  have hsound : s'.Sound connections := by
    refine Machine.run_preserves (P := Sound connections) ?_ hfresh.sound hrun
    exact fun t a t' _ h hstep => (step_moves hstep).sound h
  have hstart : ∀ i, ¬ (s.io i).Doomed := by
    intro i hdoomed
    have hquit := hdoomed.1
    rw [(hfresh.running i).2.2] at hquit
    cases hquit
  have hexact : (∀ i, ¬ (s'.io i).Doomed) ↔
      (machine.restrict fun s a => s.quitsInTime a = true).run s as = some s' := by
    apply Machine.run_restrict_iff (P := fun t => ∀ i, ¬ (t.io i).Doomed)
      (I := Sound connections) _ _ _ _ hfresh.sound hstart hrun
    · exact fun t a t' h hstep => (step_moves hstep).sound h
    · intro t a t' h hnone hguard hstep i hdoomed
      rcases ((step_moves hstep).doomed_iff h i).mp hdoomed with hdoomed | hlate
      · exact hnone i hdoomed
      · exact quitsInTime_iff.mp hguard i hlate
    · intro t a t' h hguard hstep hnone
      apply hguard
      rw [quitsInTime_iff]
      exact fun i hlate => hnone i (((step_moves hstep).doomed_iff h i).mpr (Or.inr hlate))
    · intro t a t' h hstep hnone i hdoomed
      exact hnone i (((step_moves hstep).doomed_iff h i).mpr (Or.inl hdoomed))
  constructor
  · exact fun hrestrict => hsound.tornDown (hexact.mpr hrestrict)
  · exact fun hpc htorn => hexact.mp (hsound.not_doomed hpc htorn)

/-- One connection on one io loop that is about to poll. -/
def single : Teardown 1 Unit Unit where
  pc := .posting [((), 0)]
  io := fun _ =>
    { Threads.start with
      loop := EventLoop.new.startLooping
      pc := .poll
      published := true
      entries := 1 }

theorem single_fresh : single.Fresh [((), 0)] where
  reach _ := Machine.Reachable.run (.init rfl)
    (show Threads.machine.run Threads.start [.publish, .enterLoop, .resetQuit, .testQuit] = _ from rfl)
  running _ := ⟨nofun, nofun, rfl⟩
  posted _ := rfl
  pc := rfl

/-- The io loop is woken up by the destructor. -/
theorem torn_down_iff_polling :
    ∃ s' : Teardown 1 Unit Unit,
      machine.run single
        [.destructor, .destructor, .destructor, .destructor, .destructor,
          .loop 0 (.pollReturns true), .loop 0 .handleRead, .loop 0 .beginPendingFunctors,
          .loop 0 .swapFunctors, .loop 0 .runFunctor, .loop 0 .functorReturns,
          .loop 0 .endPendingFunctors, .loop 0 .testQuit, .destructor] = some s' ∧
      ((machine.restrict fun s a => s.quitsInTime a = true).run single
        [.destructor, .destructor, .destructor, .destructor, .destructor,
          .loop 0 (.pollReturns true), .loop 0 .handleRead, .loop 0 .beginPendingFunctors,
          .loop 0 .swapFunctors, .loop 0 .runFunctor, .loop 0 .functorReturns,
          .loop 0 .endPendingFunctors, .loop 0 .testQuit, .destructor] = some s' →
        s'.TornDown [((), 0)]) ∧
      (s'.pc = .stopping [] → s'.TornDown [((), 0)] →
        (machine.restrict fun s a => s.quitsInTime a = true).run single
          [.destructor, .destructor, .destructor, .destructor, .destructor,
            .loop 0 (.pollReturns true), .loop 0 .handleRead, .loop 0 .beginPendingFunctors,
            .loop 0 .swapFunctors, .loop 0 .runFunctor, .loop 0 .functorReturns,
            .loop 0 .endPendingFunctors, .loop 0 .testQuit, .destructor] = some s') := by
  have hend : (machine.run single
      [.destructor, .destructor, .destructor, .destructor, .destructor,
        .loop 0 (.pollReturns true), .loop 0 .handleRead, .loop 0 .beginPendingFunctors,
        .loop 0 .swapFunctors, .loop 0 .runFunctor, .loop 0 .functorReturns,
        .loop 0 .endPendingFunctors, .loop 0 .testQuit, .destructor]).map
      (fun s => (s.io 0).pc) = some .outside := by decide +kernel
  obtain ⟨s', hrun, _⟩ := Option.map_eq_some_iff.mp hend
  exact ⟨s', hrun, torn_down_iff single_fresh hrun⟩

/-- The destructor posts and quits while the loop is at the end of `doPendingFunctors`. -/
theorem connection_left_in_queue :
    ¬ ∀ (connections : List (Unit × Fin 1)) (s s' : Teardown 1 Unit Unit)
      (as : List (TeardownStep 1 Unit Unit)), s.Fresh connections → machine.run s as = some s' →
        s'.TornDown connections := by
  intro hclaim
  have hend : (machine.run single
      [.loop 0 (.pollReturns false), .loop 0 .beginPendingFunctors, .loop 0 .swapFunctors,
        .destructor, .destructor, .destructor, .destructor, .destructor,
        .loop 0 .endPendingFunctors, .loop 0 .testQuit]).map
      (fun s => ((s.io 0).pc, conns (s.io 0).executed)) = some (.outside, []) := by
    decide +kernel
  obtain ⟨s', hrun, hs'⟩ := Option.map_eq_some_iff.mp hend
  obtain ⟨hpc, hexecuted⟩ := Prod.mk.inj hs'
  have htorn := hclaim [((), 0)] single s' _ single_fresh hrun 0 hpc
  rw [hexecuted] at htorn
  exact absurd htorn (by decide)

end Teardown

end LTMuduo
