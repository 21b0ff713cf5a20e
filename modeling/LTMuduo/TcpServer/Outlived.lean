import LTMuduo.TcpServer.Teardown

/-!
# The server and what calls it

The close callback of a connection is `TcpServer::removeConnection` with the raw `this` of the server, and so is the functor of `removeConnectionInLoop` that it posts to the base loop. The callback of the acceptor is `newConnection`, with the same `this`. The machine adds the base loop to that of `Teardown`. `~TcpServer` runs in user code on the thread of the base loop, which takes no other step until the destructor has finished, and then the base loop goes on with what it has at hand: the batch of its events, the batch of its functors, its queue.

There is at least one io loop. A server without io threads runs its connections on the base loop, and no close is posted there. The server has been started on the thread of the base loop, so that `Acceptor::listen` is not in its queue. What `removeConnectionInLoop` and `newConnection` post to the io loops is not followed: any thread may post to them.
-/

namespace LTMuduo

inductive BaseFunctor (C : Type*)
  | removeConnectionInLoop (conn : C)
  | other
  deriving DecidableEq

/-- The threads that call into the base loop. -/
inductive BaseCaller (n : Nat) (U : Type*)
  | io (i : Fin n)
  | other (u : U)
  deriving DecidableEq

/-- The connection that the functor removes. -/
def BaseFunctor.conn {C : Type*} : BaseFunctor C → Option C
  | .removeConnectionInLoop conn => some conn
  | .other => none

namespace ThreadStep

variable {T F : Type*}

/-- A step of another thread. -/
def foreign : ThreadStep T F → Bool
  | .call t _ => t.isSome
  | .finishCall t => t.isSome
  | _ => false

/-- A step that has nothing to do with the connections. -/
def plain {n : Nat} {C U : Type*} : ThreadStep (BaseCaller n U) (BaseFunctor C) → Bool
  | .pollReturns _ => false
  | .call (some (.io _)) _ => false
  | .call _ (.queueInLoop cb) => cb.conn.isNone
  | _ => true

/-- The loop leaves the batch of its events. -/
def leavesEvents : ThreadStep T F → Bool
  | .beginPendingFunctors => true
  | _ => false

end ThreadStep

/-- The server with `n + 1` io loops. `opened` are the connections on them, and `accepts` says that in the batch of events in progress on the base loop the event of the acceptor is still to be handled, and that its `accept` succeeds. -/
structure ServerEnd (n : Nat) (C U : Type*) where
  io : Teardown (n + 1) C U
  base : Threads (BaseCaller (n + 1) U) (BaseFunctor C)
  begun : Bool
  opened : List (C × Fin (n + 1))
  accepts : Bool

inductive ServerEndStep (n : Nat) (C U : Type*)
  | io (i : Fin (n + 1)) (a : ThreadStep (IoCaller U) (IoFunctor C))
  | base (a : ThreadStep (BaseCaller (n + 1) U) (BaseFunctor C))
  | pollReturns (woken accepts : Bool)
  | newConnection (conn : C) (loop : Fin (n + 1))
  | handleClose (conn : C) (i : Fin (n + 1))
  /-- the destructor is called -/
  | destroy
  | destructor

/-- A change of `connections_` outside of the destructor. -/
def ServerPc.edit {n : Nat} {C : Type*} (f : List (C × Fin n) → List (C × Fin n)) :
    ServerPc n C → ServerPc n C
  | .posting connections => .posting (f connections)
  | pc => pc

/-- The `erase` of `removeConnectionInLoop`. -/
def eraseConnection {n : Nat} {C : Type*} [DecidableEq C] (conn : C) :
    List (C × Fin n) → List (C × Fin n) := List.filter fun x => x.1 ≠ conn

section

variable {n : Nat} {C : Type*} {f : List (C × Fin n) → List (C × Fin n)} {pc : ServerPc n C}

theorem ServerPc.threads_edit : (pc.edit f).threads = pc.threads := by
  cases pc <;> rfl

theorem ServerPc.edit_eq_stopping_iff {threads : List (Fin n)} :
    pc.edit f = .stopping threads ↔ pc = .stopping threads := by
  cases pc with
  | posting => exact iff_of_false nofun nofun
  | _ => exact Iff.rfl

end

/-- The connections to remove in a list of functors. -/
def removals {n : Nat} {C U : Type*} (fs : List (Posted (BaseCaller n U) (BaseFunctor C))) :
    List C := fs.filterMap fun f => f.functor.conn

/-- The connection of the `removeConnectionInLoop` that a step calls. -/
def Threads.called {n : Nat} {C U : Type*} (x : Threads (BaseCaller n U) (BaseFunctor C)) :
    ThreadStep (BaseCaller n U) (BaseFunctor C) → Option C
  | .runFunctor => x.pc.rest.head?.bind fun f => f.functor.conn
  | _ => none

namespace ServerEnd

variable {n : Nat} {C U : Type*}

section

variable (s : ServerEnd n C U)

/-- `~TcpServer` has finished, the destruction of the members included. -/
def gone : Bool :=
  match s.io.pc with
  | .stopping [] => true
  | _ => false

def inDestructor : Bool := s.begun && !s.gone

/-- The step runs `removeConnectionInLoop` or `newConnection`. -/
def touches : ServerEndStep n C U → Bool
  | .base a => (s.base.called a).isSome
  | .newConnection _ _ => true
  | _ => false

/-- Something on the base loop has still to reach the server: a close in the queue or the batch of functors, or a new connection in the batch of events. -/
def onTheWay : Bool := !(removals s.base.waiting).isEmpty || s.accepts

/-- A step that runs a function of the server finds it alive. -/
def Untouched (s : ServerEnd n C U) (a : ServerEndStep n C U) (_ : ServerEnd n C U) : Prop :=
  s.gone = true → s.touches a = false

/-- The next step of the destructor is its last one. -/
def endsNow : Bool :=
  match s.io.pc with
  | .joining _ [] => true
  | _ => false

/-- A thread that is joined has returned from its calls into the base loop. -/
def mayGoOn : Bool :=
  match s.io.pc with
  | .joining i _ => s.base.stage (some (.io i)) == .idle
  | _ => true

/-- When the destructor comes to its end, nothing is on its way to the server. -/
def endsClean : ServerEndStep n C U → Bool
  | .destructor => !s.endsNow || !s.onTheWay
  | _ => true

end

section

variable [DecidableEq C] [DecidableEq U] (s : ServerEnd n C U)

def step : ServerEndStep n C U → Option (ServerEnd n C U)
  | .io i a =>
    -- the thread of the loop may be in `queueInLoop` of the base loop
    if a.foreign = true ∨ s.base.stage (some (.io i)) = .idle then
      (s.io.step (.loop i a)).map fun x => { s with io := x }
    else none
  | .base a =>
    if a.plain ∧ (a.foreign ∨ ¬ s.inDestructor) ∧ (a.leavesEvents → ¬ s.accepts) then
      (s.base.step a).map fun x =>
        let pc := s.io.pc.edit ((s.base.called a).elim id eraseConnection)
        { s with io := { s.io with pc := pc }, base := x }
    else none
  | .pollReturns woken accepts =>
    -- `~Acceptor` has taken its channel out of the poller
    if ¬ s.inDestructor ∧ (accepts → ¬ s.begun) then
      (s.base.step (.pollReturns woken)).map fun x => { s with base := x, accepts := accepts }
    else none
  | .newConnection conn i =>
    match s.base.pc with
    | .dispatch _ =>
      if s.accepts ∧ s.base.stage none = .idle ∧ ¬ s.inDestructor then
        some { s with
          io := { s.io with pc := s.io.pc.edit (List.cons (conn, i)) }
          opened := (conn, i) :: s.opened
          accepts := false }
      else none
    | _ => none
  | .handleClose conn i =>
    match (s.io.io i).pc with
    | .dispatch _ =>
      -- `handleClose` does not test the state, so a connection may close again
      if (conn, i) ∈ s.opened ∧ (s.io.io i).stage none = .idle then
        (s.base.step (.call (some (.io i)) (.queueInLoop (.removeConnectionInLoop conn)))).map
          fun x => { s with base := x }
      else none
    | _ => none
  | .destroy =>
    if ¬ s.begun ∧ s.base.pc.InUserCode ∧ s.base.stage none = .idle then
      some { s with begun := true }
    else none
  | .destructor =>
    if s.begun ∧ s.mayGoOn then
      (s.io.step .destructor).map fun x => { s with io := x }
    else none

/-- A server whose base loop is not running yet, with io loops that stand anywhere. -/
def start (connections : List (C × Fin (n + 1)))
    (io : Fin (n + 1) → Threads (IoCaller U) (IoFunctor C))
    (opened : List (C × Fin (n + 1))) : ServerEnd n C U where
  io := ⟨.posting connections, io⟩
  base := .start
  begun := false
  opened := opened
  accepts := false

def machine : Machine (ServerEnd n C U) (ServerEndStep n C U) where
  init s := ∃ connections io opened, s = start connections io opened
  step := step

/-! ### What a step does -/

inductive Moves : ServerEndStep n C U → ServerEnd n C U → Prop
  | io (i : Fin (n + 1)) (a : ThreadStep (IoCaller U) (IoFunctor C)) (x : Teardown (n + 1) C U)
      (hstep : s.io.step (.loop i a) = some x) : Moves (.io i a) { s with io := x }
  | base (a : ThreadStep (BaseCaller (n + 1) U) (BaseFunctor C))
      (x : Threads (BaseCaller (n + 1) U) (BaseFunctor C))
      (f : List (C × Fin (n + 1)) → List (C × Fin (n + 1))) (hplain : a.plain = true)
      (hevents : s.accepts = true → a.leavesEvents = false) (hstep : s.base.step a = some x) :
      Moves (.base a) { s with io := { s.io with pc := s.io.pc.edit f }, base := x }
  | pollReturns (woken accepts : Bool) (x : Threads (BaseCaller (n + 1) U) (BaseFunctor C))
      (hbegun : accepts = true → s.begun = false) (hstep : s.base.step (.pollReturns woken) = some x) :
      Moves (.pollReturns woken accepts) { s with base := x, accepts := accepts }
  | newConnection (conn : C) (i : Fin (n + 1)) (haccepts : s.accepts = true) :
      Moves (.newConnection conn i) { s with
        io := { s.io with pc := s.io.pc.edit (List.cons (conn, i)) }
        opened := (conn, i) :: s.opened
        accepts := false }
  | handleClose (conn : C) (i : Fin (n + 1)) (x : Threads (BaseCaller (n + 1) U) (BaseFunctor C))
      (hpc : (s.io.io i).pc ≠ .outside)
      (hstep : s.base.step (.call (some (.io i)) (.queueInLoop (.removeConnectionInLoop conn))) =
        some x) : Moves (.handleClose conn i) { s with base := x }
  | destroy (hbegun : s.begun = false) : Moves .destroy { s with begun := true }
  | destructor (x : Teardown (n + 1) C U) (hbegun : s.begun = true)
      (hstep : s.io.step .destructor = some x) : Moves .destructor { s with io := x }

variable {s} {s' : ServerEnd n C U} {a : ServerEndStep n C U}

theorem step_moves (h : s.step a = some s') : s.Moves a s' := by
  cases a with
  | io i b =>
    obtain ⟨_, hsome⟩ := Option.ite_none_right_eq_some.mp h
    obtain ⟨x, hx, hset⟩ := Option.map_eq_some_iff.mp hsome
    subst hset
    exact .io i b x hx
  | base b =>
    obtain ⟨⟨hplain, _, hevents⟩, hsome⟩ := Option.ite_none_right_eq_some.mp h
    obtain ⟨x, hx, hset⟩ := Option.map_eq_some_iff.mp hsome
    subst hset
    refine .base b x _ hplain (fun haccepts => ?_) hx
    rw [← Bool.not_eq_true]
    exact fun hleaves => hevents hleaves haccepts
  | pollReturns woken accepts =>
    obtain ⟨⟨_, hbegun⟩, hsome⟩ := Option.ite_none_right_eq_some.mp h
    obtain ⟨x, hx, hset⟩ := Option.map_eq_some_iff.mp hsome
    subst hset
    exact .pollReturns woken accepts x (fun haccepts => by simpa using hbegun haccepts) hx
  | newConnection conn i =>
    unfold step at h
    dsimp only at h
    split at h
    · obtain ⟨⟨haccepts, _⟩, hsome⟩ := Option.ite_none_right_eq_some.mp h
      cases hsome
      exact .newConnection conn i haccepts
    · cases h
  | handleClose conn i =>
    unfold step at h
    dsimp only at h
    split at h
    · rename_i hpc
      obtain ⟨_, hsome⟩ := Option.ite_none_right_eq_some.mp h
      obtain ⟨x, hx, hset⟩ := Option.map_eq_some_iff.mp hsome
      subst hset
      exact .handleClose conn i x (by simp [hpc]) hx
    · cases h
  | destroy =>
    obtain ⟨⟨hbegun, _⟩, hsome⟩ := Option.ite_none_right_eq_some.mp h
    cases hsome
    exact .destroy (by simpa using hbegun)
  | destructor =>
    obtain ⟨⟨hbegun, _⟩, hsome⟩ := Option.ite_none_right_eq_some.mp h
    obtain ⟨x, hx, hset⟩ := Option.map_eq_some_iff.mp hsome
    subst hset
    exact .destructor x hbegun hx

end

/-! ### What is on its way -/

section

variable {x y : Threads (BaseCaller n U) (BaseFunctor C)}
  {b : ThreadStep (BaseCaller n U) (BaseFunctor C)}

theorem removals_append (fs gs : List (Posted (BaseCaller n U) (BaseFunctor C))) :
    removals (fs ++ gs) = removals fs ++ removals gs := List.filterMap_append

theorem removals_cons (f : Posted (BaseCaller n U) (BaseFunctor C))
    (fs : List (Posted (BaseCaller n U) (BaseFunctor C))) :
    removals (f :: fs) = f.functor.conn.toList ++ removals fs := by
  unfold removals
  rw [List.filterMap_cons]
  cases f.functor.conn <;> rfl

theorem removals_waiting [DecidableEq U] (hplain : b.plain = true) (hmoves : x.Moves b y) :
    removals x.waiting = (x.called b).toList ++ removals y.waiting := by
  by_cases hrun : b = .runFunctor
  · subst hrun
    obtain ⟨f, hhead, hwaiting⟩ := hmoves.waiting_runFunctor
    rw [hwaiting, removals_cons, Threads.called, hhead, Option.bind_some]
  · have hnone : x.called b = none := by
      unfold Threads.called
      split
      · exact absurd rfl hrun
      · rfl
    rw [hnone, Option.toList_none, List.nil_append]
    by_cases hcall : ∃ t cb, b = .call t (.queueInLoop cb)
    · obtain ⟨t, cb, rfl⟩ := hcall
      have hother : cb.conn = none := by
        unfold ThreadStep.plain at hplain
        split at hplain <;> simp_all
      rw [hmoves.waiting_queueInLoop, removals_append]
      simp [removals, Threads.nextPosted, hother]
    · rw [hmoves.waiting_eq hrun fun t cb heq => hcall ⟨t, cb, heq⟩]

theorem dispatch_stays [DecidableEq U] {woken : Bool} (hpc : x.pc = .dispatch woken)
    (hevents : b.leavesEvents = false) (hmoves : x.Moves b y) : ∃ woken, y.pc = .dispatch woken := by
  cases hmoves with
  | call t c => cases c <;> exact ⟨woken, hpc⟩
  | finishPush | finishQuit => exact ⟨woken, hpc⟩
  | handleRead => exact ⟨false, rfl⟩
  | beginPendingFunctors => cases hevents
  | _ => simp_all

end

section

variable [DecidableEq U] {s s' : ServerEnd n C U} {a : ServerEndStep n C U}

/-- Before the destructor begins, `connections_` is whole; an event that is still to be handled is in the batch in progress. -/
structure Settled (s : ServerEnd n C U) : Prop where
  before : s.begun = false → ∃ connections, s.io.pc = .posting connections
  events : s.accepts = true → ∃ woken, s.base.pc = .dispatch woken
  joined : s.io.Joined

omit [DecidableEq U] in
theorem gone_iff : s.gone = true ↔ s.io.pc = .stopping [] := by
  unfold gone
  split <;> simp_all

omit [DecidableEq U] in
theorem Settled.begun (h : s.Settled) (hgone : s.gone = true) : s.begun = true := by
  rw [gone_iff] at hgone
  by_contra hbegun
  obtain ⟨connections, hpc⟩ := h.before (by simpa using hbegun)
  rw [hgone] at hpc
  cases hpc

omit [DecidableEq U] in
theorem Settled.before_edit (h : s.Settled) (f : List (C × Fin (n + 1)) → List (C × Fin (n + 1)))
    (hbegun : s.begun = false) : ∃ connections, s.io.pc.edit f = .posting connections := by
  obtain ⟨connections, hpc⟩ := h.before hbegun
  exact ⟨f connections, by rw [hpc]; rfl⟩

theorem Moves.settled (h : s.Settled) (hmoves : s.Moves a s') : s'.Settled := by
  have hedit (f : List (C × Fin (n + 1)) → List (C × Fin (n + 1))) :
      Teardown.Joined { s.io with pc := s.io.pc.edit f } :=
    fun i hi => h.joined i (by rwa [← ServerPc.threads_edit])
  cases hmoves with
  | io i b x hstep =>
    have hmoves := Teardown.step_moves hstep
    refine ⟨fun hbegun => ?_, h.events, hmoves.joined h.joined⟩
    obtain ⟨connections, hpc⟩ := h.before hbegun
    cases hmoves
    exact ⟨connections, hpc⟩
  | base b x f hplain hevents hstep =>
    refine ⟨h.before_edit f, fun haccepts => ?_, hedit f⟩
    obtain ⟨woken, hpc⟩ := h.events haccepts
    exact dispatch_stays hpc (hevents haccepts) (Threads.step_moves hstep)
  | pollReturns woken accepts x hbegun hstep =>
    refine ⟨h.before, fun _ => ?_, h.joined⟩
    have hmoves := Threads.step_moves hstep
    cases hmoves
    exact ⟨woken, rfl⟩
  | newConnection conn i => exact ⟨h.before_edit _, nofun, hedit _⟩
  | handleClose conn i x hpc hstep =>
    refine ⟨h.before, fun haccepts => ?_, h.joined⟩
    obtain ⟨woken, hdispatch⟩ := h.events haccepts
    exact dispatch_stays hdispatch rfl (Threads.step_moves hstep)
  | destroy => exact ⟨nofun, h.events, h.joined⟩
  | destructor x hbegun hstep =>
    refine ⟨fun hnot => ?_, h.events, (Teardown.step_moves hstep).joined h.joined⟩
    exact absurd (hbegun.symm.trans hnot) Bool.noConfusion

/-! ### The end of the destructor -/

/-- The destructor finishes with its last step, which leaves the base loop as it is. -/
theorem Moves.ends (hmoves : s.Moves a s') (hgone : s'.gone = true) :
    s.gone = true ∨ a = .destructor ∧ s.endsNow = true ∧ s'.onTheWay = s.onTheWay := by
  rw [gone_iff] at hgone
  rw [gone_iff]
  cases hmoves with
  | io i b x hstep =>
    have hmoves := Teardown.step_moves hstep
    cases hmoves
    exact Or.inl hgone
  | base | newConnection => exact Or.inl (ServerPc.edit_eq_stopping_iff.mp hgone)
  | destructor x hbegun hstep =>
    refine Or.inr ⟨rfl, ?_, rfl⟩
    have hmoves := Teardown.step_moves hstep
    unfold endsNow
    cases hmoves with
    | posted hpc =>
      have hnone : List.finRange (n + 1) = [] := ServerPc.stopping.inj hgone
      exact absurd hnone (by simp)
    | joins i threads hpc hout =>
      have hnone : threads = [] := ServerPc.stopping.inj hgone
      rw [hpc, hnone]
    | _ => cases hgone
  | _ => exact Or.inl hgone

theorem Moves.gone_of_endsNow (hends : s.endsNow = true) (hmoves : s.Moves .destructor s') :
    s'.gone = true ∧ s'.onTheWay = s.onTheWay := by
  cases hmoves with
  | destructor x hbegun hstep =>
    refine ⟨?_, rfl⟩
    rw [gone_iff]
    have hmoves := Teardown.step_moves hstep
    unfold endsNow at hends
    cases hmoves with
    | joins i threads hpc hout =>
      rw [hpc] at hends
      cases threads with
      | nil => rfl
      | cons => cases hends
    | posted hpc | post _ _ _ _ hpc | postReturns _ _ _ hpc | quits _ _ _ hpc
    | quitReturns _ _ _ hpc =>
      rw [hpc] at hends
      cases hends

/-- After the end, the io loops are out, and what is on its way stays so until it touches the server. -/
theorem Moves.after (h : s.Settled) (hgone : s.gone = true) (hmoves : s.Moves a s') :
    s'.gone = true ∧ (s.touches a = false → s'.onTheWay = s.onTheWay) := by
  have hbegun := h.begun hgone
  have hpc := gone_iff.mp hgone
  rw [gone_iff]
  cases hmoves with
  | io i b x hstep =>
    have hmoves := Teardown.step_moves hstep
    cases hmoves
    exact ⟨hpc, fun _ => rfl⟩
  | base b x f hplain hevents hstep =>
    refine ⟨ServerPc.edit_eq_stopping_iff.mpr hpc, fun huntouched => ?_⟩
    have hnone : s.base.called b = none :=
      Option.isNone_iff_eq_none.mp (Option.isSome_eq_false_iff.mp huntouched)
    have hwaiting := removals_waiting hplain (Threads.step_moves hstep)
    rw [hnone, Option.toList_none, List.nil_append] at hwaiting
    rw [onTheWay, onTheWay, hwaiting]
  | pollReturns woken accepts x hbefore hstep =>
    refine ⟨hpc, fun _ => ?_⟩
    have hmoves := Threads.step_moves hstep
    have hnew : accepts = false := by
      rw [← Bool.not_eq_true]
      exact fun haccepts => Bool.false_ne_true ((hbefore haccepts).symm.trans hbegun)
    have hold : s.accepts = false := by
      rw [← Bool.not_eq_true]
      intro haccepts
      obtain ⟨woken, hdispatch⟩ := h.events haccepts
      cases hmoves with
      | pollReturns _ hpoll =>
        rw [hpoll] at hdispatch
        cases hdispatch
    have hwaiting := hmoves.waiting_eq (by simp) (by simp)
    rw [onTheWay, onTheWay, hnew, hold, hwaiting]
  | newConnection conn i haccepts => exact ⟨ServerPc.edit_eq_stopping_iff.mpr hpc, nofun⟩
  | handleClose conn i x hin hstep =>
    exact absurd (h.joined i (by rw [hpc]; exact List.not_mem_nil)) hin
  | destroy hnot => exact absurd (hnot.symm.trans hbegun) Bool.false_ne_true
  | destructor x _ hstep =>
    have hmoves := Teardown.step_moves hstep
    cases hmoves <;> simp_all

/-- Nothing is on its way at the end. -/
def Clean (s : ServerEnd n C U) : Prop := s.gone = true → s.onTheWay = false

theorem Clean.untouched (hclean : s.Clean) (hmoves : s.Moves a s') : s.Untouched a s' := by
  intro hgone
  obtain ⟨hnone, haccepts⟩ := Bool.or_eq_false_iff.mp (hclean hgone)
  cases hmoves with
  | base b x f hplain hevents hstep =>
    have hwaiting := removals_waiting hplain (Threads.step_moves hstep)
    have hempty : removals s.base.waiting = [] := by simpa using hnone
    rw [hempty] at hwaiting
    have hcalled := (List.append_eq_nil_iff.mp hwaiting.symm).1
    simpa [touches] using hcalled
  | newConnection conn i hthere => exact absurd (haccepts.symm.trans hthere) Bool.false_ne_true
  | _ => rfl

theorem Moves.clean (h : s.Settled) (hclean : s.Clean) (hguard : s.endsClean a = true)
    (hmoves : s.Moves a s') : s'.Clean := by
  intro hgone
  rcases hmoves.ends hgone with hbefore | ⟨rfl, hends, hsame⟩
  · rw [(hmoves.after h hbefore).2 (hclean.untouched hmoves hbefore)]
    exact hclean hbefore
  · rw [hsame]
    simpa [endsClean, hends] using hguard

theorem Moves.lost (hguard : ¬ s.endsClean a = true) (hmoves : s.Moves a s') :
    s'.gone = true ∧ s'.onTheWay = true := by
  cases a with
  | destructor =>
    simp only [endsClean, Bool.or_eq_true, Bool.not_eq_true', not_or, Bool.not_eq_false] at hguard
    obtain ⟨hgone, hsame⟩ := hmoves.gone_of_endsNow hguard.1
    exact ⟨hgone, hsame.trans hguard.2⟩
  | _ => exact absurd rfl hguard

/-! ### The runs -/

variable [DecidableEq C]

/-- Neither `removeConnectionInLoop` nor `newConnection` is called after the end of `~TcpServer`, if there is neither a close in the queue or the batch of functors of the base loop nor a new connection in its batch of events when the destructor ends; in a run that leaves none behind, only if. -/
theorem server_untouched_iff {connections : List (C × Fin (n + 1))}
    {io : Fin (n + 1) → Threads (IoCaller U) (IoFunctor C)} {opened : List (C × Fin (n + 1))}
    {as : List (ServerEndStep n C U)} (hrun : machine.run (start connections io opened) as = some s') :
    ((machine.restrict fun s a => s.endsClean a = true).run (start connections io opened) as =
        some s' → machine.EveryStep Untouched (start connections io opened) as) ∧
      (s'.onTheWay = false → machine.EveryStep Untouched (start connections io opened) as →
        (machine.restrict fun s a => s.endsClean a = true).run (start connections io opened) as =
          some s') := by
  have hsettled : (start connections io opened).Settled :=
    ⟨fun _ => ⟨connections, rfl⟩, nofun, fun i hi => absurd (List.mem_finRange i) hi⟩
  constructor
  · apply Machine.everyStep_of_restrict (I := fun t => t.Settled ∧ t.Clean) _ ⟨hsettled, nofun⟩
    intro t a t' ⟨h, hclean⟩ hguard hstep
    have hmoves := step_moves hstep
    exact ⟨hclean.untouched hmoves, hmoves.settled h, hmoves.clean h hclean hguard⟩
  · intro hnone
    apply Machine.restrict_of_everyStep (I := Settled)
      (L := fun t => t.gone = true ∧ t.onTheWay = true) _ _ _ hsettled
      (fun hlost => Bool.false_ne_true (hnone.symm.trans hlost.2)) hrun
    · exact fun t a t' h hstep => (step_moves hstep).settled h
    · exact fun t a t' _ hguard hstep => (step_moves hstep).lost hguard
    · intro t a t' h ⟨hgone, hlost⟩ huntouched hstep
      obtain ⟨hafter, hsame⟩ := (step_moves hstep).after h hgone
      exact ⟨hafter, (hsame (huntouched hgone)).trans hlost⟩

/-- A connection on one io loop, and the base loop in the dispatch of its events. -/
def dispatching : List (ServerEndStep 0 Unit Unit) :=
  [.base .enterLoop, .base .resetQuit, .base .testQuit, .pollReturns false false,
    .io (Fin.last 0) (.pollReturns false)]

/-- The destructor up to the join of the io loop. -/
def destroying : List (ServerEndStep 0 Unit Unit) :=
  [.destroy, .destructor, .destructor, .destructor, .destructor, .destructor,
    .io (Fin.last 0) .beginPendingFunctors, .io (Fin.last 0) .swapFunctors,
    .io (Fin.last 0) .runFunctor, .io (Fin.last 0) .functorReturns,
    .io (Fin.last 0) .endPendingFunctors, .io (Fin.last 0) .testQuit, .destructor]

/-- Nothing is closed while the server goes. -/
theorem server_untouched_iff_quiet :
    ∃ s' : ServerEnd 0 Unit Unit,
      machine.run (start [((), 0)] Teardown.single.io [((), 0)]) (dispatching ++ destroying) =
        some s' ∧
      ((machine.restrict fun s a => s.endsClean a = true).run
          (start [((), 0)] Teardown.single.io [((), 0)]) (dispatching ++ destroying) = some s' →
        machine.EveryStep Untouched (start [((), 0)] Teardown.single.io [((), 0)])
          (dispatching ++ destroying)) ∧
      (s'.onTheWay = false →
        machine.EveryStep Untouched (start [((), 0)] Teardown.single.io [((), 0)])
          (dispatching ++ destroying) →
        (machine.restrict fun s a => s.endsClean a = true).run
          (start [((), 0)] Teardown.single.io [((), 0)]) (dispatching ++ destroying) = some s') := by
  have hend : (machine.run (start [((), 0)] Teardown.single.io [((), 0)])
      (dispatching ++ destroying)).map (fun s => s.gone) = some true := by decide +kernel
  obtain ⟨s', hrun, _⟩ := Option.map_eq_some_iff.mp hend
  exact ⟨s', hrun, server_untouched_iff hrun⟩

/-- The peer closes before the base loop comes to the destructor, and the base loop runs the functor of the close after it. -/
theorem removed_from_dead_server :
    ¬ ∀ (connections : List (Unit × Fin 1)) (io : Fin 1 → Threads (IoCaller Unit) (IoFunctor Unit))
      (opened : List (Unit × Fin 1)) (s' : ServerEnd 0 Unit Unit)
      (as : List (ServerEndStep 0 Unit Unit)),
      machine.run (start connections io opened) as = some s' →
        machine.EveryStep Untouched (start connections io opened) as := by
  intro hclaim
  let steps : List (ServerEndStep 0 Unit Unit) :=
    dispatching ++ .handleClose () 0 :: .base (.finishCall (some (.io 0))) :: destroying ++
      [.base .beginPendingFunctors, .base .swapFunctors]
  have hend : (machine.run (start [((), 0)] Teardown.single.io [((), 0)]) steps).map
      (fun t => (t.gone, t.touches (.base .runFunctor), (machine.step t (.base .runFunctor)).isSome)) =
        some (true, true, true) := by decide +kernel
  obtain ⟨t, hrun, ht⟩ := Option.map_eq_some_iff.mp hend
  obtain ⟨hgone, ht⟩ := Prod.mk.inj ht
  obtain ⟨htouches, hstep⟩ := Prod.mk.inj ht
  obtain ⟨t', hstep⟩ := Option.isSome_iff_exists.mp hstep
  have hall : machine.run (start [((), 0)] Teardown.single.io [((), 0)])
      (steps ++ [.base .runFunctor]) = some t' :=
    Machine.run_concat hrun hstep
  have huntouched := (hclaim _ _ _ t' _ hall).step hrun hstep hgone
  rw [htouches] at huntouched
  cases huntouched

end

end ServerEnd

end LTMuduo
