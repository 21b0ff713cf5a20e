import LTMuduo.Connection.CrossThread
import LTMuduo.Connection.Registration

/-!
# `state_` between the threads

The loop thread of a connection and any other threads that call `send` and `shutdown` on it. `state_` is atomic, and a step of the machine makes at most one load of it or one store to it, so a run is an interleaving of the loads and the stores. A thread `some t` is a foreign thread, `none` is user code on the loop thread, which can run between two functions of the connection and inside of its callbacks.

`shutdown` loads `state_` and stores to it in two steps, and the loop thread may close the connection in between. `closes` counts the stores of `kDisconnected`; it is history, as is the count that `shutdownLoaded` remembers.
-/

namespace LTMuduo

/-- The order of the states of a connection. -/
def StateE.rank : StateE → Nat
  | .kConnecting => 0
  | .kConnected => 1
  | .kDisconnecting => 2
  | .kDisconnected => 3

theorem StateE.rank_le (s : StateE) : s.rank ≤ rank .kDisconnected := by
  cases s <;> decide

/-- What of a call of `send` or `shutdown` a thread has still to do. -/
inductive StateCall
  | idle
  | sendLoaded (data : List Byte)
  | shutdownLoaded (closes : Nat)
  | shutdownStored
  deriving DecidableEq

def StateCall.isSend : StateCall → Bool
  | .sendLoaded _ => true
  | _ => false

/-- Where the loop thread stands. -/
inductive StatePc
  /-- between two functions, or inside of a callback -/
  | ready
  /-- in `connectEstablished`, behind its store -/
  | established
  /-- in `handleWrite`, in front of its test -/
  | drained
  /-- in `handleClose`, in front of its store and behind it -/
  | close
  | closing
  /-- in `connectDestroyed`, which has found `kConnected`, in front of its store and behind it -/
  | destroy
  | destroying
  deriving DecidableEq

structure SharedState (T C : Type*) where
  world : Conn C
  queue : List Deferred
  pc : StatePc
  resume : Option Resume
  stage : Option T → StateCall
  closes : Nat

inductive SharedStep (T : Type*)
  | connectEstablished
  | handleRead (r : ReadvResult)
  | handleWrite (r : WriteResult)
  | handleClose
  | connectDestroyed
  | runFunctor (r : WriteResult)
  /-- The loop thread goes on with the function it is in. -/
  | proceed
  | resume
  | loadSend (t : Option T) (data : List Byte)
  | loadShutdown (t : Option T)
  | storeShutdown (t : Option T)
  | finishCall (t : Option T) (r : WriteResult)

namespace SharedState

variable {T C : Type*} [DecidableEq T] (c : C) (s : SharedState T C)

/-- No function of the connection is running on the loop thread, and the connection is established. -/
def Dispatches : Prop :=
  s.pc = .ready ∧ s.resume = none ∧ s.stage none = .idle ∧ s.world.conn.state ≠ .kConnecting

instance : Decidable s.Dispatches := inferInstanceAs (Decidable (_ ∧ _ ∧ _ ∧ _))

/-- A thread can make a call; the loop thread makes its calls from user code. -/
def Calls (t : Option T) : Prop := s.stage t = .idle ∧ (t = none → s.pc = .ready)

instance (t : Option T) : Decidable (s.Calls t) := inferInstanceAs (Decidable (_ ∧ _))

def setStage (t : Option T) (stage : StateCall) : SharedState T C :=
  { s with stage := Function.update s.stage t stage }

/-- The store of `kDisconnected`. -/
def storeDisconnected (pc : StatePc) : SharedState T C :=
  { s with world := s.world.setState .kDisconnected, closes := s.closes + 1, pc := pc }

def runDeferred (r : WriteResult) : Deferred → Conn C
  | .sendInLoop payload => s.world.sendInLoop c payload r
  | .shutdownInLoop => s.world.shutdownInLoop
  | .other => s.world

/-- `handleRead`, up to the call of `handleClose`. -/
def handleRead (r : ReadvResult) : SharedState T C :=
  let (inputBuffer, n) := s.world.conn.inputBuffer.readFd r
  let w : Conn C := { s.world with conn.inputBuffer := inputBuffer }
  if 0 < n then { s with world := w.emit .messageCallback }
  else if n = 0 then { s with world := w, pc := .close }
  else { s with world := w.handleError }

/-- The rest of the function that the loop thread is in, up to its next access to `state_`. -/
def proceed : Option (SharedState T C) :=
  match s.pc with
  | .ready => none
  | .established =>
    let w := { s.world with conn.channel.tied := true }
    some { s with world := (w.enableReading c).connectionCallback, pc := .ready }
  | .drained => some { s with world := s.world.handleWriteFinish, pc := .ready }
  | .close => some (s.storeDisconnected .closing)
  | .closing =>
    let w := (s.world.disableAll c).connectionCallback
    some { s with world := w, pc := .ready, resume := some .closeCallback }
  | .destroy => some (s.storeDisconnected .destroying)
  | .destroying =>
    let w := (s.world.disableAll c).connectionCallback
    some { s with world := w, pc := .ready, resume := some .removeChannel }

/-- The end of a call of `send` or `shutdown`: a foreign thread hands the functor to the loop, and the loop thread calls it. -/
def finishCall (t : Option T) (r : WriteResult) : Option (SharedState T C) :=
  let functor : Option Deferred :=
    match s.stage t with
    | .sendLoaded data => some (.sendInLoop data)
    | .shutdownStored => some .shutdownInLoop
    | _ => none
  functor.map fun f =>
    if t.isSome then { s.setStage t .idle with queue := s.queue ++ [f] }
    else { s.setStage t .idle with world := s.runDeferred c r f }

def step : SharedStep T → Option (SharedState T C)
  | .connectEstablished =>
    if s.pc = .ready ∧ s.resume = none ∧ s.stage none = .idle ∧ s.world.conn.state = .kConnecting then
      some { s with world := s.world.setState .kConnected, pc := .established }
    else none
  | .handleRead r => if s.Dispatches then some (s.handleRead r) else none
  | .handleWrite r =>
    if s.Dispatches then
      let result := s.world.handleWriteDrain c r
      some { s with world := result.1, pc := if result.2 then .drained else .ready }
    else none
  | .handleClose => if s.Dispatches then some { s with pc := .close } else none
  | .connectDestroyed =>
    if s.Dispatches then
      if s.world.conn.state = .kConnected then some { s with pc := .destroy }
      else some { s with resume := some .removeChannel }
    else none
  | .runFunctor r =>
    match s.queue with
    | f :: rest =>
      if s.Dispatches then some { s with world := s.runDeferred c r f, queue := rest } else none
    | [] => none
  | .proceed => s.proceed c
  | .resume =>
    if s.pc = .ready ∧ s.stage none = .idle then
      match s.resume with
      | some .closeCallback => some { s with world := s.world.handleCloseRest, resume := none }
      | some .removeChannel => some { s with world := s.world.connectDestroyedRest c, resume := none }
      | none => none
    else none
  | .loadSend t data =>
    if s.Calls t then
      if s.world.conn.state = .kConnected then some (s.setStage t (.sendLoaded data)) else some s
    else none
  | .loadShutdown t =>
    if s.Calls t then
      if s.world.conn.state = .kConnected then some (s.setStage t (.shutdownLoaded s.closes))
      else some s
    else none
  | .storeShutdown t =>
    match s.stage t with
    | .shutdownLoaded _ =>
      some { s.setStage t .shutdownStored with world := s.world.setState .kDisconnecting }
    | _ => none
  | .finishCall t r => s.finishCall c t r

/-- A connection as `TcpServer::newConnection` constructs it. -/
def Fresh : Prop :=
  (∃ sockfd writeComplete highWater mark poller,
    s.world = ⟨.new sockfd writeComplete highWater mark, poller, []⟩) ∧
  s.queue = [] ∧ s.pc = .ready ∧ s.resume = none ∧ (∀ t, s.stage t = .idle) ∧ s.closes = 0

def machine : Machine (SharedState T C) (SharedStep T) where
  init := Fresh
  step := step c

/-- The step runs a `sendInLoop`. -/
def runsSend : SharedStep T → Bool
  | .runFunctor _ => s.queue.head?.any Deferred.isSend
  | .finishCall none _ => (s.stage none).isSend
  | _ => false

/-- The state does not go back; and a `sendInLoop` that runs after the connection was disconnected makes no `::write` and does not turn the write interest on. -/
structure Forward (s : SharedState T C) (a : SharedStep T) (s' : SharedState T C) : Prop where
  rank : s.world.conn.state.rank ≤ s'.world.conn.state.rank
  sends : 0 < s.closes → s.runsSend a = true →
    (∃ new, s'.world.effects = s.world.effects ++ new ∧ ∀ e ∈ new, ¬ e.IsWrite) ∧
      (s'.world.isWriting = true → s.world.isWriting = true)

/-- No store of `kDisconnected` falls between the load of a `shutdown` and its store. -/
def notOvertaken : SharedStep T → Bool
  | .storeShutdown t =>
    match s.stage t with
    | .shutdownLoaded closes => closes == s.closes
    | _ => true
  | _ => true

/-! ### What a step does to `state_` -/

/-- The accesses of the steps that matter for the order of the states. -/
inductive Accesses (s : SharedState T C) : SharedStep T → SharedState T C → Prop
  | keep (a : SharedStep T) (s' : SharedState T C) (ha : ∀ t, a ≠ .storeShutdown t)
      (hstate : s'.world.conn.state = s.world.conn.state) (hcloses : s'.closes = s.closes)
      (hstage : ∀ t n, s'.stage t = .shutdownLoaded n → s.stage t = .shutdownLoaded n) :
      Accesses s a s'
  | connected (hconnecting : s.world.conn.state = .kConnecting) :
      Accesses s .connectEstablished
        { s with world := s.world.setState .kConnected, pc := .established }
  | loaded (t : Option T) (hconnected : s.world.conn.state = .kConnected) :
      Accesses s (.loadShutdown t) (s.setStage t (.shutdownLoaded s.closes))
  | disconnecting (t : Option T) (n : Nat) (hstage : s.stage t = .shutdownLoaded n) :
      Accesses s (.storeShutdown t)
        { s.setStage t .shutdownStored with world := s.world.setState .kDisconnecting }
  | disconnected (pc : StatePc) : Accesses s .proceed (s.storeDisconnected pc)

theorem sendInLoop_state (w : Conn C) (data : List Byte) (r : WriteResult) :
    (w.sendInLoop c data r).conn.state = w.conn.state := by
  unfold Conn.sendInLoop
  split
  · rfl
  · exact (Conn.bufferRest_registration _ c _ _).2.trans (w.sendDirectly_aside data r).2.2

omit [DecidableEq T] in
theorem runDeferred_state (r : WriteResult) (f : Deferred) :
    (s.runDeferred c r f).conn.state = s.world.conn.state := by
  cases f with
  | sendInLoop payload => exact sendInLoop_state c s.world payload r
  | shutdownInLoop => exact s.world.shutdownInLoop_aside.2.2
  | other => rfl

variable {s} {s' : SharedState T C} {a : SharedStep T}

theorem of_setStage {t u : Option T} {n : Nat} {stage : StateCall}
    (hstage : ∀ n, stage ≠ .shutdownLoaded n)
    (h : (s.setStage t stage).stage u = .shutdownLoaded n) : s.stage u = .shutdownLoaded n := by
  change Function.update s.stage t stage u = .shutdownLoaded n at h
  by_cases hu : u = t
  · subst hu
    rw [Function.update_self] at h
    exact absurd h (hstage n)
  · rwa [Function.update_of_ne hu] at h

variable {c}

theorem step_accesses (h : s.step c a = some s') : s.Accesses a s' := by
  have hsame (a : SharedStep T) (s' : SharedState T C) (ha : ∀ t, a ≠ .storeShutdown t)
      (hstate : s'.world.conn.state = s.world.conn.state) (hcloses : s'.closes = s.closes)
      (hstage : s'.stage = s.stage) : s.Accesses a s' :=
    .keep a s' ha hstate hcloses fun t n ht => by rwa [hstage] at ht
  cases a with
  | connectEstablished =>
    obtain ⟨⟨_, _, _, hconnecting⟩, hsome⟩ := Option.ite_none_right_eq_some.mp h
    cases hsome
    exact .connected hconnecting
  | handleRead r =>
    obtain ⟨_, hsome⟩ := Option.ite_none_right_eq_some.mp h
    cases hsome
    unfold handleRead
    dsimp only
    split
    · exact hsame _ _ (by simp) rfl rfl rfl
    · split
      · exact hsame _ _ (by simp) rfl rfl rfl
      · exact hsame _ _ (by simp) rfl rfl rfl
  | handleWrite r =>
    obtain ⟨_, hsome⟩ := Option.ite_none_right_eq_some.mp h
    cases hsome
    exact hsame _ _ (by simp) (s.world.handleWriteDrain_registration c r).2 rfl rfl
  | handleClose =>
    obtain ⟨_, hsome⟩ := Option.ite_none_right_eq_some.mp h
    cases hsome
    exact hsame _ _ (by simp) rfl rfl rfl
  | connectDestroyed =>
    obtain ⟨_, hsome⟩ := Option.ite_none_right_eq_some.mp h
    split at hsome
    · cases hsome
      exact hsame _ _ (by simp) rfl rfl rfl
    · cases hsome
      exact hsame _ _ (by simp) rfl rfl rfl
  | runFunctor r =>
    unfold step at h
    dsimp only at h
    split at h
    · obtain ⟨_, hsome⟩ := Option.ite_none_right_eq_some.mp h
      cases hsome
      exact hsame _ _ (by simp) (s.runDeferred_state c r _) rfl rfl
    · cases h
  | proceed =>
    change s.proceed c = some s' at h
    unfold proceed at h
    split at h
    · cases h
    · cases h
      exact hsame _ _ (by simp) rfl rfl rfl
    · cases h
      exact hsame _ _ (by simp) s.world.handleWriteFinish_aside.2.2 rfl rfl
    · cases h
      exact .disconnected .closing
    · cases h
      exact hsame _ _ (by simp) rfl rfl rfl
    · cases h
      exact .disconnected .destroying
    · cases h
      exact hsame _ _ (by simp) rfl rfl rfl
  | resume =>
    obtain ⟨_, hsome⟩ := Option.ite_none_right_eq_some.mp h
    split at hsome
    · cases hsome
      exact hsame _ _ (by simp) rfl rfl rfl
    · cases hsome
      exact hsame _ _ (by simp) rfl rfl rfl
    · cases hsome
  | loadSend t data =>
    obtain ⟨_, hsome⟩ := Option.ite_none_right_eq_some.mp h
    split at hsome
    · cases hsome
      exact .keep _ _ (by simp) rfl rfl fun u n => of_setStage (by simp)
    · cases hsome
      exact hsame _ _ (by simp) rfl rfl rfl
  | loadShutdown t =>
    obtain ⟨_, hsome⟩ := Option.ite_none_right_eq_some.mp h
    split at hsome
    · rename_i hconnected
      cases hsome
      exact .loaded t hconnected
    · cases hsome
      exact hsame _ _ (by simp) rfl rfl rfl
  | storeShutdown t =>
    unfold step at h
    dsimp only at h
    split at h
    · rename_i n hstage
      cases h
      exact .disconnecting t n hstage
    · cases h
  | finishCall t r =>
    obtain ⟨f, _, hf⟩ := Option.map_eq_some_iff.mp h
    split at hf
    · cases hf
      exact .keep _ _ (by simp) rfl rfl fun u n => of_setStage (by simp)
    · cases hf
      exact .keep _ _ (by simp) (s.runDeferred_state c r f) rfl fun u n => of_setStage (by simp)

theorem step_runsSend (h : s.step c a = some s') (hsend : s.runsSend a = true)
    (hdisconnected : s.world.conn.state = .kDisconnected) : s'.world = s.world := by
  have hnothing (r : WriteResult) (f : Deferred) (hf : f.isSend = true) :
      s.runDeferred c r f = s.world := by
    cases f with
    | sendInLoop payload => exact if_pos hdisconnected
    | shutdownInLoop => cases hf
    | other => rfl
  cases a with
  | runFunctor r =>
    unfold step at h
    dsimp only at h
    split at h
    · rename_i f rest hqueue
      obtain ⟨_, hsome⟩ := Option.ite_none_right_eq_some.mp h
      cases hsome
      have hsend : s.queue.head?.any Deferred.isSend = true := hsend
      rw [hqueue] at hsend
      exact hnothing r f hsend
    · cases h
  | finishCall t r =>
    cases t with
    | none =>
      obtain ⟨f, hf, hs'⟩ := Option.map_eq_some_iff.mp h
      cases hs'
      refine hnothing r f ?_
      have hsend : (s.stage none).isSend = true := hsend
      cases hstage : s.stage none with
      | sendLoaded data =>
        rw [hstage] at hf
        cases hf
        rfl
      | _ =>
        rw [hstage] at hsend
        cases hsend
    | some u => cases hsend
  | _ => cases hsend

/-! ### Runs -/

/-- The invariant of the runs in which no `shutdown` was overtaken. -/
structure Ordered (s : SharedState T C) : Prop where
  closed : 0 < s.closes ↔ s.world.conn.state = .kDisconnected
  loaded : ∀ t n, s.stage t = .shutdownLoaded n → n = 0

omit [DecidableEq T] in
theorem Fresh.ordered (h : s.Fresh) : s.Ordered := by
  obtain ⟨⟨sockfd, writeComplete, highWater, mark, poller, hworld⟩, _, _, _, hstage, hcloses⟩ := h
  constructor
  · rw [hcloses, hworld]
    exact iff_of_false (Nat.lt_irrefl 0) StateE.noConfusion
  · intro t n ht
    rw [hstage] at ht
    cases ht

theorem Accesses.ordered (h : s.Ordered) (hguard : s.notOvertaken a = true)
    (haccesses : s.Accesses a s') : s'.Ordered := by
  cases haccesses with
  | keep _ _ _ hstate hcloses hstage =>
    constructor
    · rw [hstate, hcloses]
      exact h.closed
    · exact fun t n ht => h.loaded t n (hstage t n ht)
  | connected hconnecting =>
    have hnone : ¬ 0 < s.closes := by
      rw [h.closed, hconnecting]
      exact StateE.noConfusion
    exact ⟨iff_of_false hnone StateE.noConfusion, h.loaded⟩
  | loaded t hconnected =>
    have hnone : ¬ 0 < s.closes := by
      rw [h.closed, hconnected]
      exact StateE.noConfusion
    refine ⟨h.closed, fun u n hu => ?_⟩
    change Function.update s.stage t (.shutdownLoaded s.closes) u = .shutdownLoaded n at hu
    by_cases heq : u = t
    · subst heq
      rw [Function.update_self] at hu
      cases hu
      omega
    · rw [Function.update_of_ne heq] at hu
      exact h.loaded u n hu
  | disconnecting t n hstage =>
    have hzero := h.loaded t n hstage
    have hsame : n = s.closes := by simpa [notOvertaken, hstage] using hguard
    refine ⟨iff_of_false ?_ StateE.noConfusion, fun u m hu => h.loaded u m (of_setStage (by simp) hu)⟩
    change ¬ 0 < s.closes
    omega
  | disconnected pc => exact ⟨iff_of_true (Nat.succ_pos _) rfl, h.loaded⟩

/-- A step goes forward exactly when it is not the store of an overtaken `shutdown`. -/
theorem forward_iff (h : s.Ordered) (hstep : s.step c a = some s') :
    s.Forward a s' ↔ s.notOvertaken a = true := by
  have hsends (hclosed : 0 < s.closes) (hsend : s.runsSend a = true) :
      (∃ new, s'.world.effects = s.world.effects ++ new ∧ ∀ e ∈ new, ¬ e.IsWrite) ∧
        (s'.world.isWriting = true → s.world.isWriting = true) := by
    rw [step_runsSend hstep hsend (h.closed.mp hclosed)]
    exact ⟨⟨[], (List.append_nil _).symm, (nomatch ·, ·)⟩, id⟩
  cases step_accesses hstep with
  | keep _ _ ha hstate hcloses hstage =>
    refine iff_of_true ⟨Nat.le_of_eq (congrArg StateE.rank hstate.symm), hsends⟩ ?_
    unfold notOvertaken
    split
    · exact absurd rfl (ha _)
    · rfl
  | connected hconnecting =>
    refine iff_of_true ⟨?_, hsends⟩ rfl
    rw [hconnecting]
    exact Nat.zero_le _
  | loaded t hconnected => exact iff_of_true ⟨Nat.le_refl _, hsends⟩ rfl
  | disconnected pc =>
    exact iff_of_true ⟨s.world.conn.state.rank_le, hsends⟩ rfl
  | disconnecting t n hstage =>
    have hzero := h.loaded t n hstage
    have hguard : s.notOvertaken (.storeShutdown t) = true ↔ n = s.closes := by
      simp [notOvertaken, hstage]
    have hrank : s.world.conn.state.rank ≤ StateE.rank .kDisconnecting ↔
        s.world.conn.state ≠ .kDisconnected := by
      cases s.world.conn.state <;> decide
    have hopen : s.world.conn.state ≠ .kDisconnected ↔ n = s.closes := by
      rw [ne_eq, ← h.closed, hzero]
      omega
    rw [hguard, ← hopen, ← hrank]
    constructor
    · exact fun hforward => hforward.rank
    · exact fun hle => ⟨hle, hsends⟩

/-- Every step of a run goes forward exactly when no `shutdown` is overtaken by the close between its load and its store. -/
theorem states_move_forward_iff {as : List (SharedStep T)} (hfresh : s.Fresh)
    (hrun : (machine c).run s as = some s') :
    (machine c).EveryStep Forward s as ↔
      ((machine c).restrict fun s a => s.notOvertaken a = true).run s as = some s' := by
  apply Machine.everyStep_iff_restrict (I := Ordered) _ _ hfresh.ordered hrun
  · exact fun t a t' h hstep => forward_iff h hstep
  · exact fun t a t' h hguard hstep => (step_accesses hstep).ordered h hguard

/-- A new connection on a loop without other channels. -/
def single (sockfd : Fd) : SharedState Unit Unit :=
  ⟨⟨.new sockfd false false 65536, .new, []⟩, [], .ready, none, fun _ => .idle, 0⟩

theorem single_fresh (sockfd : Fd) : (single sockfd).Fresh :=
  ⟨⟨sockfd, false, false, 65536, .new, rfl⟩, rfl, rfl, rfl, fun _ => rfl, rfl⟩

/-- A `shutdown` of another thread that is complete before the connection is closed. -/
theorem states_move_forward_iff_shutdown :
    ∃ s' : SharedState Unit Unit,
      (machine ()).run (single 7)
        [.connectEstablished, .proceed, .loadShutdown (some ()), .storeShutdown (some ()),
          .finishCall (some ()) (.accepted 0), .handleClose, .proceed, .proceed] = some s' ∧
      ((machine ()).EveryStep Forward (single 7)
        [.connectEstablished, .proceed, .loadShutdown (some ()), .storeShutdown (some ()),
          .finishCall (some ()) (.accepted 0), .handleClose, .proceed, .proceed] ↔
        ((machine ()).restrict fun s a => s.notOvertaken a = true).run (single 7)
          [.connectEstablished, .proceed, .loadShutdown (some ()), .storeShutdown (some ()),
            .finishCall (some ()) (.accepted 0), .handleClose, .proceed, .proceed] = some s') := by
  have hend : ((machine ()).run (single 7)
      [.connectEstablished, .proceed, .loadShutdown (some ()), .storeShutdown (some ()),
        .finishCall (some ()) (.accepted 0), .handleClose, .proceed, .proceed]).map
      (fun s => s.closes) = some 1 := by decide +kernel
  obtain ⟨s', hrun, _⟩ := Option.map_eq_some_iff.mp hend
  exact ⟨s', hrun, states_move_forward_iff (single_fresh 7) hrun⟩

/-- The peer closes between the load and the store of a `shutdown`. -/
theorem shutdown_moves_back :
    ¬ ∀ (s s' : SharedState Unit Unit) (as : List (SharedStep Unit)), s.Fresh →
      (machine ()).run s as = some s' → (machine ()).EveryStep Forward s as := by
  intro hclaim
  let steps : List (SharedStep Unit) :=
    [.connectEstablished, .proceed, .loadShutdown (some ()), .handleClose, .proceed]
  have hend : ((machine ()).run (single 7) steps).map
      (fun t => (t.world.conn.state, ((machine ()).step t (.storeShutdown (some ()))).map
        fun t' => t'.world.conn.state)) = some (.kDisconnected, some .kDisconnecting) := by
    decide +kernel
  obtain ⟨t, hrun, ht⟩ := Option.map_eq_some_iff.mp hend
  obtain ⟨hbefore, hafter⟩ := Prod.mk.inj ht
  obtain ⟨t', hstep, hafter⟩ := Option.map_eq_some_iff.mp hafter
  have hall : (machine ()).run (single 7) (steps ++ [.storeShutdown (some ())]) = some t' :=
    Machine.run_concat hrun hstep
  have hforward := (hclaim (single 7) t' _ (single_fresh 7) hall).step hrun hstep
  have hrank := hforward.rank
  rw [hbefore, hafter] at hrank
  exact absurd hrank (by decide)

end SharedState

end LTMuduo
