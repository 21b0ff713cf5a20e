import LTMuduo.Connection.Spec
import LTMuduo.Lib.Machine

/-!
# One connection on its loop thread

The runs of one connection whose functions are all called on its loop thread. User code runs between two calls, or inside of a callback, where its calls follow the part of the function that ends with the callback; `resume` is what this function still has to do when the callback returns. The poller belongs to the loop, and the other channels of the loop change it between the calls.

`Change` says once what a call does to the state, the write interest, the output buffer and the effects. The invariants of the runs are derived from it.
-/

namespace LTMuduo

/-- What a function still has to do after its callback has returned. -/
inductive Resume
  | closeCallback
  | removeChannel
  deriving DecidableEq

structure LoopThread (C : Type*) where
  world : Conn C
  resume : Option Resume

/-- The calls on the loop thread. `send`, `shutdown` and `retrieveInput` are made by the user. -/
inductive LoopCall (C : Type*)
  | connectEstablished
  | send (buf : List Byte) (r : WriteResult)
  | shutdown
  | retrieveInput (len : Nat)
  | handleRead (r : ReadvResult)
  | handleWrite (r : WriteResult)
  | handleClose
  | handleError
  | connectDestroyed
  | resume
  | otherChannels (poller : EPollPoller C)

namespace LoopThread

variable {C : Type*} (c : C) (s : LoopThread C)

/-- The loop calls no function of the connection before `connectEstablished` or inside of a callback. -/
def Dispatches : Prop := s.resume = none ∧ s.world.conn.state ≠ .kConnecting

instance : Decidable s.Dispatches := inferInstanceAs (Decidable (_ ∧ _))

def onWorld (w : Conn C) : LoopThread C := { s with world := w }

def step : LoopCall C → Option (LoopThread C)
  | .connectEstablished =>
    if s.resume = none ∧ s.world.conn.state = .kConnecting then
      some (s.onWorld (s.world.connectEstablished c))
    else none
  | .send buf r => some (s.onWorld (s.world.send c buf r))
  | .shutdown => some (s.onWorld s.world.shutdown)
  | .retrieveInput len =>
    some (s.onWorld { s.world with conn.inputBuffer := s.world.conn.inputBuffer.retrieve len })
  | .handleRead r =>
    if s.Dispatches then
      let result := s.world.handleRead c r
      some { world := result.1, resume := if result.2 then some .closeCallback else none }
    else none
  | .handleWrite r => if s.Dispatches then some (s.onWorld (s.world.handleWrite c r)) else none
  | .handleClose =>
    if s.Dispatches then
      some { world := s.world.handleClose c, resume := some .closeCallback }
    else none
  | .handleError => if s.Dispatches then some (s.onWorld s.world.handleError) else none
  | .connectDestroyed =>
    if s.Dispatches then
      some { world := s.world.connectDestroyed c, resume := some .removeChannel }
    else none
  | .resume =>
    match s.resume with
    | some .closeCallback => some { world := s.world.handleCloseRest, resume := none }
    | some .removeChannel => some { world := s.world.connectDestroyedRest c, resume := none }
    | none => none
  | .otherChannels poller => some (s.onWorld { s.world with poller := poller })

/-- A connection as `TcpServer::newConnection` constructs it. -/
def Fresh (s : LoopThread C) : Prop :=
  ∃ sockfd writeComplete highWater mark poller,
    s.world = ⟨.new sockfd writeComplete highWater mark, poller, []⟩ ∧ s.resume = none

def machine : Machine (LoopThread C) (LoopCall C) where
  init := Fresh
  step := step c

end LoopThread

/-! ### What a call does -/

namespace Conn

variable {C : Type*} (w w' : Conn C) (c : C)

/-- The coupling holds until the connection is disconnected; from then on there is no write interest. -/
def Settled : Prop := if w.conn.state = .kDisconnected then w.isWriting = false else w.Coupled

/-- Effects that are neither a `::write` nor the half-close. -/
def Quiet (effects : List Effect) : Prop := ∀ e ∈ effects, e ≠ .shutdownWrite ∧ ¬ e.IsWrite

theorem OnlyQueues.quiet {effects : List Effect} (h : OnlyQueues effects) : Quiet effects := by
  intro e he
  obtain ⟨f, rfl⟩ := h e he
  exact ⟨Effect.noConfusion, id⟩

theorem Quiet.nil : Quiet [] := by
  intro e he
  cases he

theorem Quiet.singleton {e : Effect} (hshut : e ≠ .shutdownWrite) (hwrite : ¬ e.IsWrite) :
    Quiet [e] := by
  intro e' he'
  rw [List.mem_singleton.mp he']
  exact ⟨hshut, hwrite⟩

theorem Quiet.wire {effects : List Effect} (h : Quiet effects) :
    effects.flatMap Effect.wire = [] := by
  rw [List.flatMap_eq_nil_iff]
  intro e he
  have hwrite := (h e he).2
  cases e with
  | sendInLoop data write =>
    cases write with
    | none => rfl
    | some r => exact absurd trivial hwrite
  | handleWrite data r => exact absurd trivial hwrite
  | _ => rfl

/-- What a call adds to the stream of the connection: the payload of a `send` in the state `kConnected`, unless it is dropped. -/
def accepted : LoopCall C → List Byte
  | .send buf r => if w.conn.state = .kConnected ∧ ¬ w.Dropped r then buf else []
  | _ => []

/-- The changes a call can make, as far as the output of the connection is concerned. -/
inductive Change (w w' : Conn C) : LoopCall C → Prop
  | quiet (call : LoopCall C) (haccepted : w.accepted call = []) (quiet : List Effect)
      (hquiet : Quiet quiet) (heffects : w'.effects = w.effects ++ quiet)
      (hpending : w'.pending = w.pending) (hwriting : w'.isWriting = w.isWriting)
      (hstate : w'.conn.state = w.conn.state ∨
        w.conn.state = .kConnecting ∧ w'.conn.state = .kConnected) : Change w w' call
  | sent (buf : List Byte) (r : WriteResult) (quiet : List Effect) (hquiet : Quiet quiet)
      (hconnected : w.conn.state = .kConnected) (hstate : w'.conn.state = .kConnected)
      (heffects : w'.effects =
        w.effects ++ .sendInLoop buf (if w.writesDirectly then some r else none) :: quiet)
      (hcoupled : w'.Coupled)
      (hstream : w'.wire ++ w'.pending = w.wire ++ w.pending ++ w.accepted (.send buf r)) :
      Change w w' (.send buf r)
  | drained (r : WriteResult) (quiet : List Effect) (hquiet : Quiet quiet)
      (hwriting : w.isWriting = true) (hstate : w'.conn.state = w.conn.state)
      (heffects : w'.effects = w.effects ++ (.handleWrite (r.taken w.pending) r :: quiet ++
        if w.conn.state = .kDisconnecting ∧ w'.pending = [] then [.shutdownWrite] else []))
      (hcoupled : w'.Coupled) (hstream : w'.wire ++ w'.pending = w.wire ++ w.pending) :
      Change w w' (.handleWrite r)
  | shutdown (hconnected : w.conn.state = .kConnected) (hstate : w'.conn.state = .kDisconnecting)
      (heffects : w'.effects = w.effects ++ if w.isWriting then [] else [.shutdownWrite])
      (hpending : w'.pending = w.pending) (hwriting : w'.isWriting = w.isWriting) :
      Change w w' .shutdown
  | disconnected (call : LoopCall C) (haccepted : w.accepted call = []) (quiet : List Effect)
      (hquiet : Quiet quiet) (heffects : w'.effects = w.effects ++ quiet)
      (hpending : w'.pending = w.pending) (hwriting : w'.isWriting = false)
      (hstate : w'.conn.state = .kDisconnected) : Change w w' call

variable {w w'}

theorem wire_of_effects {new : List Effect} (heffects : w'.effects = w.effects ++ new) :
    w'.wire = w.wire ++ new.flatMap Effect.wire := by
  rw [wire, heffects, List.flatMap_append]
  rfl

variable {call : LoopCall C}

theorem Change.stream (h : w.Change w' call) :
    w'.wire ++ w'.pending = w.wire ++ w.pending ++ w.accepted call := by
  cases h with
  | quiet _ haccepted quiet hquiet heffects hpending =>
    rw [wire_of_effects heffects, hquiet.wire, hpending, haccepted, List.append_nil, List.append_nil]
  | sent _ _ _ _ _ _ _ _ hstream => exact hstream
  | drained _ _ _ _ _ _ _ hstream => exact hstream.trans (List.append_nil _).symm
  | shutdown _ _ heffects hpending =>
    have hnothing : (if w.isWriting then [] else [Effect.shutdownWrite]).flatMap Effect.wire = [] := by
      split <;> rfl
    rw [wire_of_effects heffects, hnothing, hpending, List.append_nil]
    exact (List.append_nil _).symm
  | disconnected _ haccepted quiet hquiet heffects hpending =>
    rw [wire_of_effects heffects, hquiet.wire, hpending, haccepted, List.append_nil, List.append_nil]

theorem Settled.coupled (h : w.Settled) (hstate : w.conn.state ≠ .kDisconnected) : w.Coupled := by
  rw [Settled, if_neg hstate] at h
  exact h

theorem Settled.not_writing (h : w.Settled) (hstate : w.conn.state = .kDisconnected) :
    w.isWriting = false := by
  rw [Settled, if_pos hstate] at h
  exact h

/-- The invariant reads the state, the write interest and the output buffer only. -/
theorem Settled.congr (h : w.Settled)
    (hstate : w'.conn.state = .kDisconnected ↔ w.conn.state = .kDisconnected)
    (hwriting : w'.isWriting = w.isWriting) (hpending : w'.pending = w.pending) : w'.Settled := by
  unfold Settled Coupled at *
  rw [hwriting, hpending]
  simpa only [hstate] using h

theorem Settled.of_coupled (h : w.Coupled) (hstate : w.conn.state ≠ .kDisconnected) :
    w.Settled := by
  rw [Settled, if_neg hstate]
  exact h

theorem Change.settled (hsettled : w.Settled) (h : w.Change w' call) : w'.Settled := by
  cases h with
  | quiet _ _ _ _ _ hpending hwriting hstate =>
    apply hsettled.congr _ hwriting hpending
    rcases hstate with hstate | ⟨hbefore, hafter⟩
    · rw [hstate]
    · rw [hbefore, hafter]
      decide
  | sent _ _ _ _ _ hstate _ hcoupled =>
    apply Settled.of_coupled hcoupled
    rw [hstate]
    decide
  | drained _ _ _ hwriting hstate _ hcoupled =>
    apply Settled.of_coupled hcoupled
    intro hdisconnected
    rw [hsettled.not_writing (hstate ▸ hdisconnected)] at hwriting
    exact Bool.false_ne_true hwriting
  | shutdown hconnected hstate _ hpending hwriting =>
    apply hsettled.congr _ hwriting hpending
    rw [hconnected, hstate]
    decide
  | disconnected _ _ _ _ _ _ hwriting hstate =>
    rw [Settled, if_pos hstate]
    exact hwriting

theorem Change.same (haccepted : w.accepted call = []) (hstate : w'.conn.state = w.conn.state)
    (hpending : w'.pending = w.pending) (hwriting : w'.isWriting = w.isWriting)
    (heffects : w'.effects = w.effects) : w.Change w' call :=
  .quiet call haccepted [] .nil (by rw [heffects, List.append_nil]) hpending hwriting
    (Or.inl hstate)

/-! ### The calls, one by one -/

variable (w)

theorem change_connectEstablished (hstate : w.conn.state = .kConnecting) :
    w.Change (w.connectEstablished c) .connectEstablished := by
  refine .quiet _ rfl [.connectionCallback true] (.singleton Effect.noConfusion id) rfl rfl ?_
    (Or.inr ⟨hstate, rfl⟩)
  exact isWriting_enableReading { w.setState .kConnected with conn.channel.tied := true } c

theorem change_send (hsettled : w.Settled) (buf : List Byte) (r : WriteResult) :
    w.Change (w.send c buf r) (.send buf r) := by
  unfold send
  by_cases hconnected : w.conn.state = .kConnected
  · have hstate : w.conn.state ≠ .kDisconnected := by
      rw [hconnected]
      decide
    obtain ⟨hsame, hcoupled, ⟨queued, honly, heffects⟩, hstream⟩ :=
      w.sendInLoop_spec c buf r (hsettled.coupled hstate) hstate
    rw [if_pos hconnected]
    refine .sent buf r queued honly.quiet hconnected (hsame.trans hconnected) heffects hcoupled ?_
    rw [hstream]
    simp [accepted, hconnected]
  · rw [if_neg hconnected]
    exact .same (if_neg fun h => hconnected h.1) rfl rfl rfl rfl

theorem change_shutdown : w.Change w.shutdown .shutdown := by
  unfold shutdown
  split
  · rename_i hconnected
    have hconn := (w.setState .kDisconnecting).shutdownInLoop_conn
    refine .shutdown hconnected (by rw [hconn]; rfl) ?_ (by rw [pending, hconn]; rfl)
      (by rw [isWriting, hconn]; rfl)
    exact (w.setState .kDisconnecting).shutdownInLoop_effects
  · exact .same rfl rfl rfl rfl rfl

theorem change_handleClose (haccepted : w.accepted call = []) :
    w.Change (w.handleClose c) call := by
  obtain ⟨hstate, hwriting, hpending, heffects⟩ := w.handleClose_spec c
  exact .disconnected _ haccepted _ (.singleton Effect.noConfusion id) heffects hpending hwriting
    hstate

theorem change_handleRead (r : ReadvResult) :
    w.Change (w.handleRead c r).1 (.handleRead r) := by
  rcases w.handleRead_spec c r with ⟨hstate, hwriting, hpending, heffects, _⟩ | ⟨b, hclosed⟩
  · rcases heffects with heffects | heffects
    · exact .same rfl hstate hpending hwriting heffects
    · exact .quiet _ rfl _ (.singleton Effect.noConfusion id) heffects hpending hwriting
        (Or.inl hstate)
  · rw [hclosed]
    let read : Conn C := { w with conn.inputBuffer := b }
    obtain ⟨hstate, hwriting, hpending, heffects⟩ := read.handleClose_spec c
    exact .disconnected _ rfl _ (.singleton Effect.noConfusion id) heffects hpending hwriting hstate

theorem change_handleWrite (hsettled : w.Settled) (r : WriteResult) :
    w.Change (w.handleWrite c r) (.handleWrite r) := by
  by_cases hwriting : w.isWriting = true
  · have hstate : w.conn.state ≠ .kDisconnected := by
      intro hdisconnected
      rw [hsettled.not_writing hdisconnected] at hwriting
      exact Bool.false_ne_true hwriting
    obtain ⟨hsame, hcoupled, hstream, queued, honly, heffects⟩ :=
      w.handleWrite_spec c r (hsettled.coupled hstate) hwriting
    exact .drained r queued honly.quiet hwriting hsame heffects hcoupled hstream
  · rw [w.handleWrite_of_not_writing c r (by simpa using hwriting)]
    exact .same rfl rfl rfl rfl rfl

theorem change_connectDestroyed :
    w.Change (w.connectDestroyed c) .connectDestroyed := by
  unfold connectDestroyed
  split
  · exact change_handleClose w c rfl
  · exact .same rfl rfl rfl rfl rfl

end Conn

namespace LoopThread

variable {C : Type*} {c : C} {s s' : LoopThread C} {call : LoopCall C}

theorem step_change (hsettled : s.world.Settled)
    (hstep : step c s call = some s') : s.world.Change s'.world call := by
  cases call with
  | connectEstablished =>
    obtain ⟨⟨_, hstate⟩, hsome⟩ := Option.ite_none_right_eq_some.mp hstep
    cases hsome
    exact Conn.change_connectEstablished s.world c hstate
  | send buf r =>
    cases hstep
    exact Conn.change_send s.world c hsettled buf r
  | shutdown =>
    cases hstep
    exact Conn.change_shutdown s.world
  | retrieveInput len =>
    cases hstep
    exact .same rfl rfl rfl rfl rfl
  | handleRead r =>
    obtain ⟨_, hsome⟩ := Option.ite_none_right_eq_some.mp hstep
    cases hsome
    exact Conn.change_handleRead s.world c r
  | handleWrite r =>
    obtain ⟨_, hsome⟩ := Option.ite_none_right_eq_some.mp hstep
    cases hsome
    exact Conn.change_handleWrite s.world c hsettled r
  | handleClose =>
    obtain ⟨_, hsome⟩ := Option.ite_none_right_eq_some.mp hstep
    cases hsome
    exact Conn.change_handleClose s.world c rfl
  | handleError =>
    obtain ⟨_, hsome⟩ := Option.ite_none_right_eq_some.mp hstep
    cases hsome
    exact .same rfl rfl rfl rfl rfl
  | connectDestroyed =>
    obtain ⟨_, hsome⟩ := Option.ite_none_right_eq_some.mp hstep
    cases hsome
    exact Conn.change_connectDestroyed s.world c
  | resume =>
    unfold step at hstep
    dsimp only at hstep
    split at hstep
    · cases hstep
      exact .quiet _ rfl [.closeCallback] (.singleton Effect.noConfusion id) rfl rfl rfl
        (Or.inl rfl)
    · cases hstep
      exact .same rfl rfl rfl rfl rfl
    · cases hstep
  | otherChannels poller =>
    cases hstep
    exact .same rfl rfl rfl rfl rfl

theorem Fresh.settled (h : s.Fresh) : s.world.Settled := by
  obtain ⟨sockfd, writeComplete, highWater, mark, poller, hworld, _⟩ := h
  rw [hworld]
  refine .of_coupled ?_ StateE.noConfusion
  have hpending : (Conn.mk (.new sockfd writeComplete highWater mark) poller []).pending = [] :=
    ValidBuffer.content_new _
  rw [Conn.Coupled, hpending]
  have hoff : (Channel.kNoneEvent &&& Channel.kWriteEvent != 0) ≠ true := by decide
  exact iff_of_false hoff (· rfl)

theorem run_settled {calls : List (LoopCall C)} (hfresh : s.Fresh)
    (hrun : (machine c).run s calls = some s') : s'.world.Settled :=
  Machine.run_preserves (P := fun t : LoopThread C => t.world.Settled)
    (fun _ _ _ _ h hstep => (step_change h hstep).settled h) hfresh.settled hrun

theorem Fresh.stream (h : s.Fresh) : s.world.wire ++ s.world.pending = [] := by
  obtain ⟨sockfd, writeComplete, highWater, mark, poller, hworld, _⟩ := h
  rw [hworld]
  exact ValidBuffer.content_new Buffer.kInitialSize

theorem run_stream {calls : List (LoopCall C)} (hfresh : s.Fresh)
    (hrun : (machine c).run s calls = some s') :
    s'.world.wire ++ s'.world.pending =
      (machine c).collect (fun t call => t.world.accepted call) s calls := by
  have hrun := Machine.run_collect (P := fun t : LoopThread C => t.world.Settled)
    (fun t => t.world.wire ++ t.world.pending)
    (fun _ _ _ h hstep => ⟨(step_change h hstep).settled h, (step_change h hstep).stream⟩)
    hfresh.settled hrun
  rw [hrun, hfresh.stream, List.nil_append]

end LoopThread

end LTMuduo
