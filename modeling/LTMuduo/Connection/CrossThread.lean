import LTMuduo.Connection.Output
import LTMuduo.EventLoop.Code

/-!
# `send` and `shutdown` from another thread

A thread that is not the loop thread calls `send` for some payloads and then `shutdown`. Each call loads `state_`; `send` then hands `sendInLoop` to the loop, `shutdown` stores `kDisconnecting` and hands over `shutdownInLoop`. In the meantime the loop thread handles batches of events and runs the functors it finds in its queue. The store and the test of `state_` at the end of `handleWrite` are steps of their own. The payloads stay as they are, so a functor carries its payload; `other` is a functor that has nothing to do with the connection.

The half-close is safe as long as that test does not see `kDisconnecting` with a `sendInLoop` in the queue.
-/

namespace LTMuduo

/-- The functors in the queue of the loop. -/
inductive Deferred
  | sendInLoop (payload : List Byte)
  | shutdownInLoop
  | other
  deriving DecidableEq

namespace Deferred

def payload : Deferred → List Byte
  | .sendInLoop payload => payload
  | _ => []

def isSend : Deferred → Bool
  | .sendInLoop _ => true
  | _ => false

end Deferred

/-- Where the calling thread stands. -/
inductive CallerStage
  /-- between two calls -/
  | calls (rest : List (List Byte))
  /-- in `send`, which has found `kConnected` -/
  | sends (payload : List Byte) (rest : List (List Byte))
  /-- in `shutdown`, which has found `kConnected` -/
  | shutsDown
  /-- in `shutdown`, which has stored `kDisconnecting` -/
  | stored
  | done

namespace CallerStage

/-- The payloads that have not been handed to the loop. -/
def unsent : CallerStage → List (List Byte)
  | .calls rest => rest
  | .sends payload rest => payload :: rest
  | _ => []

def hasStored : CallerStage → Bool
  | .stored => true
  | .done => true
  | _ => false

end CallerStage

/-- Where the loop thread stands: in a batch of events, `drained` if it is about to test `state_` in `handleWrite`, or in a batch of functors. -/
inductive LoopStage
  | events (drained : Bool)
  | functors (batch : List Deferred)

structure CrossThread (C : Type*) where
  world : Conn C
  loop : EventLoop Deferred
  stage : LoopStage
  caller : CallerStage

inductive CrossStep
  | handleWrite (r : WriteResult)
  | testState
  | handleRead (r : ReadvResult)
  | swapFunctors
  | runFunctor (r : WriteResult)
  | functorsDone
  | callerLoads
  | callerStores
  | callerQueues
  | otherQueues

namespace CrossThread

variable {C : Type*} (c : C) (s : CrossThread C)

def batch : List Deferred :=
  match s.stage with
  | .functors batch => batch
  | .events _ => []

/-- The functors that have not been run, in their order. -/
def queue : List Deferred := s.batch ++ s.loop.pendingFunctors

def runDeferred (r : WriteResult) : Deferred → Conn C
  | .sendInLoop payload => s.world.sendInLoop c payload r
  | .shutdownInLoop => s.world.shutdownInLoop
  | .other => s.world

def step : CrossStep → Option (CrossThread C)
  | .handleWrite r =>
    match s.stage with
    | .events false =>
      let result := s.world.handleWriteDrain c r
      some { s with world := result.1, stage := .events result.2 }
    | _ => none
  | .testState =>
    match s.stage with
    | .events true => some { s with world := s.world.handleWriteFinish, stage := .events false }
    | _ => none
  | .handleRead r =>
    match s.stage with
    | .events false => some { s with world := (s.world.handleRead c r).1 }
    | _ => none
  | .swapFunctors =>
    match s.stage with
    | .events false =>
      some { s with loop := s.loop.swapFunctors.1, stage := .functors s.loop.swapFunctors.2 }
    | _ => none
  | .runFunctor r =>
    match s.stage with
    | .functors (f :: rest) =>
      some { s with world := s.runDeferred c r f, stage := .functors rest }
    | _ => none
  | .functorsDone =>
    match s.stage with
    | .functors [] => some { s with stage := .events false }
    | _ => none
  | .callerLoads =>
    match s.caller with
    | .calls (payload :: rest) =>
      if s.world.conn.state = .kConnected then some { s with caller := .sends payload rest }
      else some { s with caller := .calls rest }
    | .calls [] =>
      if s.world.conn.state = .kConnected then some { s with caller := .shutsDown }
      else some { s with caller := .done }
    | _ => none
  | .callerStores =>
    match s.caller with
    | .shutsDown =>
      some { s with world := s.world.setState .kDisconnecting, caller := .stored }
    | _ => none
  | .callerQueues =>
    match s.caller with
    | .sends payload rest =>
      some { s with loop := s.loop.queueInLoop false (.sendInLoop payload), caller := .calls rest }
    | .stored =>
      some { s with loop := s.loop.queueInLoop false .shutdownInLoop, caller := .done }
    | _ => none
  | .otherQueues => some { s with loop := s.loop.queueInLoop false .other }

/-- A connection in the state `kConnected` as the calling thread may find it. -/
structure Open (w : Conn C) : Prop where
  connected : w.conn.state = .kConnected
  coupled : w.Coupled
  notClosed : ¬ w.HalfClosed

/-- Every state `kConnected` that a connection reaches on its loop thread is such a state. -/
theorem Open.of_loopThread {c : C} {s s' : LoopThread C} {calls : List (LoopCall C)}
    (hfresh : s.Fresh) (hrun : (LoopThread.machine c).run s calls = some s')
    (hconnected : s'.world.conn.state = .kConnected) : Open s'.world := by
  have hclosing := LoopThread.run_closing hfresh hrun
  refine ⟨hconnected, hclosing.settled.coupled ?_, hclosing.not_halfClosed (Or.inr hconnected)⟩
  rw [hconnected]
  decide

def machine (start : Conn C) (payloads : List (List Byte)) : Machine (CrossThread C) CrossStep where
  init s := Open start ∧ s = ⟨start, .new, .events false, .calls payloads⟩
  step := step c

/-- The peer does not close, and while the write side is open a `::write` fails with `EWOULDBLOCK` only. -/
def environment : CrossStep → Bool
  | .handleWrite r => s.world.effects.contains .shutdownWrite || r.isHealthy
  | .runFunctor r => s.world.effects.contains .shutdownWrite || r.isHealthy
  | .handleRead r => !(s.world.handleRead c r).2
  | _ => true

/-- `handleWrite` does not find `kDisconnecting` with a `sendInLoop` in the queue. -/
def testsAfterSends : CrossStep → Bool
  | .testState => s.world.conn.state ≠ .kDisconnecting || !s.queue.any Deferred.isSend
  | _ => true

/-- The half-close comes behind all the bytes, and no `::write` comes behind the half-close. -/
def SendsFirst (start : Conn C) (payloads : List (List Byte)) : Prop :=
  (s.world.HalfClosed → s.world.wire = start.wire ++ start.pending ++ payloads.flatten) ∧
    s.world.effects.After .shutdownWrite fun f => ¬ f.IsWrite

/-! ### What a step does -/

inductive Moves : CrossStep → CrossThread C → Prop
  | handleWrite (r : WriteResult) (hstage : s.stage = .events false) :
      Moves (.handleWrite r)
        { s with
          world := (s.world.handleWriteDrain c r).1
          stage := .events (s.world.handleWriteDrain c r).2 }
  | testState (hstage : s.stage = .events true) :
      Moves .testState { s with world := s.world.handleWriteFinish, stage := .events false }
  | handleRead (r : ReadvResult) (hstage : s.stage = .events false) :
      Moves (.handleRead r) { s with world := (s.world.handleRead c r).1 }
  | swapFunctors (hstage : s.stage = .events false) :
      Moves .swapFunctors
        { s with loop := s.loop.swapFunctors.1, stage := .functors s.loop.pendingFunctors }
  | runFunctor (r : WriteResult) (f : Deferred) (rest : List Deferred)
      (hstage : s.stage = .functors (f :: rest)) :
      Moves (.runFunctor r) { s with world := s.runDeferred c r f, stage := .functors rest }
  | functorsDone (hstage : s.stage = .functors []) :
      Moves .functorsDone { s with stage := .events false }
  | loadsSend (payload : List Byte) (rest : List (List Byte))
      (hcaller : s.caller = .calls (payload :: rest)) (hstate : s.world.conn.state = .kConnected) :
      Moves .callerLoads { s with caller := .sends payload rest }
  | skipsSend (payload : List Byte) (rest : List (List Byte))
      (hcaller : s.caller = .calls (payload :: rest)) (hstate : s.world.conn.state ≠ .kConnected) :
      Moves .callerLoads { s with caller := .calls rest }
  | loadsShutdown (hcaller : s.caller = .calls []) (hstate : s.world.conn.state = .kConnected) :
      Moves .callerLoads { s with caller := .shutsDown }
  | skipsShutdown (hcaller : s.caller = .calls []) (hstate : s.world.conn.state ≠ .kConnected) :
      Moves .callerLoads { s with caller := .done }
  | callerStores (hcaller : s.caller = .shutsDown) :
      Moves .callerStores { s with world := s.world.setState .kDisconnecting, caller := .stored }
  | queuesSend (payload : List Byte) (rest : List (List Byte))
      (hcaller : s.caller = .sends payload rest) :
      Moves .callerQueues
        { s with loop := s.loop.queueInLoop false (.sendInLoop payload), caller := .calls rest }
  | queuesShutdown (hcaller : s.caller = .stored) :
      Moves .callerQueues
        { s with loop := s.loop.queueInLoop false .shutdownInLoop, caller := .done }
  | otherQueues : Moves .otherQueues { s with loop := s.loop.queueInLoop false .other }

theorem queue_queueInLoop (f : Deferred) (caller : CallerStage) :
    ({ s with loop := s.loop.queueInLoop false f, caller := caller } : CrossThread C).queue =
      s.queue ++ [f] :=
  (List.append_assoc _ _ _).symm

variable {c} {s} {s' : CrossThread C} {a : CrossStep}

theorem step_moves (h : s.step c a = some s') : s.Moves c a s' := by
  cases a with
  | otherQueues =>
    cases h
    exact .otherQueues
  | callerLoads =>
    unfold step at h
    dsimp only at h
    split at h
    · split at h
      · cases h
        exact .loadsSend _ _ ‹_› ‹_›
      · cases h
        exact .skipsSend _ _ ‹_› ‹_›
    · split at h
      · cases h
        exact .loadsShutdown ‹_› ‹_›
      · cases h
        exact .skipsShutdown ‹_› ‹_›
    · cases h
  | callerQueues =>
    unfold step at h
    dsimp only at h
    split at h
    · cases h
      exact .queuesSend _ _ ‹_›
    · cases h
      exact .queuesShutdown ‹_›
    · cases h
  | _ =>
    unfold step at h
    dsimp only at h
    split at h
    · cases h
      constructor
      assumption
    · cases h

end CrossThread

end LTMuduo
