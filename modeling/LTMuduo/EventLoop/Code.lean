import Mathlib.Data.List.Basic

/-!
# `EventLoop`

The fields of `EventLoop` that its threads share, and the steps of its functions on them. A function that other threads can interrupt is cut where they can see it: `queueInLoop` into the push under the mutex and the test that may wake the loop, `quit` into the store and the test, `loop` and `doPendingFunctors` into the accesses to the shared fields. `F` is the type of functors. The poller and the channels are not a part of this model.
-/

namespace LTMuduo

/-- `wakeupFd` is the counter of the eventfd. -/
structure EventLoop (F : Type*) where
  looping : Bool
  quit : Bool
  callingPendingFunctors : Bool
  wakeupFd : Nat
  pendingFunctors : List F

namespace EventLoop

variable {F : Type*} (loop : EventLoop F)

def new : EventLoop F where
  looping := false
  quit := false
  callingPendingFunctors := false
  wakeupFd := 0
  pendingFunctors := []

def wakeup : EventLoop F := { loop with wakeupFd := loop.wakeupFd + 1 }

/-- Reads the eventfd, which resets it. -/
def handleRead : EventLoop F := { loop with wakeupFd := 0 }

/-- The critical section of `queueInLoop`. -/
def pushFunctor (cb : F) : EventLoop F :=
  { loop with pendingFunctors := loop.pendingFunctors ++ [cb] }

/-- The rest of `queueInLoop`. -/
def wakeAfterPush (isInLoopThread : Bool) : EventLoop F :=
  if !isInLoopThread || loop.callingPendingFunctors then loop.wakeup else loop

def queueInLoop (isInLoopThread : Bool) (cb : F) : EventLoop F :=
  (loop.pushFunctor cb).wakeAfterPush isInLoopThread

theorem queueInLoop_pendingFunctors (isInLoopThread : Bool) (cb : F) :
    (loop.queueInLoop isInLoopThread cb).pendingFunctors = loop.pendingFunctors ++ [cb] := by
  unfold queueInLoop wakeAfterPush
  split <;> rfl

/-- The store of `quit`. -/
def storeQuit : EventLoop F := { loop with quit := true }

/-- The rest of `quit`. -/
def wakeAfterQuit (isInLoopThread : Bool) : EventLoop F :=
  if !isInLoopThread then loop.wakeup else loop

/-- The first and the second store of `loop`, and its last one. -/
def startLooping : EventLoop F := { loop with looping := true }

def resetQuit : EventLoop F := { loop with quit := false }

def stopLooping : EventLoop F := { loop with looping := false }

/-- `doPendingFunctors` up to its critical section, the critical section, and its end. -/
def beginPendingFunctors : EventLoop F := { loop with callingPendingFunctors := true }

def swapFunctors : EventLoop F × List F :=
  ({ loop with pendingFunctors := [] }, loop.pendingFunctors)

def endPendingFunctors : EventLoop F := { loop with callingPendingFunctors := false }

end EventLoop

end LTMuduo
