import LTMuduo.EventLoop.Code
import LTMuduo.Lib.Machine
import Mathlib.Logic.Function.Basic

/-!
# The threads of an event loop

The loop thread runs `EventLoop::loop`, possibly several times, and any other threads call `queueInLoop`, `runInLoop`, `quit` and `wakeup`. A step of the machine is one access to the shared fields, so a run is an interleaving. The callbacks of channels and the bodies of functors are user code: they make calls of their own on the loop thread. For another thread `runInLoop` is `queueInLoop`; on the loop thread it calls its functor at once, and what the functor does are further calls.

`LoopPc` says where the loop thread stands. A functor in the queue carries the thread that posted it, the number of its call and the number of times `loop` had been entered at its push.
-/

namespace LTMuduo

/-- A functor with its origin. The poster `none` is the loop thread. -/
structure Posted (T F : Type*) where
  functor : F
  poster : Option T
  call : Nat
  era : Nat
  deriving DecidableEq

/-- Where the loop thread stands. -/
inductive LoopPc (T F : Type*)
  /-- before `loop` is called or after it has returned -/
  | outside
  /-- `looping_` is set, `quit_` is not reset yet -/
  | entered
  | test
  /-- about to block in `poll` -/
  | poll
  /-- in the events that `poll` has returned; `woken` if the eventfd is among them and still to be read -/
  | dispatch (woken : Bool)
  /-- `callingPendingFunctors_` is set, about to swap -/
  | swap
  /-- at the head of the loop over the functors of the batch -/
  | functors (rest : List (Posted T F))
  /-- inside of the body of a functor -/
  | body (rest : List (Posted T F))
  deriving DecidableEq

/-- What of a call of `queueInLoop` or `quit` a thread has still to do. -/
inductive CallStage
  | idle
  | pushed (call : Nat)
  | quitStored
  deriving DecidableEq

/-- The loop and its threads. `published` is `loop_ != nullptr` in `EventLoopThread`; the last five fields are history. -/
structure Threads (T F : Type*) where
  loop : EventLoop (Posted T F)
  pc : LoopPc T F
  stage : Option T → CallStage
  published : Bool
  entries : Nat
  pushed : List (Posted T F)
  executed : List (Posted T F)
  quitStored : Bool
  quitReturned : Bool

/-- The first steps of the calls that a thread can make. -/
inductive UserCall (F : Type*)
  | queueInLoop (cb : F)
  | quit
  | wakeup

inductive ThreadStep (T F : Type*)
  | publish
  | enterLoop
  | resetQuit
  | testQuit
  | pollReturns (woken : Bool)
  | handleRead
  | beginPendingFunctors
  | swapFunctors
  | runFunctor
  | functorReturns
  | endPendingFunctors
  | call (t : Option T) (c : UserCall F)
  | finishCall (t : Option T)

namespace LoopPc

variable {T F : Type*}

/-- The functors of the batch that have not been called yet. -/
def rest : LoopPc T F → List (Posted T F)
  | .functors rest => rest
  | .body rest => rest
  | _ => []

/-- User code is running on the loop thread. -/
def InUserCode : LoopPc T F → Prop
  | .outside => True
  | .dispatch _ => True
  | .body _ => True
  | _ => False

instance : (pc : LoopPc T F) → Decidable pc.InUserCode
  | .outside => .isTrue trivial
  | .entered => .isFalse id
  | .test => .isFalse id
  | .poll => .isFalse id
  | .dispatch _ => .isTrue trivial
  | .swap => .isFalse id
  | .functors _ => .isFalse id
  | .body _ => .isTrue trivial

end LoopPc

namespace Threads

variable {T F : Type*} [DecidableEq T]

def start : Threads T F where
  loop := .new
  pc := .outside
  stage := fun _ => .idle
  published := false
  entries := 0
  pushed := []
  executed := []
  quitStored := false
  quitReturned := false

variable (s : Threads T F)

/-- The functor of the next push of a thread. -/
def nextPosted (t : Option T) (cb : F) : Posted T F :=
  { functor := cb, poster := t, call := s.pushed.length, era := s.entries }

def setStage (t : Option T) (stage : CallStage) : Threads T F :=
  { s with stage := Function.update s.stage t stage }

def call (t : Option T) : UserCall F → Threads T F
  | .queueInLoop cb =>
    let s' := s.setStage t (.pushed s.pushed.length)
    { s' with
      loop := s.loop.pushFunctor (s.nextPosted t cb)
      pushed := s.pushed ++ [s.nextPosted t cb] }
  | .quit =>
    let s' := s.setStage t .quitStored
    { s' with loop := s.loop.storeQuit, quitStored := s.quitStored || t.isSome }
  | .wakeup => { s with loop := s.loop.wakeup }

def finishCall (t : Option T) : Option (Threads T F) :=
  match s.stage t with
  | .idle => none
  | .pushed _ => some { s.setStage t .idle with loop := s.loop.wakeAfterPush t.isNone }
  | .quitStored =>
    some { s.setStage t .idle with
      loop := s.loop.wakeAfterQuit t.isNone
      quitReturned := s.quitReturned || t.isSome }

/-- The steps of `loop` and `doPendingFunctors` themselves. -/
def loopStep : ThreadStep T F → Option (Threads T F)
  | .publish =>
    match s.pc with
    | .outside => some { s with published := true }
    | _ => none
  | .enterLoop =>
    match s.pc with
    | .outside =>
      some { s with loop := s.loop.startLooping, pc := .entered, entries := s.entries + 1 }
    | _ => none
  | .resetQuit =>
    match s.pc with
    | .entered => some { s with loop := s.loop.resetQuit, pc := .test }
    | _ => none
  | .testQuit =>
    match s.pc with
    | .test =>
      if s.loop.quit then some { s with loop := s.loop.stopLooping, pc := .outside }
      else some { s with pc := .poll }
    | _ => none
  | .pollReturns woken =>
    match s.pc with
    | .poll => if woken → 0 < s.loop.wakeupFd then some { s with pc := .dispatch woken } else none
    | _ => none
  | .handleRead =>
    match s.pc with
    | .dispatch true => some { s with loop := s.loop.handleRead, pc := .dispatch false }
    | _ => none
  | .beginPendingFunctors =>
    match s.pc with
    | .dispatch false => some { s with loop := s.loop.beginPendingFunctors, pc := .swap }
    | _ => none
  | .swapFunctors =>
    match s.pc with
    | .swap => some { s with loop := s.loop.swapFunctors.1, pc := .functors s.loop.swapFunctors.2 }
    | _ => none
  | .runFunctor =>
    match s.pc with
    | .functors (f :: rest) => some { s with pc := .body rest, executed := s.executed ++ [f] }
    | _ => none
  | .functorReturns =>
    match s.pc with
    | .body rest => some { s with pc := .functors rest }
    | _ => none
  | .endPendingFunctors =>
    match s.pc with
    | .functors [] => some { s with loop := s.loop.endPendingFunctors, pc := .test }
    | _ => none
  | _ => none

/-- A thread makes one call at a time; the loop thread makes its calls from user code and goes on when they have returned. -/
def step : ThreadStep T F → Option (Threads T F)
  | .call t c =>
    if s.stage t = .idle ∧ (t = none → s.pc.InUserCode) then some (s.call t c) else none
  | .finishCall t => s.finishCall t
  | a => if s.stage none = .idle then s.loopStep a else none

def machine : Machine (Threads T F) (ThreadStep T F) where
  init s := s = start
  step := step

/-! ### What a step does -/

/-- The steps, each with the place where the loop thread has to stand for it. -/
inductive Moves : ThreadStep T F → Threads T F → Prop
  | publish (hpc : s.pc = .outside) : Moves .publish { s with published := true }
  | enterLoop (hown : s.stage none = .idle) (hpc : s.pc = .outside) :
      Moves .enterLoop
        { s with loop := s.loop.startLooping, pc := .entered, entries := s.entries + 1 }
  | resetQuit (hpc : s.pc = .entered) :
      Moves .resetQuit { s with loop := s.loop.resetQuit, pc := .test }
  | leaveLoop (hpc : s.pc = .test) (hquit : s.loop.quit = true) :
      Moves .testQuit { s with loop := s.loop.stopLooping, pc := .outside }
  | stayInLoop (hpc : s.pc = .test) (hquit : s.loop.quit = false) :
      Moves .testQuit { s with pc := .poll }
  | pollReturns (woken : Bool) (hpc : s.pc = .poll) :
      Moves (.pollReturns woken) { s with pc := .dispatch woken }
  | handleRead (hpc : s.pc = .dispatch true) :
      Moves .handleRead { s with loop := s.loop.handleRead, pc := .dispatch false }
  | beginPendingFunctors (hown : s.stage none = .idle) (hpc : s.pc = .dispatch false) :
      Moves .beginPendingFunctors { s with loop := s.loop.beginPendingFunctors, pc := .swap }
  | swapFunctors (hpc : s.pc = .swap) :
      Moves .swapFunctors
        { s with loop := s.loop.swapFunctors.1, pc := .functors s.loop.pendingFunctors }
  | runFunctor (f : Posted T F) (rest : List (Posted T F)) (hpc : s.pc = .functors (f :: rest)) :
      Moves .runFunctor { s with pc := .body rest, executed := s.executed ++ [f] }
  | functorReturns (rest : List (Posted T F)) (hown : s.stage none = .idle)
      (hpc : s.pc = .body rest) : Moves .functorReturns { s with pc := .functors rest }
  | endPendingFunctors (hpc : s.pc = .functors []) :
      Moves .endPendingFunctors { s with loop := s.loop.endPendingFunctors, pc := .test }
  | call (t : Option T) (c : UserCall F) (hidle : s.stage t = .idle)
      (huser : t = none → s.pc.InUserCode) : Moves (.call t c) (s.call t c)
  | finishPush (t : Option T) (n : Nat) (hstage : s.stage t = .pushed n) :
      Moves (.finishCall t) { s.setStage t .idle with loop := s.loop.wakeAfterPush t.isNone }
  | finishQuit (t : Option T) (hstage : s.stage t = .quitStored) :
      Moves (.finishCall t)
        { s.setStage t .idle with
          loop := s.loop.wakeAfterQuit t.isNone
          quitReturned := s.quitReturned || t.isSome }

variable {s} {s' : Threads T F} {a : ThreadStep T F}

theorem loopStep_moves (hown : s.stage none = .idle) (h : s.loopStep a = some s') :
    s.Moves a s' := by
  cases a with
  | call t c => cases h
  | finishCall t => cases h
  | testQuit =>
    unfold loopStep at h
    dsimp only at h
    split at h
    · rename_i hpc
      split at h
      · rename_i hquit
        cases h
        exact .leaveLoop hpc hquit
      · rename_i hquit
        cases h
        exact .stayInLoop hpc (by simpa using hquit)
    · cases h
  | pollReturns woken =>
    unfold loopStep at h
    dsimp only at h
    split at h
    · rename_i hpc
      obtain ⟨_, hsome⟩ := Option.ite_none_right_eq_some.mp h
      cases hsome
      exact .pollReturns woken hpc
    · cases h
  | _ =>
    unfold loopStep at h
    dsimp only at h
    split at h
    · rename_i hpc
      cases h
      constructor <;> assumption
    · cases h

theorem step_moves (h : s.step a = some s') : s.Moves a s' := by
  cases a with
  | call t c =>
    obtain ⟨⟨hidle, huser⟩, hsome⟩ := Option.ite_none_right_eq_some.mp h
    cases hsome
    exact .call t c hidle huser
  | finishCall t =>
    change s.finishCall t = some s' at h
    unfold finishCall at h
    split at h
    · cases h
    · rename_i n hstage
      cases h
      exact .finishPush t n hstage
    · rename_i hstage
      cases h
      exact .finishQuit t hstage
  | _ =>
    obtain ⟨hown, hsome⟩ := Option.ite_none_right_eq_some.mp h
    exact loopStep_moves hown hsome

end Threads

end LTMuduo
