import LTMuduo.Connection.Code
import LTMuduo.Lib.Machine

/-!
# The strong references to one connection

A connection lives as long as somebody holds a `TcpConnectionPtr` to it: `connections_`, the user threads, the functors that carry one, and the functions that have one in a local variable. A functor is destroyed with the batch it was swapped into, and that is at the end of `doPendingFunctors`. `send` and `shutdown` bind the raw `this`, so the functors of `sendInLoop` and `shutdownInLoop` hold nothing.

The machine follows one connection on its io loop and the base loop, which are the same loop in a server without io threads, and any number of user threads that are not the loop thread of the connection. Functors that have nothing to do with the connection are `other`. `established` and `destroyed` say that `connectEstablished` and `connectDestroyed` have run; in between epoll can report events of the connection.
-/

namespace LTMuduo

/-- The functors in the queues of the two loops. `callback` is a functor of the user or of `send` that binds a `TcpConnectionPtr`. -/
inductive ConnFunctor
  | connectEstablished
  | removeConnectionInLoop
  | connectDestroyed
  | callback
  | sendInLoop
  | shutdownInLoop
  | other
  deriving DecidableEq

namespace ConnFunctor

/-- The functor binds a `TcpConnectionPtr`. -/
def holds : ConnFunctor → Bool
  | .connectEstablished => true
  | .removeConnectionInLoop => true
  | .connectDestroyed => true
  | .callback => true
  | _ => false

/-- The functor binds the raw `this`. -/
def isRaw : ConnFunctor → Bool
  | .sendInLoop => true
  | .shutdownInLoop => true
  | _ => false

/-- The functor is only posted to the loop of the connection. -/
def isOwn (f : ConnFunctor) : Bool := f.isRaw || f == .connectDestroyed

end ConnFunctor

/-- What of the connection a loop thread is in. -/
inductive ConnFrame
  | idle
  /-- in `handleEvent`, with its guard -/
  | event
  /-- in `handleClose` inside of that, with `connPtr` -/
  | closing
  /-- in `removeConnectionInLoop`, behind the `erase`; `called` by `handleClose`, or a functor -/
  | removing (called : Bool)
  deriving DecidableEq

/-- A local variable holds a reference. -/
def ConnFrame.holds : ConnFrame → Bool
  | .event => true
  | .closing => true
  | .removing called => called
  | .idle => false

/-- The functors of a loop: `pendingFunctors_`, the local vector of `doPendingFunctors`, and those of it that have not been called. -/
structure LoopRefs where
  pending : List ConnFunctor
  functors : List ConnFunctor
  rest : List ConnFunctor
  frame : ConnFrame

inductive OwnerLoop
  | base
  | io
  deriving DecidableEq

/-- Where a user thread stands in a call of `send` or `shutdown`. -/
inductive UserStage
  | idle
  | sendLoaded
  | shutdownLoaded
  | shutdownStored
  deriving DecidableEq

/-- `entry` is the entry of `connections_`, and `copies` has a thread for each copy that it holds. -/
structure Refs (T : Type*) where
  state : StateE
  entry : Bool
  copies : List T
  stage : T → UserStage
  loops : OwnerLoop → LoopRefs
  established : Bool
  destroyed : Bool

inductive RefStep (T : Type*)
  | acquire (t : T)
  | release (t : T)
  | loadSend (t : T)
  | loadShutdown (t : T)
  | storeShutdown (t : T)
  | queueRaw (t : T)
  | queueCallback
  | handleEvent
  | handleClose
  | closeCallback
  | eventReturns
  | resume (l : OwnerLoop)
  | swapFunctors (l : OwnerLoop)
  | runFunctor (l : OwnerLoop)
  | endFunctors (l : OwnerLoop)
  | queueOther (l : OwnerLoop)

def LoopRefs.Refers (x : LoopRefs) : Prop :=
  (∃ f ∈ x.pending ++ x.functors, f.holds = true) ∨ x.frame.holds = true

instance (x : LoopRefs) : Decidable x.Refers := inferInstanceAs (Decidable (_ ∨ _))

def LoopRefs.new (pending : List ConnFunctor) : LoopRefs := ⟨pending, [], [], .idle⟩

/-- The loop of the connection. `single` is a server without io threads. -/
def ioLoop (single : Bool) : OwnerLoop := if single then .base else .io

namespace Refs

section

variable {T : Type*} (single : Bool) (s : Refs T)

/-- There is a strong reference. -/
def Referenced : Prop :=
  s.entry = true ∨ s.copies ≠ [] ∨ (s.loops .base).Refers ∨ (s.loops .io).Refers

instance : Decidable s.Referenced := inferInstanceAs (Decidable (_ ∨ _ ∨ _ ∨ _))

def setLoop (l : OwnerLoop) (x : LoopRefs) : Refs T :=
  { s with loops := Function.update s.loops l x }

def setFrame (l : OwnerLoop) (frame : ConnFrame) : Refs T :=
  s.setLoop l { s.loops l with frame := frame }

def queueInLoop (l : OwnerLoop) (f : ConnFunctor) : Refs T :=
  s.setLoop l { s.loops l with pending := (s.loops l).pending ++ [f] }

/-- The raw functors that have not been called. -/
def raw : List ConnFunctor :=
  ((s.loops (ioLoop single)).rest ++ (s.loops (ioLoop single)).pending).filter ConnFunctor.isRaw

/-- A functor called on loop thread `l`. -/
def call (l : OwnerLoop) : ConnFunctor → Refs T
  | .connectEstablished => { s with state := .kConnected, established := true }
  | .removeConnectionInLoop => { s with entry := false }.setFrame l (.removing false)
  | .connectDestroyed =>
    { s with
      state := if s.state = .kConnected then .kDisconnected else s.state
      destroyed := true }
  | _ => s

/-- What `newConnection` leaves: an entry, and `connectEstablished` called or on its way. -/
def start : Refs T where
  state := if single then .kConnected else .kConnecting
  entry := true
  copies := []
  stage := fun _ => .idle
  loops := fun l => .new (if l = .io ∧ single = false then [.connectEstablished] else [])
  established := single
  destroyed := false

/-- A step that calls a raw functor has a reference to its connection. -/
def Alive (s : Refs T) (a : RefStep T) (_ : Refs T) : Prop :=
  ∀ l f rest, a = .runFunctor l → (s.loops l).rest = f :: rest → f.isRaw = true → s.Referenced

end

section

variable {T : Type*} [DecidableEq T] (single : Bool) (s : Refs T)

def setStage (t : T) (stage : UserStage) : Refs T :=
  { s with stage := Function.update s.stage t stage }

/-- A functor is called in one step: `sendInLoop` and `shutdownInLoop` run from their call to their end, so the drop of a last copy in the middle of one is no step. -/
def step : RefStep T → Option (Refs T)
  | .acquire t => if s.Referenced then some { s with copies := t :: s.copies } else none
  | .release t =>
    if t ∈ s.copies ∧ s.stage t = .idle then some { s with copies := s.copies.erase t } else none
  | .loadSend t =>
    if t ∈ s.copies ∧ s.stage t = .idle then
      if s.state = .kConnected then some (s.setStage t .sendLoaded) else some s
    else none
  | .loadShutdown t =>
    if t ∈ s.copies ∧ s.stage t = .idle then
      if s.state = .kConnected then some (s.setStage t .shutdownLoaded) else some s
    else none
  | .storeShutdown t =>
    match s.stage t with
    | .shutdownLoaded => some { s.setStage t .shutdownStored with state := .kDisconnecting }
    | _ => none
  | .queueRaw t =>
    match s.stage t with
    | .sendLoaded => some ((s.setStage t .idle).queueInLoop (ioLoop single) .sendInLoop)
    | .shutdownStored => some ((s.setStage t .idle).queueInLoop (ioLoop single) .shutdownInLoop)
    | _ => none
  | .queueCallback =>
    if s.Referenced then some (s.queueInLoop (ioLoop single) .callback) else none
  | .handleEvent =>
    let x := s.loops (ioLoop single)
    -- `tie_.lock()` succeeds
    if s.established ∧ ¬ s.destroyed ∧ x.functors = [] ∧ x.frame = .idle ∧ s.Referenced then
      some (s.setFrame (ioLoop single) .event)
    else none
  | .handleClose =>
    match (s.loops (ioLoop single)).frame with
    | .event => some ({ s with state := .kDisconnected }.setFrame (ioLoop single) .closing)
    | _ => none
  | .closeCallback =>
    match (s.loops (ioLoop single)).frame with
    | .closing =>
      if single then some ({ s with entry := false }.setFrame (ioLoop single) (.removing true))
      else some ((s.queueInLoop .base .removeConnectionInLoop).setFrame (ioLoop single) .event)
    | _ => none
  | .eventReturns =>
    match (s.loops (ioLoop single)).frame with
    | .event => some (s.setFrame (ioLoop single) .idle)
    | _ => none
  | .resume l =>
    match (s.loops l).frame with
    | .removing called =>
      let frame := if called then .event else .idle
      some ((s.queueInLoop (ioLoop single) .connectDestroyed).setFrame l frame)
    | _ => none
  | .swapFunctors l =>
    let x := s.loops l
    if x.functors = [] ∧ x.frame = .idle then
      some (s.setLoop l { x with pending := [], functors := x.pending, rest := x.pending })
    else none
  | .runFunctor l =>
    match (s.loops l).rest, (s.loops l).frame with
    | f :: rest, .idle => some ((s.setLoop l { s.loops l with rest := rest }).call l f)
    | _, _ => none
  | .endFunctors l =>
    match (s.loops l).rest, (s.loops l).frame with
    | [], .idle => some (s.setLoop l { s.loops l with functors := [] })
    | _, _ => none
  | .queueOther l => some (s.queueInLoop l .other)

def machine : Machine (Refs T) (RefStep T) where
  init s := s = start single
  step := step single

/-- Neither the drop of a copy nor the end of a batch takes the last reference while a raw functor is left. -/
def keepsReference : RefStep T → Prop
  | .release t => s.raw single ≠ [] → { s with copies := s.copies.erase t }.Referenced
  | .endFunctors l =>
    s.raw single ≠ [] → (s.setLoop l { s.loops l with functors := [] }).Referenced
  | _ => True

instance (a : RefStep T) : Decidable (s.keepsReference single a) := by
  unfold keepsReference
  split <;> infer_instance

/-! ### What a step does -/

/-- The steps. `stays` is a call that finds the connection not connected, and `stages` a load or a store of a call under way. -/
inductive Moves : RefStep T → Refs T → Prop
  | acquire (t : T) (href : s.Referenced) : Moves (.acquire t) { s with copies := t :: s.copies }
  | release (t : T) (hmem : t ∈ s.copies) (hidle : s.stage t = .idle) :
      Moves (.release t) { s with copies := s.copies.erase t }
  | stays (a : RefStep T) (hrun : ∀ l, a ≠ .runFunctor l) : Moves a s
  | stages (a : RefStep T) (t : T) (stage : UserStage) (state : StateE)
      (hmem : t ∈ s.copies ∨ s.stage t ≠ .idle) (hrun : ∀ l, a ≠ .runFunctor l) :
      Moves a { s.setStage t stage with state := state }
  | queueRaw (t : T) (f : ConnFunctor) (hf : f.isRaw = true) (hstage : s.stage t ≠ .idle) :
      Moves (.queueRaw t) ((s.setStage t .idle).queueInLoop (ioLoop single) f)
  | queueCallback (href : s.Referenced) :
      Moves .queueCallback (s.queueInLoop (ioLoop single) .callback)
  | handleEvent (hdestroyed : s.destroyed = false)
      (hframe : (s.loops (ioLoop single)).frame = .idle) (href : s.Referenced) :
      Moves .handleEvent (s.setFrame (ioLoop single) .event)
  | handleClose (hframe : (s.loops (ioLoop single)).frame = .event) :
      Moves .handleClose ({ s with state := .kDisconnected }.setFrame (ioLoop single) .closing)
  | closeCalled (hframe : (s.loops (ioLoop single)).frame = .closing) :
      Moves .closeCallback ({ s with entry := false }.setFrame (ioLoop single) (.removing true))
  | closePosted (hframe : (s.loops (ioLoop single)).frame = .closing) :
      Moves .closeCallback
        ((s.queueInLoop .base .removeConnectionInLoop).setFrame (ioLoop single) .event)
  | eventReturns (hframe : (s.loops (ioLoop single)).frame = .event) :
      Moves .eventReturns (s.setFrame (ioLoop single) .idle)
  | resume (l : OwnerLoop) (called : Bool) (hframe : (s.loops l).frame = .removing called) :
      Moves (.resume l) ((s.queueInLoop (ioLoop single) .connectDestroyed).setFrame l
        (if called then .event else .idle))
  | swapFunctors (l : OwnerLoop) (hfunctors : (s.loops l).functors = [])
      (hframe : (s.loops l).frame = .idle) :
      Moves (.swapFunctors l) (s.setLoop l
        { s.loops l with
          pending := []
          functors := (s.loops l).pending
          rest := (s.loops l).pending })
  | runFunctor (l : OwnerLoop) (f : ConnFunctor) (rest : List ConnFunctor)
      (hrest : (s.loops l).rest = f :: rest) (hframe : (s.loops l).frame = .idle) :
      Moves (.runFunctor l) ((s.setLoop l { s.loops l with rest := rest }).call l f)
  | endFunctors (l : OwnerLoop) (hrest : (s.loops l).rest = [])
      (hframe : (s.loops l).frame = .idle) :
      Moves (.endFunctors l) (s.setLoop l { s.loops l with functors := [] })
  | queueOther (l : OwnerLoop) : Moves (.queueOther l) (s.queueInLoop l .other)

variable {single} {s} {s' : Refs T} {a : RefStep T}

theorem step_moves (h : s.step single a = some s') : s.Moves single a s' := by
  cases a with
  | acquire t =>
    obtain ⟨href, hsome⟩ := Option.ite_none_right_eq_some.mp h
    cases hsome
    exact .acquire t href
  | release t =>
    obtain ⟨⟨hmem, hidle⟩, hsome⟩ := Option.ite_none_right_eq_some.mp h
    cases hsome
    exact .release t hmem hidle
  | loadSend t =>
    obtain ⟨⟨hmem, _⟩, hsome⟩ := Option.ite_none_right_eq_some.mp h
    split at hsome
    · cases hsome
      exact .stages _ t .sendLoaded s.state (Or.inl hmem) (by simp)
    · cases hsome
      exact .stays _ (by simp)
  | loadShutdown t =>
    obtain ⟨⟨hmem, _⟩, hsome⟩ := Option.ite_none_right_eq_some.mp h
    split at hsome
    · cases hsome
      exact .stages _ t .shutdownLoaded s.state (Or.inl hmem) (by simp)
    · cases hsome
      exact .stays _ (by simp)
  | storeShutdown t =>
    unfold step at h
    dsimp only at h
    split at h
    · rename_i hstage
      cases h
      exact .stages _ t _ _ (Or.inr (by simp [hstage])) (by simp)
    · cases h
  | queueRaw t =>
    unfold step at h
    dsimp only at h
    split at h
    · rename_i hstage
      cases h
      exact .queueRaw t _ rfl (by simp [hstage])
    · rename_i hstage
      cases h
      exact .queueRaw t _ rfl (by simp [hstage])
    · cases h
  | queueCallback =>
    obtain ⟨href, hsome⟩ := Option.ite_none_right_eq_some.mp h
    cases hsome
    exact .queueCallback href
  | handleEvent =>
    obtain ⟨⟨_, hdestroyed, _, hframe, href⟩, hsome⟩ := Option.ite_none_right_eq_some.mp h
    cases hsome
    exact .handleEvent (by simpa using hdestroyed) hframe href
  | handleClose =>
    unfold step at h
    dsimp only at h
    split at h
    · cases h
      exact .handleClose ‹_›
    · cases h
  | closeCallback =>
    unfold step at h
    dsimp only at h
    split at h
    · rename_i hframe
      split at h
      · cases h
        exact .closeCalled hframe
      · cases h
        exact .closePosted hframe
    · cases h
  | eventReturns =>
    unfold step at h
    dsimp only at h
    split at h
    · cases h
      exact .eventReturns ‹_›
    · cases h
  | resume l =>
    unfold step at h
    dsimp only at h
    split at h
    · cases h
      exact .resume l _ ‹_›
    · cases h
  | swapFunctors l =>
    obtain ⟨⟨hfunctors, hframe⟩, hsome⟩ := Option.ite_none_right_eq_some.mp h
    cases hsome
    exact .swapFunctors l hfunctors hframe
  | runFunctor l =>
    unfold step at h
    dsimp only at h
    split at h
    · cases h
      exact .runFunctor l _ _ ‹_› ‹_›
    · cases h
  | endFunctors l =>
    unfold step at h
    dsimp only at h
    split at h
    · cases h
      exact .endFunctors l ‹_› ‹_›
    · cases h
  | queueOther l =>
    cases h
    exact .queueOther l

end

/-! ### References -/

section

variable {T : Type*} {single : Bool} {s s' : Refs T}

@[simp] theorem setLoop_self (l : OwnerLoop) (x : LoopRefs) : (s.setLoop l x).loops l = x :=
  Function.update_self _ _ _

theorem setLoop_of_ne {l k : OwnerLoop} (h : k ≠ l) (x : LoopRefs) :
    (s.setLoop l x).loops k = s.loops k := Function.update_of_ne h _ _

@[simp] theorem pending_setFrame (l k : OwnerLoop) (frame : ConnFrame) :
    ((s.setFrame l frame).loops k).pending = (s.loops k).pending := by
  by_cases hkl : k = l
  · subst hkl
    rw [setFrame, setLoop_self]
  · rw [setFrame, setLoop_of_ne hkl]

@[simp] theorem frame_queueInLoop (l k : OwnerLoop) (f : ConnFunctor) :
    ((s.queueInLoop l f).loops k).frame = (s.loops k).frame := by
  by_cases hkl : k = l
  · subst hkl
    rw [queueInLoop, setLoop_self]
  · rw [queueInLoop, setLoop_of_ne hkl]

theorem referenced_of_loop {l : OwnerLoop} (h : (s.loops l).Refers) : s.Referenced := by
  cases l with
  | base => exact Or.inr (Or.inr (Or.inl h))
  | io => exact Or.inr (Or.inr (Or.inr h))

theorem Referenced.mono (h : s.Referenced) (hentry : s.entry = true → s'.entry = true)
    (hcopies : s.copies ≠ [] → s'.copies ≠ [])
    (hloops : ∀ l, (s.loops l).Refers → (s'.loops l).Refers) : s'.Referenced := by
  rcases h with h | h | h | h
  · exact Or.inl (hentry h)
  · exact Or.inr (Or.inl (hcopies h))
  · exact referenced_of_loop (hloops .base h)
  · exact referenced_of_loop (hloops .io h)

theorem Referenced.setLoop {l : OwnerLoop} {x : LoopRefs} (h : s.Referenced)
    (hrefers : (s.loops l).Refers → x.Refers) : (s.setLoop l x).Referenced := by
  refine h.mono id id fun k hk => ?_
  by_cases hkl : k = l
  · subst hkl
    rw [setLoop_self]
    exact hrefers hk
  · rwa [setLoop_of_ne hkl]

theorem Referenced.of_setLoop {l : OwnerLoop} {x : LoopRefs} (h : (s.setLoop l x).Referenced)
    (hrefers : x.Refers → (s.loops l).Refers) : s.Referenced := by
  refine h.mono id id fun k hk => ?_
  by_cases hkl : k = l
  · subst hkl
    rw [setLoop_self] at hk
    exact hrefers hk
  · rwa [setLoop_of_ne hkl] at hk

theorem refers_of_mem {x : LoopRefs} {f : ConnFunctor} (h : f ∈ x.functors)
    (hf : f.holds = true) : x.Refers := Or.inl ⟨f, List.mem_append_right _ h, hf⟩

theorem refers_push {x : LoopRefs} {f : ConnFunctor} :
    ({ x with pending := x.pending ++ [f] } : LoopRefs).Refers ↔ x.Refers ∨ f.holds = true := by
  simp only [LoopRefs.Refers, List.mem_append, List.mem_singleton]
  constructor
  · intro h
    rcases h with ⟨g, (hg | rfl) | hg, hholds⟩ | h
    · exact Or.inl (Or.inl ⟨g, Or.inl hg, hholds⟩)
    · exact Or.inr hholds
    · exact Or.inl (Or.inl ⟨g, Or.inr hg, hholds⟩)
    · exact Or.inl (Or.inr h)
  · intro h
    rcases h with (⟨g, hg, hholds⟩ | h) | h
    · exact Or.inl ⟨g, hg.imp Or.inl id, hholds⟩
    · exact Or.inr h
    · exact Or.inl ⟨f, Or.inl (Or.inr rfl), h⟩

theorem referenced_queueInLoop {l : OwnerLoop} {f : ConnFunctor} :
    (s.queueInLoop l f).Referenced ↔ s.Referenced ∨ f.holds = true := by
  constructor
  · intro h
    by_cases hf : f.holds = true
    · exact Or.inr hf
    · refine Or.inl (h.of_setLoop fun hx => ?_)
      exact (refers_push.mp hx).resolve_right hf
  · intro h
    rcases h with h | h
    · exact h.setLoop fun hx => refers_push.mpr (Or.inl hx)
    · refine referenced_of_loop (l := l) ?_
      rw [queueInLoop, setLoop_self]
      exact refers_push.mpr (Or.inr h)

/-! ### The invariant -/

/-- Until `connectDestroyed` has run, `connections_` or the close protocol holds the connection. -/
def Underway (single : Bool) (s : Refs T) : Prop :=
  s.entry = true ∨ (∃ l called, (s.loops l).frame = .removing called) ∨
    .connectDestroyed ∈ (s.loops (ioLoop single)).pending ++ (s.loops (ioLoop single)).rest

structure Held (single : Bool) (s : Refs T) : Prop where
  calls : ∀ t, s.stage t ≠ .idle → t ∈ s.copies
  rest : ∀ l, ∀ f ∈ (s.loops l).rest, f ∈ (s.loops l).functors
  removing : ∀ l, (s.loops l).frame = .removing false →
    .removeConnectionInLoop ∈ (s.loops l).functors
  event : ∀ l, (s.loops l).frame.holds = true → l = ioLoop single ∧ s.destroyed = false
  own : ∀ l, ∀ f ∈ (s.loops l).pending ++ (s.loops l).rest, f.isOwn = true → l = ioLoop single
  underway : s.destroyed = false → s.Underway single

theorem Held.rest_nil (h : s.Held single) {l : OwnerLoop} (hfunctors : (s.loops l).functors = []) :
    (s.loops l).rest = [] := by
  rw [List.eq_nil_iff_forall_not_mem]
  intro f hf
  have hmem := h.rest l f hf
  rw [hfunctors] at hmem
  exact List.not_mem_nil hmem

theorem Held.refers_of_removing (h : s.Held single) {l : OwnerLoop} {called : Bool}
    (hframe : (s.loops l).frame = .removing called) : (s.loops l).Refers := by
  cases called with
  | true =>
    right
    rw [hframe]
    rfl
  | false => exact refers_of_mem (h.removing l hframe) rfl

theorem Held.referenced (h : s.Held single) (hdestroyed : s.destroyed = false) :
    s.Referenced := by
  rcases h.underway hdestroyed with hentry | ⟨l, called, hframe⟩ | hmem
  · exact Or.inl hentry
  · exact referenced_of_loop (h.refers_of_removing hframe)
  · refine referenced_of_loop (l := ioLoop single) ?_
    rcases List.mem_append.mp hmem with hmem | hmem
    · exact Or.inl ⟨_, List.mem_append_left _ hmem, rfl⟩
    · exact refers_of_mem (h.rest _ _ hmem) rfl

theorem Held.update (h : s.Held single) {l : OwnerLoop} {x : LoopRefs}
    (hloops : s'.loops = Function.update s.loops l x)
    (hcalls : ∀ t, s'.stage t ≠ .idle → t ∈ s'.copies)
    (hrest : ∀ f ∈ x.rest, f ∈ x.functors)
    (hremoving : x.frame = .removing false → .removeConnectionInLoop ∈ x.functors)
    (hevent : x.frame.holds = true → l = ioLoop single ∧ s'.destroyed = false)
    (hdestroyed : s'.destroyed = true → s.destroyed = true ∨ l = ioLoop single)
    (hown : ∀ f ∈ x.pending ++ x.rest, f.isOwn = true → l = ioLoop single)
    (hunderway : s'.destroyed = false → s'.Underway single) : s'.Held single := by
  have hloop (P : OwnerLoop → LoopRefs → Prop) (hx : P l x) (hold : ∀ k ≠ l, P k (s.loops k))
      (k : OwnerLoop) : P k (s'.loops k) := by
    rw [hloops]
    by_cases hkl : k = l
    · subst hkl
      rwa [Function.update_self]
    · rw [Function.update_of_ne hkl]
      exact hold k hkl
  refine ⟨hcalls, hloop (fun _ y => ∀ f ∈ y.rest, f ∈ y.functors) hrest fun k _ => h.rest k,
    hloop (fun _ y => y.frame = .removing false → .removeConnectionInLoop ∈ y.functors)
      hremoving fun k _ => h.removing k,
    hloop (fun k y => y.frame.holds = true → k = ioLoop single ∧ s'.destroyed = false) hevent ?_,
    hloop (fun k y => ∀ f ∈ y.pending ++ y.rest, f.isOwn = true → k = ioLoop single)
      hown fun k _ => h.own k, hunderway⟩
  intro k hk hholds
  obtain ⟨hio, hopen⟩ := h.event k hholds
  refine ⟨hio, ?_⟩
  cases hnow : s'.destroyed with
  | false => rfl
  | true =>
    rcases hdestroyed hnow with hback | hl
    · rw [hopen] at hback
      cases hback
    · exact absurd (hio.trans hl.symm) hk

theorem Underway.setLoop {l : OwnerLoop} {x : LoopRefs} (h : s.Underway single)
    (hframe : ∀ called, (s.loops l).frame = .removing called → x.frame = .removing called)
    (hmem : .connectDestroyed ∈ (s.loops l).pending ++ (s.loops l).rest →
      .connectDestroyed ∈ x.pending ++ x.rest) : (s.setLoop l x).Underway single := by
  rcases h with h | ⟨k, called, hk⟩ | h
  · exact Or.inl h
  · refine Or.inr (Or.inl ⟨k, called, ?_⟩)
    by_cases hkl : k = l
    · subst hkl
      rw [setLoop_self]
      exact hframe called hk
    · rwa [setLoop_of_ne hkl]
  · refine Or.inr (Or.inr ?_)
    by_cases hkl : ioLoop single = l
    · rw [hkl, setLoop_self]
      rw [hkl] at h
      exact hmem h
    · rwa [setLoop_of_ne hkl]

theorem Held.queueInLoop (h : s.Held single) {l : OwnerLoop} {f : ConnFunctor}
    (hf : f.isOwn = true → l = ioLoop single) : (s.queueInLoop l f).Held single := by
  refine h.update (x := { s.loops l with pending := (s.loops l).pending ++ [f] }) rfl h.calls
    (h.rest l) (h.removing l) (h.event l) Or.inl ?_ ?_
  · intro g hmem
    simp only [List.mem_append, List.mem_singleton] at hmem
    rcases hmem with (hmem | rfl) | hmem
    · exact h.own l g (List.mem_append_left _ hmem)
    · exact hf
    · exact h.own l g (List.mem_append_right _ hmem)
  · intro hdestroyed
    refine (h.underway hdestroyed).setLoop (fun _ => id) fun hmem => ?_
    rcases List.mem_append.mp hmem with hmem | hmem
    · exact List.mem_append_left _ (List.mem_append_left _ hmem)
    · exact List.mem_append_right _ hmem

theorem Held.setFrame (h : s.Held single) {l : OwnerLoop} {frame : ConnFrame}
    (hbefore : ∀ called, (s.loops l).frame ≠ .removing called) (hframe : frame ≠ .removing false)
    (hholds : frame.holds = true → l = ioLoop single ∧ s.destroyed = false) :
    (s.setFrame l frame).Held single := by
  refine h.update (x := { s.loops l with frame := frame }) rfl h.calls (h.rest l)
    (fun hremoving => absurd hremoving hframe) hholds Or.inl (h.own l) ?_
  intro hdestroyed
  exact (h.underway hdestroyed).setLoop (fun called hremoving => absurd hremoving (hbefore called)) id

theorem Held.erase (h : s.Held single) {l : OwnerLoop} {called : Bool}
    (hremoving : called = false → .removeConnectionInLoop ∈ (s.loops l).functors)
    (hholds : called = true → l = ioLoop single ∧ s.destroyed = false) :
    (({ s with entry := false } : Refs T).setFrame l (.removing called)).Held single := by
  refine h.update (x := { s.loops l with frame := .removing called }) rfl h.calls (h.rest l) ?_
    hholds Or.inl (h.own l) ?_
  · intro hframe
    cases hframe
    exact hremoving rfl
  · intro _
    refine Or.inr (Or.inl ⟨l, called, ?_⟩)
    rw [Refs.setFrame, setLoop_self]

end

/-! ### The steps -/

section

variable {T : Type*} [DecidableEq T] {single : Bool} {s s' : Refs T} {a : RefStep T}

omit [DecidableEq T] in
theorem start_held : (start single : Refs T).Held single := by
  refine ⟨fun t ht => absurd rfl ht, nofun, nofun, nofun, ?_, fun _ => Or.inl rfl⟩
  intro l f hmem hown
  simp only [start, LoopRefs.new, List.append_nil] at hmem
  split at hmem
  · rw [List.mem_singleton.mp hmem] at hown
    exact absurd hown (by decide)
  · exact absurd hmem List.not_mem_nil

omit [DecidableEq T] in
theorem Held.call (h : s.Held single) {l : OwnerLoop} {f : ConnFunctor} {rest : List ConnFunctor}
    (hrest : (s.loops l).rest = f :: rest) (hframe : (s.loops l).frame = .idle) :
    ((s.setLoop l { s.loops l with rest := rest }).call l f).Held single := by
  have hfirst : f ∈ (s.loops l).functors := h.rest l f (by rw [hrest]; exact List.mem_cons_self)
  have hothers : ∀ g ∈ rest, g ∈ (s.loops l).functors := by
    intro g hg
    exact h.rest l g (by rw [hrest]; exact List.mem_cons_of_mem _ hg)
  have hown (g) (hmem : g ∈ (s.loops l).pending ++ rest) : g.isOwn = true → l = ioLoop single := by
    apply h.own l
    rw [hrest]
    rcases List.mem_append.mp hmem with hmem | hmem
    · exact List.mem_append_left _ hmem
    · exact List.mem_append_right _ (List.mem_cons_of_mem _ hmem)
  have hidle : (s.loops l).frame.holds = true → False := by
    rw [hframe]
    exact Bool.false_ne_true
  have hpop {s' : Refs T} (hne : f ≠ .connectDestroyed)
      (hloops : s'.loops = (s.setLoop l { s.loops l with rest := rest }).loops)
      (hstage : s'.stage = s.stage) (hcopies : s'.copies = s.copies) (hentry : s'.entry = s.entry)
      (hdestroyed : s'.destroyed = s.destroyed) : s'.Held single := by
    refine h.update (x := { s.loops l with rest := rest }) hloops ?_ hothers (h.removing l)
      (fun hholds => (hidle hholds).elim) ?_ hown ?_
    · rw [hstage, hcopies]
      exact h.calls
    · rw [hdestroyed]
      exact Or.inl
    · intro hopen
      rw [hdestroyed] at hopen
      have hunderway : (s.setLoop l { s.loops l with rest := rest }).Underway single := by
        refine (h.underway hopen).setLoop (fun _ => id) fun hmem => ?_
        rw [hrest] at hmem
        simpa [hne.symm] using hmem
      rw [Underway, hloops, hentry]
      exact hunderway
  cases f with
  | connectEstablished => exact hpop (by decide) rfl rfl rfl rfl rfl
  | removeConnectionInLoop =>
    have hheld : (s.setLoop l { s.loops l with rest := rest }).Held single :=
      hpop (by decide) rfl rfl rfl rfl rfl
    apply hheld.erase
    · intro _
      rw [setLoop_self]
      exact hfirst
    · exact fun hcalled => absurd hcalled (by decide)
  | connectDestroyed =>
    have hio : l = ioLoop single := by
      refine h.own l .connectDestroyed ?_ rfl
      rw [hrest]
      exact List.mem_append_right _ List.mem_cons_self
    refine h.update (x := { s.loops l with rest := rest }) rfl h.calls hothers (h.removing l)
      (fun hholds => (hidle hholds).elim) (fun _ => Or.inr hio) hown ?_
    exact fun hopen => absurd hopen (by simp [Refs.call])
  | callback => exact hpop (by decide) rfl rfl rfl rfl rfl
  | sendInLoop => exact hpop (by decide) rfl rfl rfl rfl rfl
  | shutdownInLoop => exact hpop (by decide) rfl rfl rfl rfl rfl
  | other => exact hpop (by decide) rfl rfl rfl rfl rfl

theorem Held.setStage (h : s.Held single) {t : T} {stage : UserStage}
    (hmem : t ∈ s.copies ∨ s.stage t ≠ .idle) : (s.setStage t stage).Held single := by
  refine ⟨fun u hu => ?_, h.rest, h.removing, h.event, h.own, h.underway⟩
  by_cases hut : u = t
  · subst hut
    exact hmem.elim id (h.calls u)
  · refine h.calls u ?_
    rwa [show (s.setStage t stage).stage u = s.stage u from Function.update_of_ne hut _ _] at hu

theorem Moves.held (h : s.Held single) (hmoves : s.Moves single a s') : s'.Held single := by
  cases hmoves with
  | acquire t =>
    refine ⟨fun u hu => ?_, h.rest, h.removing, h.event, h.own, h.underway⟩
    exact List.mem_cons_of_mem _ (h.calls u hu)
  | release t hmem hidle =>
    refine ⟨fun u hu => ?_, h.rest, h.removing, h.event, h.own, h.underway⟩
    have hne : u ≠ t := by
      intro heq
      subst heq
      exact hu hidle
    exact (List.mem_erase_of_ne hne).mpr (h.calls u hu)
  | stays => exact h
  | stages a t stage state hmem =>
    exact ⟨(h.setStage hmem).calls, h.rest, h.removing, h.event, h.own, h.underway⟩
  | queueRaw t f hf hstage => exact (h.setStage (Or.inr hstage)).queueInLoop fun _ => rfl
  | queueCallback => exact h.queueInLoop fun _ => rfl
  | handleEvent hdestroyed hframe href =>
    exact h.setFrame (by simp [hframe]) (by simp) fun _ => ⟨rfl, hdestroyed⟩
  | handleClose hframe =>
    have hopen := h.event (ioLoop single) (by rw [hframe]; rfl)
    have hclosed : ({ s with state := .kDisconnected } : Refs T).Held single :=
      ⟨h.calls, h.rest, h.removing, h.event, h.own, h.underway⟩
    exact hclosed.setFrame (by simp [hframe]) (by simp) fun _ => hopen
  | closeCalled hframe =>
    have hopen := h.event (ioLoop single) (by rw [hframe]; rfl)
    exact h.erase nofun fun _ => hopen
  | closePosted hframe =>
    have hopen := h.event (ioLoop single) (by rw [hframe]; rfl)
    have hposted : (s.queueInLoop .base .removeConnectionInLoop).Held single :=
      h.queueInLoop nofun
    exact hposted.setFrame (by simp [hframe]) (by simp) fun _ => hopen
  | eventReturns hframe => exact h.setFrame (by simp [hframe]) (by simp) nofun
  | resume l called hframe =>
    have hposted : (s.queueInLoop (ioLoop single) .connectDestroyed).Held single :=
      h.queueInLoop fun _ => rfl
    have hsame : ((s.queueInLoop (ioLoop single) .connectDestroyed).loops l).frame =
        .removing called := by
      rw [frame_queueInLoop]
      exact hframe
    have hevent := hposted.event l
    rw [hsame] at hevent
    refine hposted.update (x := { (s.queueInLoop (ioLoop single) .connectDestroyed).loops l with
      frame := if called then .event else .idle }) rfl h.calls (hposted.rest l) ?_ ?_ Or.inl
      (hposted.own l) ?_
    · cases called <;> exact nofun
    · cases called with
      | true => exact fun _ => hevent rfl
      | false => exact nofun
    · intro _
      refine Or.inr (Or.inr (List.mem_append_left _ ?_))
      rw [pending_setFrame, queueInLoop, setLoop_self]
      exact List.mem_append_right _ List.mem_cons_self
  | swapFunctors l hfunctors hframe =>
    have hrest := h.rest_nil hfunctors
    have hown := h.own l
    rw [hrest, List.append_nil] at hown
    refine h.update (l := l) rfl h.calls (fun _ => id) ?_ (h.event l) Or.inl hown ?_
    · exact fun hremoving => absurd (hframe.symm.trans hremoving) (by decide)
    · intro hdestroyed
      refine (h.underway hdestroyed).setLoop (fun _ => id) ?_
      rw [hrest, List.append_nil]
      exact id
  | runFunctor l f rest hrest hframe => exact h.call hrest hframe
  | endFunctors l hrest hframe =>
    refine h.update (x := { s.loops l with functors := [] }) rfl h.calls ?_ ?_ (h.event l) Or.inl
      (h.own l) ?_
    · rw [hrest]
      exact nofun
    · exact fun hremoving => absurd (hframe.symm.trans hremoving) (by decide)
    · exact fun hdestroyed => (h.underway hdestroyed).setLoop (fun _ => id) id
  | queueOther l => exact h.queueInLoop nofun

/-! ### The raw functors -/

omit [DecidableEq T] in
theorem raw_setLoop {l : OwnerLoop} {x : LoopRefs} (h : (x.rest ++ x.pending).filter ConnFunctor.isRaw =
    ((s.loops l).rest ++ (s.loops l).pending).filter ConnFunctor.isRaw) :
    (s.setLoop l x).raw single = s.raw single := by
  unfold raw
  by_cases hl : ioLoop single = l
  · rw [hl, setLoop_self, h]
  · rw [setLoop_of_ne hl]

omit [DecidableEq T] in
theorem raw_setFrame (l : OwnerLoop) (frame : ConnFrame) :
    (s.setFrame l frame).raw single = s.raw single := raw_setLoop rfl

omit [DecidableEq T] in
theorem raw_endFunctors (l : OwnerLoop) :
    (s.setLoop l { s.loops l with functors := [] }).raw single = s.raw single := raw_setLoop rfl

omit [DecidableEq T] in
theorem raw_queueInLoop {l : OwnerLoop} {f : ConnFunctor} (hf : f.isRaw = false) :
    (s.queueInLoop l f).raw single = s.raw single := by
  apply raw_setLoop
  simp [List.filter_append, hf]

omit [DecidableEq T] in
theorem raw_call {l : OwnerLoop} (f : ConnFunctor) : (s.call l f).raw single = s.raw single := by
  cases f with
  | removeConnectionInLoop => exact raw_setLoop rfl
  | _ => rfl

/-- A raw functor is posted by a thread with a copy, and goes when it is called. -/
theorem Moves.raw (h : s.Held single) (hmoves : s.Moves single a s') :
    s'.raw single = s.raw single ∨
      (s'.raw single ≠ [] ∧ s.copies ≠ [] ∧ s'.copies = s.copies) ∨
      ∃ l f rest, a = .runFunctor l ∧ (s.loops l).rest = f :: rest ∧ f.isRaw = true ∧
        s.raw single = f :: s'.raw single := by
  cases hmoves with
  | acquire | release | stays | stages => exact Or.inl rfl
  | queueRaw t f hf hstage =>
    refine Or.inr (Or.inl ⟨?_, List.ne_nil_of_mem (h.calls t hstage), rfl⟩)
    apply List.ne_nil_of_mem (a := f)
    rw [Refs.raw, queueInLoop, setLoop_self, List.mem_filter]
    exact ⟨List.mem_append_right _ (List.mem_append_right _ List.mem_cons_self), hf⟩
  | queueCallback => exact Or.inl (raw_queueInLoop rfl)
  | handleEvent => exact Or.inl (raw_setFrame _ _)
  | handleClose | closeCalled => exact Or.inl (raw_setFrame _ _)
  | closePosted | resume => exact Or.inl ((raw_setFrame _ _).trans (raw_queueInLoop rfl))
  | eventReturns => exact Or.inl (raw_setFrame _ _)
  | swapFunctors l hfunctors hframe =>
    refine Or.inl (raw_setLoop ?_)
    rw [h.rest_nil hfunctors, List.append_nil, List.nil_append]
  | runFunctor l f rest hrest hframe =>
    rw [raw_call]
    by_cases hraw : ioLoop single = l ∧ f.isRaw = true
    · obtain ⟨hl, hf⟩ := hraw
      refine Or.inr (Or.inr ⟨l, f, rest, rfl, hrest, hf, ?_⟩)
      unfold Refs.raw
      rw [hl, setLoop_self, hrest, List.cons_append, List.filter_cons_of_pos hf]
    · left
      by_cases hl : ioLoop single = l
      · have hf : ¬ f.isRaw = true := fun hf => hraw ⟨hl, hf⟩
        apply raw_setLoop
        rw [hrest, List.cons_append, List.filter_cons_of_neg hf]
      · unfold Refs.raw
        rw [setLoop_of_ne hl]
  | endFunctors l => exact Or.inl (raw_endFunctors l)
  | queueOther => exact Or.inl (raw_queueInLoop rfl)

/-! ### The last reference -/

/-- No step makes a reference out of nothing. -/
theorem Moves.referenced_before (h : s.Held single) (hmoves : s.Moves single a s')
    (href : s'.Referenced) : s.Referenced := by
  have hframe (hholds : (s.loops (ioLoop single)).frame.holds = true) : s.Referenced :=
    referenced_of_loop (l := ioLoop single) (Or.inr hholds)
  cases hmoves with
  | acquire t hbefore => exact hbefore
  | release t hmem hidle =>
    refine href.mono id (fun hcopies hnone => ?_) fun _ => id
    exact hcopies (by rw [hnone, List.erase_nil])
  | stays => exact href
  | stages => exact href.mono id id fun _ => id
  | queueRaw t f hf hstage => exact Or.inr (Or.inl (List.ne_nil_of_mem (h.calls t hstage)))
  | queueCallback hbefore => exact hbefore
  | handleEvent _ _ hbefore => exact hbefore
  | handleClose hevent => exact hframe (by rw [hevent]; rfl)
  | closeCalled hclosing => exact hframe (by rw [hclosing]; rfl)
  | closePosted hclosing => exact hframe (by rw [hclosing]; rfl)
  | eventReturns hevent => exact hframe (by rw [hevent]; rfl)
  | resume l called hremoving => exact referenced_of_loop (h.refers_of_removing hremoving)
  | swapFunctors l hfunctors _ =>
    refine href.of_setLoop fun hx => ?_
    rcases hx with ⟨f, hf, hholds⟩ | hx
    · exact Or.inl ⟨f, List.mem_append_left _ hf, hholds⟩
    · exact Or.inr hx
  | runFunctor l f rest hrest _ =>
    by_cases hholds : f.holds = true
    · have hfirst : f ∈ (s.loops l).functors := h.rest l f (by rw [hrest]; exact List.mem_cons_self)
      exact referenced_of_loop (refers_of_mem hfirst hholds)
    · have hpop : (s.setLoop l { s.loops l with rest := rest }).Referenced := by
        cases f with
        | sendInLoop | shutdownInLoop | other => exact href
        | _ => exact absurd rfl hholds
      exact hpop.of_setLoop id
  | endFunctors l _ _ =>
    refine href.of_setLoop fun hx => ?_
    rcases hx with ⟨f, hf, hholds⟩ | hx
    · rw [List.append_nil] at hf
      exact Or.inl ⟨f, List.mem_append_left _ hf, hholds⟩
    · exact Or.inr hx
  | queueOther => exact (referenced_queueInLoop.mp href).resolve_right (by decide)

/-- What the condition is about: while a raw functor is left, there is a reference. -/
def Safe (single : Bool) (s : Refs T) : Prop := s.raw single ≠ [] → s.Referenced

/-- Of the steps that give a reference back, only the drop of a copy and the end of a batch can give back the last one. -/
theorem Moves.safe (h : s.Held single) (hsafe : s.Safe single)
    (hguard : s.keepsReference single a) (hmoves : s.Moves single a s') : s'.Safe single := by
  have hheld := hmoves.held h
  have hraw := hmoves.raw h
  intro hleft
  have hopen (hdestroyed : s'.destroyed = false) : s'.Referenced := hheld.referenced hdestroyed
  -- a raw functor that is left now was left before, or its thread has a copy
  have hbefore : s.Referenced ∨ s'.copies ≠ [] := by
    rcases hraw with hsame | ⟨_, hcopies, hsame⟩ | ⟨l, f, rest, _, _, _, hcons⟩
    · exact Or.inl (hsafe (by rwa [hsame] at hleft))
    · exact Or.inr (by rwa [hsame])
    · exact Or.inl (hsafe (by rw [hcons]; exact List.cons_ne_nil _ _))
  rcases hbefore with href | hcopies
  · cases hmoves with
    | acquire => exact Or.inr (Or.inl (List.cons_ne_nil _ _))
    | release => exact hguard hleft
    | stays => exact href
    | stages => exact href.mono id id fun _ => id
    | queueRaw t f hf hstage => exact Or.inr (Or.inl (List.ne_nil_of_mem (h.calls t hstage)))
    | queueCallback => exact referenced_queueInLoop.mpr (Or.inl href)
    | handleEvent hdestroyed => exact hopen hdestroyed
    | handleClose hframe => exact hopen (h.event _ (by rw [hframe]; rfl)).2
    | closeCalled hframe => exact hopen (h.event _ (by rw [hframe]; rfl)).2
    | closePosted hframe => exact hopen (h.event _ (by rw [hframe]; rfl)).2
    | eventReturns hframe => exact hopen (h.event _ (by rw [hframe]; rfl)).2
    | resume l called hframe =>
      refine referenced_of_loop (l := ioLoop single) (Or.inl ⟨.connectDestroyed, ?_, rfl⟩)
      rw [pending_setFrame, queueInLoop, setLoop_self]
      exact List.mem_append_left _ (List.mem_append_right _ List.mem_cons_self)
    | swapFunctors l hfunctors hframe =>
      refine href.setLoop fun hx => ?_
      rcases hx with ⟨f, hf, hholds⟩ | hx
      · rw [hfunctors, List.append_nil] at hf
        exact Or.inl ⟨f, hf, hholds⟩
      · exact Or.inr hx
    | runFunctor l f rest hrest hframe =>
      have hfirst : f ∈ (s.loops l).functors :=
        h.rest l f (by rw [hrest]; exact List.mem_cons_self)
      have hpop : (s.setLoop l { s.loops l with rest := rest }).Referenced := href.setLoop id
      cases f with
      | removeConnectionInLoop =>
        refine referenced_of_loop (l := l) (refers_of_mem (f := .removeConnectionInLoop) ?_ rfl)
        rw [Refs.call, setFrame, setLoop_self]
        exact (congrArg LoopRefs.functors (setLoop_self l _)).symm ▸ hfirst
      | _ => exact hpop.mono id id fun _ => id
    | endFunctors l =>
      rw [raw_endFunctors] at hleft
      exact hguard hleft
    | queueOther => exact referenced_queueInLoop.mpr (Or.inl href)
  · exact Or.inr (Or.inl hcopies)

omit [DecidableEq T] in
theorem Safe.alive (h : s.Held single) (hsafe : s.Safe single) : s.Alive a s' := by
  intro l f rest _ hrest hraw
  have hmem : f ∈ (s.loops l).rest := by
    rw [hrest]
    exact List.mem_cons_self
  have hl : l = ioLoop single := by
    refine h.own l f (List.mem_append_right _ hmem) ?_
    rw [ConnFunctor.isOwn, hraw]
    rfl
  rw [hl] at hmem
  refine hsafe (List.ne_nil_of_mem (a := f) ?_)
  exact List.mem_filter.mpr ⟨List.mem_append_left _ hmem, hraw⟩

/-- A raw functor is left and there is no reference. -/
def Lost (single : Bool) (s : Refs T) : Prop := s.raw single ≠ [] ∧ ¬ s.Referenced

theorem lost_of_not_keepsReference (hguard : ¬ s.keepsReference single a)
    (hstep : s.step single a = some s') : s'.Lost single := by
  cases a with
  | release t =>
    obtain ⟨hleft, hnone⟩ := Classical.not_imp.mp hguard
    obtain ⟨_, hsome⟩ := Option.ite_none_right_eq_some.mp hstep
    cases hsome
    exact ⟨hleft, hnone⟩
  | endFunctors l =>
    obtain ⟨hleft, hnone⟩ := Classical.not_imp.mp hguard
    unfold step at hstep
    dsimp only at hstep
    split at hstep
    · cases hstep
      refine ⟨?_, hnone⟩
      rw [raw_endFunctors]
      exact hleft
    · cases hstep
  | _ => exact absurd trivial hguard

theorem Moves.lost (h : s.Held single) (hlost : s.Lost single) (halive : s.Alive a s')
    (hmoves : s.Moves single a s') : s'.Lost single := by
  obtain ⟨hleft, hnone⟩ := hlost
  refine ⟨?_, fun href => hnone (hmoves.referenced_before h href)⟩
  rcases hmoves.raw h with hsame | ⟨hposted, _⟩ | ⟨l, f, rest, hcalled, hrest, hraw, _⟩
  · rwa [hsame]
  · exact hposted
  · exact absurd (halive l f rest hcalled hrest hraw) hnone

/-! ### The runs -/

end

end Refs

end LTMuduo
