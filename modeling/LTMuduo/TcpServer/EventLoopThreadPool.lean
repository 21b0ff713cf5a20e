import LTMuduo.Lib.RoundRobin
import Mathlib.Data.List.Range

/-!
# `EventLoopThreadPool`

The pool over a type `L` of pointers to loops. `startLoop i` is the pointer that the `EventLoopThread` number `i` returns. An access outside of a vector is undefined and gives `none`, and so does a function that ends without a value.
-/

namespace LTMuduo

/-- An `EventLoopThread` as the pool makes it, with the loop that it has started. -/
structure PoolThread (L : Type*) where
  callback : Bool
  name : List Char
  loop : L

structure EventLoopThreadPool (L : Type*) where
  baseLoop : L
  name : List Char
  started : Bool
  numThreads : Nat
  next : Nat
  threads : List (PoolThread L)
  loops : List L

namespace EventLoopThreadPool

variable {L : Type*}

def new (baseLoop : L) (nameArg : List Char) : EventLoopThreadPool L where
  baseLoop := baseLoop
  name := nameArg
  started := false
  numThreads := 0
  next := 0
  threads := []
  loops := []

section

variable (p : EventLoopThreadPool L)

def setThreadNum (numThreads : Nat) : EventLoopThreadPool L := { p with numThreads := numThreads }

/-- A round of the loop of `start`. The buffer for the name is as long as it has to be. -/
def startThread (cb : Bool) (startLoop : Nat → L) (i : Nat) : EventLoopThreadPool L :=
  { p with
    threads := p.threads ++ [⟨cb, p.name ++ Nat.toDigits 10 i, startLoop i⟩]
    loops := p.loops ++ [startLoop i] }

/-- `cb` says whether there is a callback. -/
def start (cb : Bool) (startLoop : Nat → L) : EventLoopThreadPool L :=
  (List.range p.numThreads).foldl (fun p i => p.startThread cb startLoop i)
    { p with started := true }

/-- The loops that the callback has been called with: by the threads, each on its own loop, and by `start`. -/
def initialized (cb : Bool) : List L :=
  (p.threads.filter (·.callback)).map (·.loop) ++
    if p.numThreads = 0 && cb then [p.baseLoop] else []

def getNextLoop : Option (L × EventLoopThreadPool L) :=
  if p.loops.isEmpty then some (p.baseLoop, p)
  else
    p.loops[p.next]?.map fun loop =>
      (loop, { p with next := if p.loops.length ≤ p.next + 1 then 0 else p.next + 1 })

/-- The second branch has no `return`. -/
def getAllLoops : Option (List L) := if p.loops.isEmpty then some [p.baseLoop] else none

/-- `m` calls of `getNextLoop`. -/
def nextLoops : Nat → EventLoopThreadPool L → Option (List L × EventLoopThreadPool L)
  | 0, p => some ([], p)
  | m + 1, p =>
    p.getNextLoop.bind fun (loop, p) => (nextLoops m p).map fun (loops, p) => (loop :: loops, p)

/-- The loops that connections are given to. -/
def dispatched : List L := if p.loops.isEmpty then [p.baseLoop] else p.loops

def setNext (next : Nat) : EventLoopThreadPool L := { p with next := next }

/-- `next_` is inside of the list. -/
def Sound : Prop := p.next < p.dispatched.length

end

variable {p : EventLoopThreadPool L} {baseLoop : L} {name : List Char} {cb : Bool}
  {startLoop : Nat → L}

theorem Sound.valid (h : p.Sound) (hloops : p.loops ≠ []) : p.next < p.loops.length := by
  rwa [Sound, dispatched, if_neg (by simpa using hloops)] at h

/-! ### The pool after `start` -/

theorem foldl_startThread (p : EventLoopThreadPool L) (n : Nat) :
    (List.range n).foldl (fun p i => p.startThread cb startLoop i) p =
      { p with
        threads := p.threads ++
          (List.range n).map fun i => ⟨cb, p.name ++ Nat.toDigits 10 i, startLoop i⟩
        loops := p.loops ++ (List.range n).map startLoop } := by
  induction n with
  | zero => simp
  | succ n ih =>
    rw [List.range_succ, List.foldl_append, ih]
    simp [startThread]

/-- A pool of `n` threads. -/
def ofThreads (baseLoop : L) (name : List Char) (cb : Bool) (startLoop : Nat → L) (n : Nat) :
    EventLoopThreadPool L :=
  ((new baseLoop name).setThreadNum n).start cb startLoop

theorem ofThreads_eq (n : Nat) :
    ofThreads baseLoop name cb startLoop n =
      { baseLoop, name, started := true, numThreads := n, next := 0
        threads := (List.range n).map fun i => ⟨cb, name ++ Nat.toDigits 10 i, startLoop i⟩
        loops := (List.range n).map startLoop } := by
  rw [ofThreads, start, foldl_startThread]
  rfl

theorem ofThreads_sound (n : Nat) : (ofThreads baseLoop name cb startLoop n).Sound := by
  rw [ofThreads_eq, Sound, dispatched]
  dsimp only
  split
  · exact Nat.one_pos
  · rename_i hloops
    apply List.length_pos_iff.mpr
    simpa using hloops

/-- Each loop that gets connections has been initialized once, and no other. -/
theorem initialized_ofThreads (n : Nat) :
    (ofThreads baseLoop name true startLoop n).initialized true =
      (ofThreads baseLoop name true startLoop n).dispatched := by
  rw [ofThreads_eq, initialized, dispatched]
  cases n with
  | zero => rfl
  | succ n => simp [List.range_succ, List.filter_map, Function.comp_def]

/-! ### The cursor -/

theorem Sound.getNextLoop (h : p.Sound) :
    p.getNextLoop = p.dispatched[p.next]?.map fun loop =>
      (loop, p.setNext (RoundRobin.advance p.dispatched p.next)) := by
  unfold EventLoopThreadPool.getNextLoop
  split
  · rename_i hempty
    have hone : p.dispatched = [p.baseLoop] := if_pos hempty
    have hzero : p.next = 0 := by
      rw [Sound, hone] at h
      exact Nat.lt_one_iff.mp h
    rw [hone, hzero]
    cases p
    cases hzero
    rfl
  · rename_i hloops
    have hsame : p.dispatched = p.loops := if_neg hloops
    rw [hsame]
    rfl

theorem Sound.advance (h : p.Sound) :
    (p.setNext (RoundRobin.advance p.dispatched p.next)).Sound :=
  RoundRobin.advance_lt h

theorem Sound.nextLoops (h : p.Sound) (m : Nat) :
    p.nextLoops m =
      (RoundRobin.picks p.dispatched p.next m).map fun (loops, j) => (loops, p.setNext j) := by
  induction m generalizing p with
  | zero => rfl
  | succ m ih =>
    have hnext := h.advance
    rw [EventLoopThreadPool.nextLoops, h.getNextLoop, RoundRobin.picks]
    cases p.dispatched[p.next]? with
    | none => rfl
    | some loop =>
      rw [Option.map_some, Option.bind_some, Option.bind_some]
      dsimp only
      rw [ih hnext, Option.map_map, Option.map_map]
      rfl

end EventLoopThreadPool

end LTMuduo
