import LTMuduo.Lib.Machine

/-!
# The end of an `EventLoopThread`

The owner calls `startLoop` and later the destructor, and the new thread runs `threadFunc`. A step is one access to `loop_`, one lock or unlock of `mutex_`, the start or the end of the `EventLoop` on the stack of `threadFunc`, or the end of the members. There is one `EventLoop`, so the value of `loop_` is whether it is null.

The destructor reads `loop_` twice without the mutex, and joins only if it finds a pointer. Its three windows are those of `outsideWindows`.
-/

namespace LTMuduo

/-- The next step of `threadFunc`. -/
inductive FuncPc
  /-- the thread has not been started -/
  | unstarted
  | constructing
  | locking
  | publishing
  | unlocking
  /-- about to reset `quit_` in `loop` -/
  | entering
  | looping
  | leaving
  | clearing
  | releasing
  /-- the `EventLoop` is about to end -/
  | destroying
  | ended
  deriving DecidableEq

/-- The next step of the owner. -/
inductive OwnerPc
  | outside
  /-- in `startLoop` -/
  | locking
  | checking
  | reading
  | unlocking
  | returned
  /-- in the destructor -/
  | testing
  | rereading
  | quitting (pointer : Bool)
  | waking
  | joining
  | ending
  | done
  deriving DecidableEq

inductive MutexOwner
  | owner
  | threadFunc
  deriving DecidableEq

/-- `thread_`. -/
inductive ThreadState
  | notStarted
  | started
  | joined
  | detached
  deriving DecidableEq

/-- `loop` is `loop_ != nullptr`; `alive` is the `EventLoop`, and `quit` its `quit_`. -/
structure EventLoopThread where
  loop : Bool
  exiting : Bool
  thread : ThreadState
  mutex : Option MutexOwner
  alive : Bool
  quit : Bool
  func : FuncPc
  owner : OwnerPc

inductive EventLoopThreadStep
  | startLoop
  | destroy
  | owner
  | threadFunc
  /-- code in the loop calls `quit` -/
  | quit
  deriving DecidableEq

namespace FuncPc

/-- The place of a step in `threadFunc`. -/
def rank : FuncPc → Nat
  | .unstarted => 0
  | .constructing => 1
  | .locking => 2
  | .publishing => 3
  | .unlocking => 4
  | .entering => 5
  | .looping => 6
  | .leaving => 7
  | .clearing => 8
  | .releasing => 9
  | .destroying => 10
  | .ended => 11

/-- The step is one on `loop_` or `mutex_`. -/
def touches : FuncPc → Bool
  | .locking => true
  | .publishing => true
  | .unlocking => true
  | .leaving => true
  | .clearing => true
  | .releasing => true
  | _ => false

end FuncPc

/-- `startLoop` has returned. -/
def OwnerPc.launched : OwnerPc → Bool
  | .outside => false
  | .locking => false
  | .checking => false
  | .reading => false
  | .unlocking => false
  | _ => true

namespace EventLoopThread

def start : EventLoopThread where
  loop := false
  exiting := false
  thread := .notStarted
  mutex := none
  alive := false
  quit := false
  func := .unstarted
  owner := .outside

variable (s : EventLoopThread)

/-- The next step of `startLoop` or of the destructor. -/
def ownerStep : Option EventLoopThread :=
  match s.owner with
  | .locking =>
    match s.mutex with
    | none => some { s with mutex := some .owner, owner := .checking }
    | some _ => none
  | .checking =>
    if s.loop then some { s with owner := .reading }
    -- `cond_.wait` releases the mutex, and takes it again before the next check
    else some { s with mutex := none, owner := .locking }
  | .reading => some { s with owner := .unlocking }
  | .unlocking => some { s with mutex := none, owner := .returned }
  | .testing =>
    if s.loop then some { s with owner := .rereading } else some { s with owner := .ending }
  | .rereading => some { s with owner := .quitting s.loop }
  | .quitting pointer => some { s with quit := s.quit || pointer, owner := .waking }
  | .waking => some { s with owner := .joining }
  | .joining =>
    match s.func with
    | .ended => some { s with thread := .joined, owner := .ending }
    | _ => none
  | .ending =>
    let thread := match s.thread with
      | .started => .detached
      | thread => thread
    some { s with thread := thread, owner := .done }
  | _ => none

def funcStep : Option EventLoopThread :=
  match s.func with
  | .constructing => some { s with alive := true, func := .locking }
  | .locking =>
    match s.mutex with
    | none => some { s with mutex := some .threadFunc, func := .publishing }
    | some _ => none
  | .publishing => some { s with loop := true, func := .unlocking }
  | .unlocking => some { s with mutex := none, func := .entering }
  | .entering => some { s with quit := false, func := .looping }
  | .looping => if s.quit then some { s with func := .leaving } else some s
  | .leaving =>
    match s.mutex with
    | none => some { s with mutex := some .threadFunc, func := .clearing }
    | some _ => none
  | .clearing => some { s with loop := false, func := .releasing }
  | .releasing => some { s with mutex := none, func := .destroying }
  | .destroying => some { s with alive := false, func := .ended }
  | _ => none

def step : EventLoopThreadStep → Option EventLoopThread
  | .startLoop =>
    match s.owner with
    | .outside =>
      some { s with thread := .started, func := .constructing, owner := .locking }
    | _ => none
  | .destroy =>
    match s.owner with
    | .outside => some { s with exiting := true, owner := .testing }
    | .returned => some { s with exiting := true, owner := .testing }
    | _ => none
  | .owner => s.ownerStep
  | .threadFunc => s.funcStep
  | .quit =>
    match s.func with
    | .looping => if s.owner.launched then some { s with quit := true } else none
    | _ => none

def machine : Machine EventLoopThread EventLoopThreadStep where
  init s := s = start
  step := step

/-- The `quit` of the destructor is called on an `EventLoop` that lives, and `threadFunc` leaves the members alone once they are gone. -/
structure Safe (s : EventLoopThread) (a : EventLoopThreadStep) (_ : EventLoopThread) : Prop where
  quits : a = .owner → ∀ pointer, s.owner = .quitting pointer → pointer = true ∧ s.alive = true
  touches : a = .threadFunc → s.func.touches = true → s.owner ≠ .done

/-- `threadFunc` does not clear `loop_` between the two reads of the destructor, and does not end its `EventLoop` between the second read and the `quit`; the members do not end while `threadFunc` has still to unlock. -/
def outsideWindows : EventLoopThreadStep → Bool
  | .threadFunc =>
    match s.func, s.owner with
    | .clearing, .rereading => false
    | .destroying, .quitting _ => false
    | _, _ => true
  | .owner =>
    match s.owner, s.func with
    | .ending, .releasing => false
    | _, _ => true
  | _ => true

end EventLoopThread

/-! ### The invariant -/

namespace OwnerPc

/-- How far `threadFunc` has come, for each step of the owner. -/
def Fits : OwnerPc → Nat → Prop
  | .outside, r => r = 0
  | .locking, r => 1 ≤ r
  | .checking, r => 1 ≤ r
  | .testing, r => r = 0 ∨ 4 ≤ r
  | .ending, r => r = 0 ∨ 9 ≤ r
  | .done, r => r = 0 ∨ 9 ≤ r
  | _, r => 4 ≤ r

/-- What the windows spoil. -/
def Good : OwnerPc → Nat → Prop
  | .rereading, r => r ≤ 8
  | .quitting pointer, r => pointer = true ∧ r ≤ 10
  | .done, r => r ≠ 9
  | _, _ => True

theorem Fits.mono {pc : OwnerPc} {r r' : Nat} (h : pc.Fits r) (hr : 1 ≤ r) (hle : r ≤ r') :
    pc.Fits r' := by
  cases pc <;> simp only [Fits] at h ⊢ <;> omega

end OwnerPc

theorem FuncPc.eq_of_rank {p q : FuncPc} (h : p.rank = q.rank) : p = q := by
  cases p <;> cases q <;> first | rfl | cases h

namespace EventLoopThread

structure Sound (s : EventLoopThread) : Prop where
  loop : s.loop = true ↔ 4 ≤ s.func.rank ∧ s.func.rank ≤ 8
  alive : s.alive = true ↔ 2 ≤ s.func.rank ∧ s.func.rank ≤ 10
  owner : s.owner.Fits s.func.rank

def Good (s : EventLoopThread) : Prop := s.owner.Good s.func.rank

theorem start_sound : start.Sound := ⟨by decide, by decide, rfl⟩

variable {s s' : EventLoopThread} {a : EventLoopThreadStep}

theorem startLoop_spec (hstep : s.step .startLoop = some s') :
    s.owner = .outside ∧
      s' = { s with thread := .started, func := .constructing, owner := .locking } := by
  unfold step at hstep
  dsimp only at hstep
  split at hstep
  · rename_i hpc
    cases hstep
    exact ⟨hpc, rfl⟩
  · cases hstep

theorem destroy_spec (hstep : s.step .destroy = some s') :
    (s.owner = .outside ∨ s.owner = .returned) ∧
      s' = { s with exiting := true, owner := .testing } := by
  unfold step at hstep
  dsimp only at hstep
  split at hstep
  · rename_i hpc
    cases hstep
    exact ⟨Or.inl hpc, rfl⟩
  · rename_i hpc
    cases hstep
    exact ⟨Or.inr hpc, rfl⟩
  · cases hstep

theorem quit_spec (hstep : s.step .quit = some s') :
    s.func = .looping ∧ s.owner.launched = true ∧ s' = { s with quit := true } := by
  unfold step at hstep
  dsimp only at hstep
  split at hstep
  · rename_i hfunc
    obtain ⟨hlaunched, hstep⟩ := Option.ite_none_right_eq_some.mp hstep
    cases hstep
    exact ⟨hfunc, hlaunched, rfl⟩
  · cases hstep

theorem funcStep_spec (h : s.Sound) (hstep : s.funcStep = some s') :
    s'.owner = s.owner ∧ 1 ≤ s.func.rank ∧
      (s'.func.rank = s.func.rank + 1 ∨ s'.func.rank = s.func.rank ∧ s.func = .looping) ∧
      (s'.loop = true ↔ 4 ≤ s'.func.rank ∧ s'.func.rank ≤ 8) ∧
      (s'.alive = true ↔ 2 ≤ s'.func.rank ∧ s'.func.rank ≤ 10) := by
  have hloop := h.loop
  have halive := h.alive
  unfold funcStep at hstep
  cases hfunc : s.func <;> rw [hfunc] at hstep hloop halive <;> dsimp only at hstep
  case unstarted => cases hstep
  case ended => cases hstep
  case locking | leaving =>
    split at hstep
    · cases hstep
      simp_all [FuncPc.rank]
    · cases hstep
  case looping =>
    split at hstep <;> cases hstep <;> simp_all [FuncPc.rank]
  all_goals
    cases hstep
    simp_all [FuncPc.rank]

theorem ownerStep_spec (h : s.Sound) (hstep : s.ownerStep = some s') :
    s'.func = s.func ∧ s'.loop = s.loop ∧ s'.alive = s.alive ∧ s'.owner.Fits s.func.rank := by
  have hloop := h.loop
  have howner := h.owner
  unfold ownerStep at hstep
  cases hpc : s.owner <;> rw [hpc] at hstep howner <;> dsimp only at hstep
  case outside | returned | done => cases hstep
  case locking =>
    split at hstep
    · cases hstep
      exact ⟨rfl, rfl, rfl, howner⟩
    · cases hstep
  case checking =>
    split at hstep
    · rename_i hset
      cases hstep
      exact ⟨rfl, rfl, rfl, (hloop.mp hset).1⟩
    · cases hstep
      exact ⟨rfl, rfl, rfl, howner⟩
  case testing =>
    split at hstep
    · rename_i hset
      cases hstep
      exact ⟨rfl, rfl, rfl, (hloop.mp hset).1⟩
    · rename_i hnull
      cases hstep
      refine ⟨rfl, rfl, rfl, ?_⟩
      rw [hloop] at hnull
      simp only [OwnerPc.Fits] at howner ⊢
      omega
  case joining =>
    split at hstep
    · rename_i hended
      cases hstep
      refine ⟨rfl, rfl, rfl, ?_⟩
      change s.func.rank = 0 ∨ 9 ≤ s.func.rank
      rw [hended]
      decide
    · cases hstep
  all_goals
    cases hstep
    exact ⟨rfl, rfl, rfl, howner⟩

theorem Sound.step (h : s.Sound) (hstep : s.step a = some s') : s'.Sound := by
  cases a with
  | startLoop =>
    obtain ⟨hpc, rfl⟩ := startLoop_spec hstep
    have howner := h.owner
    rw [hpc] at howner
    have hrank : s.func.rank = 0 := howner
    refine ⟨?_, ?_, Nat.le_refl 1⟩
    · change s.loop = true ↔ 4 ≤ 1 ∧ 1 ≤ 8
      rw [h.loop, hrank]
      decide
    · change s.alive = true ↔ 2 ≤ 1 ∧ 1 ≤ 10
      rw [h.alive, hrank]
      decide
  | destroy =>
    obtain ⟨hpc, rfl⟩ := destroy_spec hstep
    have howner := h.owner
    refine ⟨h.loop, h.alive, ?_⟩
    rcases hpc with hpc | hpc <;> rw [hpc] at howner
    · exact Or.inl howner
    · exact Or.inr howner
  | owner =>
    obtain ⟨hfunc, hloop, halive, howner⟩ := ownerStep_spec h hstep
    rw [← hfunc] at howner
    refine ⟨?_, ?_, howner⟩
    · rw [hloop, hfunc]
      exact h.loop
    · rw [halive, hfunc]
      exact h.alive
  | threadFunc =>
    obtain ⟨howner, hpos, hrank, hloop, halive⟩ := funcStep_spec h hstep
    refine ⟨hloop, halive, ?_⟩
    rw [howner]
    exact h.owner.mono hpos (by omega)
  | quit =>
    obtain ⟨_, _, rfl⟩ := quit_spec hstep
    exact ⟨h.loop, h.alive, h.owner⟩

/-! ### The windows -/

theorem outsideWindows_eq_false (h : s.outsideWindows a = false) :
    (a = .threadFunc ∧ s.func = .clearing ∧ s.owner = .rereading) ∨
      (a = .threadFunc ∧ s.func = .destroying ∧ ∃ pointer, s.owner = .quitting pointer) ∨
      (a = .owner ∧ s.owner = .ending ∧ s.func = .releasing) := by
  unfold outsideWindows at h
  split at h
  · split at h
    · rename_i hfunc howner
      exact Or.inl ⟨rfl, hfunc, howner⟩
    · rename_i hfunc howner
      exact Or.inr (Or.inl ⟨rfl, hfunc, _, howner⟩)
    · cases h
  · split at h
    · rename_i howner hfunc
      exact Or.inr (Or.inr ⟨rfl, howner, hfunc⟩)
    · cases h
  · cases h

theorem Good.safe (h : s.Sound) (hgood : s.Good) : Safe s a s' := by
  have howner := h.owner
  unfold Good at hgood
  constructor
  · intro _ pointer hpc
    rw [hpc] at hgood howner
    obtain ⟨hpointer, hlast⟩ := hgood
    have hfirst : 4 ≤ s.func.rank := howner
    exact ⟨hpointer, h.alive.mpr ⟨by omega, hlast⟩⟩
  · intro _ htouches hpc
    rw [hpc] at hgood howner
    cases hfunc : s.func <;> rw [hfunc] at hgood howner htouches <;>
      simp_all [OwnerPc.Fits, OwnerPc.Good, FuncPc.rank, FuncPc.touches]

theorem Good.ownerStep (h : s.Sound) (hgood : s.Good) (hguard : s.outsideWindows .owner = true)
    (hstep : s.ownerStep = some s') : s'.Good := by
  have howner := h.owner
  have hloop := h.loop
  unfold Good at hgood ⊢
  unfold EventLoopThread.ownerStep at hstep
  unfold outsideWindows at hguard
  cases hpc : s.owner <;> rw [hpc] at hstep howner hgood hguard <;> dsimp only at hstep
  case outside | returned | done => cases hstep
  case locking =>
    split at hstep <;> cases hstep
    trivial
  case checking =>
    split at hstep <;> cases hstep <;> trivial
  case testing =>
    split at hstep
    · rename_i hset
      cases hstep
      exact (hloop.mp hset).2
    · cases hstep
      trivial
  case rereading =>
    have hlast : s.func.rank ≤ 8 := hgood
    have hset : s.loop = true := hloop.mpr ⟨howner, hlast⟩
    cases hstep
    exact ⟨hset, Nat.le_trans hlast (by decide)⟩
  case joining =>
    split at hstep <;> cases hstep
    trivial
  case ending =>
    cases hstep
    intro hrank
    rw [FuncPc.eq_of_rank (q := .releasing) hrank] at hguard
    cases hguard
  all_goals
    cases hstep
    trivial

theorem Good.step (h : s.Sound) (hgood : s.Good) (hguard : s.outsideWindows a = true)
    (hstep : s.step a = some s') : s'.Good := by
  cases a with
  | startLoop =>
    obtain ⟨_, rfl⟩ := startLoop_spec hstep
    trivial
  | destroy =>
    obtain ⟨_, rfl⟩ := destroy_spec hstep
    trivial
  | owner => exact hgood.ownerStep h hguard hstep
  | threadFunc =>
    obtain ⟨hsame, hpos, hrank, _, _⟩ := funcStep_spec h hstep
    have howner := h.owner
    unfold Good at hgood ⊢
    unfold outsideWindows at hguard
    rw [hsame]
    cases hpc : s.owner <;> rw [hpc] at hgood howner hguard <;> try trivial
    case rereading =>
      have hnot : s.func.rank ≠ 8 := by
        intro heq
        rw [FuncPc.eq_of_rank (q := .clearing) heq] at hguard
        cases hguard
      have hlast : s.func.rank ≤ 8 := hgood
      change s'.func.rank ≤ 8
      omega
    case quitting pointer =>
      have hnot : s.func.rank ≠ 10 := by
        intro heq
        rw [FuncPc.eq_of_rank (q := .destroying) heq] at hguard
        cases hguard
      obtain ⟨hpointer, hlast⟩ := hgood
      refine ⟨hpointer, ?_⟩
      omega
    case done =>
      have hnot : s.func.rank ≠ 9 := hgood
      have hfits : s.func.rank = 0 ∨ 9 ≤ s.func.rank := howner
      change s'.func.rank ≠ 9
      omega
  | quit =>
    obtain ⟨_, _, rfl⟩ := quit_spec hstep
    exact hgood

theorem outsideWindows_lost (hguard : s.outsideWindows a = false) (hstep : s.step a = some s') :
    ¬ s'.Good := by
  obtain ⟨rfl, hfunc, howner⟩ | ⟨rfl, hfunc, pointer, howner⟩ | ⟨rfl, howner, hfunc⟩ :=
    outsideWindows_eq_false hguard
  · change s.funcStep = some s' at hstep
    rw [funcStep, hfunc] at hstep
    cases hstep
    unfold Good
    rw [howner]
    exact Nat.not_succ_le_self 8
  · change s.funcStep = some s' at hstep
    rw [funcStep, hfunc] at hstep
    cases hstep
    unfold Good
    rw [howner]
    exact fun hgood => Nat.not_succ_le_self 10 hgood.2
  · change s.ownerStep = some s' at hstep
    rw [ownerStep, howner] at hstep
    cases hstep
    unfold Good
    rw [hfunc]
    exact fun hgood => hgood rfl

/-- What is spoilt stays so until `quit` is called wrongly or `threadFunc` unlocks too late. -/
theorem Good.back (h : s.Sound) (hstep : s.step a = some s') (hsafe : Safe s a s')
    (hgood : s'.Good) : s.Good := by
  have howner := h.owner
  cases a with
  | startLoop =>
    unfold Good
    rw [(startLoop_spec hstep).1]
    trivial
  | destroy =>
    unfold Good
    rcases (destroy_spec hstep).1 with hpc | hpc <;> rw [hpc] <;> trivial
  | owner =>
    have hquits := hsafe.quits rfl
    unfold Good
    cases hpc : s.owner <;> rw [hpc] at howner hquits <;> try trivial
    case rereading =>
      change s.ownerStep = some s' at hstep
      rw [EventLoopThread.ownerStep, hpc] at hstep
      cases hstep
      exact (h.loop.mp hgood.1).2
    case quitting pointer =>
      obtain ⟨hpointer, halive⟩ := hquits pointer rfl
      exact ⟨hpointer, (h.alive.mp halive).2⟩
    case done =>
      change s.ownerStep = some s' at hstep
      rw [EventLoopThread.ownerStep, hpc] at hstep
      cases hstep
  | threadFunc =>
    obtain ⟨hsame, hpos, hrank, _, _⟩ := funcStep_spec h hstep
    have htouches := hsafe.touches rfl
    unfold Good at hgood ⊢
    rw [hsame] at hgood
    cases hpc : s.owner <;> rw [hpc] at howner hgood htouches <;> try trivial
    case rereading =>
      have hlast : s'.func.rank ≤ 8 := hgood
      change s.func.rank ≤ 8
      omega
    case quitting pointer =>
      obtain ⟨hpointer, hlast⟩ := hgood
      refine ⟨hpointer, ?_⟩
      omega
    case done =>
      intro heq
      rw [FuncPc.eq_of_rank (q := .releasing) heq] at htouches
      exact htouches rfl rfl
  | quit =>
    obtain ⟨_, _, rfl⟩ := quit_spec hstep
    exact hgood

/-- The destructor and `threadFunc`, if it was started, have ended. -/
structure Over (s : EventLoopThread) : Prop where
  owner : s.owner = .done
  func : s.func = .unstarted ∨ s.func = .ended

theorem Over.good (h : s.Over) : s.Good := by
  unfold Good
  rw [h.owner]
  rcases h.func with hfunc | hfunc <;> rw [hfunc] <;> intro heq <;> cases heq

/-! ### The end of the thread -/

/-- Outside its windows the destructor is safe, and a run that passes through one of them and ends is not. The windows are about the call of `quit`; its `wakeup` on an `EventLoop` that ends meanwhile is not among them. -/
theorem shutdown_safe_iff {as : List EventLoopThreadStep} (hrun : machine.run start as = some s') :
    ((machine.restrict fun s a => s.outsideWindows a = true).run start as = some s' →
        machine.EveryStep Safe start as) ∧
      (s'.Over → machine.EveryStep Safe start as →
        (machine.restrict fun s a => s.outsideWindows a = true).run start as = some s') := by
  constructor
  · intro hrestrict
    refine Machine.everyStep_of_restrict (I := fun s => s.Sound ∧ s.Good) ?_
      ⟨start_sound, trivial⟩ hrestrict
    intro s a s' hI hguard hstep
    exact ⟨hI.2.safe hI.1, hI.1.step hstep, hI.2.step hI.1 hguard hstep⟩
  · intro hover hall
    apply Machine.restrict_of_everyStep (I := Sound) (L := fun s => ¬ s.Good) _ _ _ start_sound
      (fun hlost => hlost hover.good) hrun hall
    · intro s a s' hI hstep
      exact hI.step hstep
    · intro s a s' _ hguard hstep
      exact outsideWindows_lost (by simpa using hguard) hstep
    · intro s a s' hI hlost hsafe hstep hgood
      exact hlost (Good.back hI hstep hsafe hgood)

/-- The destructor ends the loop and waits for its thread. -/
def orderly : List EventLoopThreadStep :=
  [.startLoop, .threadFunc, .threadFunc, .threadFunc, .threadFunc, .owner, .owner, .owner, .owner,
    .threadFunc, .destroy, .owner, .owner, .owner, .owner, .threadFunc, .threadFunc, .threadFunc,
    .threadFunc, .threadFunc, .owner, .owner]

theorem shutdown_safe_iff_orderly :
    ∃ s' : EventLoopThread,
      machine.run start orderly = some s' ∧ s'.Over ∧
      ((machine.restrict fun s a => s.outsideWindows a = true).run start orderly = some s' →
        machine.EveryStep Safe start orderly) ∧
      (s'.Over → machine.EveryStep Safe start orderly →
        (machine.restrict fun s a => s.outsideWindows a = true).run start orderly = some s') := by
  have hend : (machine.run start orderly).map (fun s => (s.owner, s.func)) =
      some (.done, .ended) := by decide +kernel
  obtain ⟨s', hrun, hs'⟩ := Option.map_eq_some_iff.mp hend
  obtain ⟨howner, hfunc⟩ := Prod.mk.inj hs'
  exact ⟨s', hrun, ⟨howner, Or.inr hfunc⟩, shutdown_safe_iff hrun⟩

/-- The loop is ended by its own code, and `threadFunc` clears `loop_` between the two reads. -/
theorem quit_called_on_null :
    ¬ ∀ (s' : EventLoopThread) (as : List EventLoopThreadStep), machine.run start as = some s' →
      machine.EveryStep Safe start as := by
  intro hclaim
  let steps : List EventLoopThreadStep :=
    [.startLoop, .threadFunc, .threadFunc, .threadFunc, .threadFunc, .owner, .owner, .owner,
      .owner, .threadFunc, .quit, .threadFunc, .threadFunc, .destroy, .owner, .threadFunc, .owner]
  have hend : (machine.run start steps).map
      (fun t => (t.owner, (machine.step t .owner).isSome)) = some (.quitting false, true) := by
    decide +kernel
  obtain ⟨t, hrun, ht⟩ := Option.map_eq_some_iff.mp hend
  obtain ⟨hquitting, hstep⟩ := Prod.mk.inj ht
  obtain ⟨t', hstep⟩ := Option.isSome_iff_exists.mp hstep
  have hall : machine.run start (steps ++ [.owner]) = some t' :=
    Machine.run_concat hrun hstep
  have hsafe := (hclaim t' _ hall).step hrun hstep
  exact Bool.false_ne_true (hsafe.quits rfl false hquitting).1

end EventLoopThread

end LTMuduo
