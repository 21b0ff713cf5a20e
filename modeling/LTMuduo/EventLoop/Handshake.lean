import LTMuduo.EventLoop.EventLoopThread
import LTMuduo.Lib.LeadsTo

/-!
# `startLoop` returns, and so does the destructor

An `EventLoopThread` with its condition variable: the owner in `cond_.wait` stays there until `threadFunc` notifies it, or until it wakes up for no reason. The owner tests `loop_` under the mutex and `threadFunc` sets it there, so no notification is lost. In `loop` the thread leaves when it finds `quit_` set; that a `quit` gets it out of `poll` is a matter of the threads of one `EventLoop`. Under a scheduler that is fair to both threads `startLoop` returns with an `EventLoop` that lives. The destructor returns when `loop` has reset `quit_` before it is called; a `quit` that comes earlier is undone by the reset, and nothing ends the loop.
-/

namespace LTMuduo

namespace OwnerPc

/-- The owner has locked `mutex_`. -/
def holds : OwnerPc → Bool
  | .checking => true
  | .reading => true
  | .unlocking => true
  | _ => false

/-- The steps that are left of `startLoop` or of the destructor. -/
def left : OwnerPc → Nat
  | .locking => 4
  | .checking => 3
  | .reading => 2
  | .unlocking => 1
  | .testing => 6
  | .rereading => 5
  | .quitting _ => 4
  | .waking => 3
  | .joining => 2
  | .ending => 1
  | _ => 0

end OwnerPc

/-- `threadFunc` has locked `mutex_`. -/
def FuncPc.holds : FuncPc → Bool
  | .publishing => true
  | .unlocking => true
  | .clearing => true
  | .releasing => true
  | _ => false

theorem FuncPc.rank_le (pc : FuncPc) : pc.rank ≤ 11 := by
  cases pc <;> decide

namespace EventLoopThread

variable {s s' : EventLoopThread} {a : EventLoopThreadStep}

/-- What liveness rests on, besides `Sound`. -/
structure Settled (s : EventLoopThread) : Prop where
  sound : s.Sound
  /-- a mutex that nobody holds is free -/
  free : s.owner.holds = false → s.func.holds = false → s.mutex = none
  /-- before `startLoop` has returned nobody calls `quit`, and the loop goes on -/
  early : s.owner.launched = false → s.quit = false ∧ s.func.rank ≤ 6

theorem start_settled : start.Settled :=
  ⟨start_sound, fun _ _ => rfl, fun _ => ⟨rfl, Nat.zero_le 6⟩⟩

theorem Settled.ownerStep (h : s.Settled) (hstep : s.ownerStep = some s') :
    (s'.owner.holds = false → s'.func.holds = false → s'.mutex = none) ∧
      (s'.owner.launched = false → s'.quit = false ∧ s'.func.rank ≤ 6) := by
  have hfree := h.free
  have hearly := h.early
  unfold EventLoopThread.ownerStep at hstep
  cases hpc : s.owner <;> rw [hpc] at hstep hfree hearly <;> dsimp only at hstep
  case outside | returned | done => cases hstep
  case locking | checking | testing | joining =>
    split at hstep <;> cases hstep <;> simp_all [OwnerPc.holds, OwnerPc.launched]
  all_goals
    cases hstep
    simp_all [OwnerPc.holds, OwnerPc.launched]

theorem Settled.funcStep (h : s.Settled) (hstep : s.funcStep = some s') :
    (s'.owner.holds = false → s'.func.holds = false → s'.mutex = none) ∧
      (s'.owner.launched = false → s'.quit = false ∧ s'.func.rank ≤ 6) := by
  have hfree := h.free
  have hearly := h.early
  unfold EventLoopThread.funcStep at hstep
  cases hpc : s.func <;> rw [hpc] at hstep hfree hearly <;> dsimp only at hstep
  case unstarted | ended => cases hstep
  case locking | leaving | looping =>
    split at hstep <;> cases hstep <;> simp_all [FuncPc.holds, FuncPc.rank]
  all_goals
    cases hstep
    simp_all [FuncPc.holds, FuncPc.rank]

theorem Settled.step (h : s.Settled) (hstep : s.step a = some s') : s'.Settled := by
  have hsound := h.sound.step hstep
  cases a with
  | startLoop =>
    obtain ⟨hpc, rfl⟩ := startLoop_spec hstep
    refine ⟨hsound, fun _ _ => ?_, fun _ => ⟨(h.early (by rw [hpc]; rfl)).1, ?_⟩⟩
    · have howner := h.sound.owner
      rw [hpc] at howner
      refine h.free (by rw [hpc]; rfl) ?_
      rw [FuncPc.eq_of_rank (q := .unstarted) howner]
      rfl
    · change 1 ≤ 6
      decide
  | destroy =>
    obtain ⟨hpc, rfl⟩ := destroy_spec hstep
    refine ⟨hsound, fun _ hfunc => h.free ?_ hfunc, fun hlaunched => by cases hlaunched⟩
    rcases hpc with hpc | hpc <;> rw [hpc] <;> rfl
  | owner =>
    obtain ⟨hfree, hearly⟩ := h.ownerStep hstep
    exact ⟨hsound, hfree, hearly⟩
  | threadFunc =>
    obtain ⟨hfree, hearly⟩ := h.funcStep hstep
    exact ⟨hsound, hfree, hearly⟩
  | quit =>
    obtain ⟨_, hlaunched, rfl⟩ := quit_spec hstep
    refine ⟨hsound, h.free, fun hnot => ?_⟩
    rw [hlaunched] at hnot
    cases hnot

theorem reachable_settled (hreach : machine.Reachable s) : s.Settled := by
  refine hreach.invariant (P := Settled) ?_ fun s a s' _ _ hstep h => h.step hstep
  intro s hinit
  rw [hinit]
  exact start_settled

/-! ### `startLoop` -/

/-- The owner is inside of `startLoop`. -/
def Launching (s : EventLoopThread) : Prop := s.owner ≠ .outside ∧ s.owner.launched = false

theorem Launching.step_cases (h : s.Launching) (hstep : s.step a = some s') :
    a = .owner ∧ s.ownerStep = some s' ∨ a = .threadFunc ∧ s.funcStep = some s' := by
  cases a with
  | owner => exact Or.inl ⟨rfl, hstep⟩
  | threadFunc => exact Or.inr ⟨rfl, hstep⟩
  | startLoop => exact absurd (startLoop_spec hstep).1 h.1
  | destroy =>
    rcases (destroy_spec hstep).1 with hpc | hpc
    · exact absurd hpc h.1
    · have hlaunched := h.2
      rw [hpc] at hlaunched
      cases hlaunched
  | quit =>
    obtain ⟨_, hlaunched, _⟩ := quit_spec hstep
    rw [h.2] at hlaunched
    cases hlaunched

/-- `startLoop` has returned a loop that lives. -/
def Returned (s : EventLoopThread) : Prop := s.owner = .returned ∧ s.alive = true

theorem Launching.ownerStep (h : s.Launching) (hsettled : s.Settled)
    (hstep : s.ownerStep = some s') :
    s'.Returned ∨
      s'.Launching ∧ s'.func = s.func ∧
        (s'.owner.left < s.owner.left ∨ s.owner = .checking ∧ s.loop = false ∧ s'.owner = .locking) := by
  obtain ⟨hinside, hlaunched⟩ := h
  obtain ⟨_, hlast⟩ := hsettled.early hlaunched
  have halive := hsettled.sound.alive
  have howner := hsettled.sound.owner
  unfold EventLoopThread.ownerStep at hstep
  cases hpc : s.owner <;> rw [hpc] at hstep hinside hlaunched howner <;> dsimp only at hstep
  case locking =>
    split at hstep
    · cases hstep
      exact Or.inr ⟨⟨OwnerPc.noConfusion, rfl⟩, rfl, Or.inl (Nat.lt_succ_self _)⟩
    · cases hstep
  case checking =>
    split at hstep
    · cases hstep
      exact Or.inr ⟨⟨OwnerPc.noConfusion, rfl⟩, rfl, Or.inl (Nat.lt_succ_self _)⟩
    · rename_i hnull
      cases hstep
      exact Or.inr ⟨⟨OwnerPc.noConfusion, rfl⟩, rfl, Or.inr ⟨rfl, by simpa using hnull, rfl⟩⟩
  case reading =>
    cases hstep
    exact Or.inr ⟨⟨OwnerPc.noConfusion, rfl⟩, rfl, Or.inl (Nat.lt_succ_self _)⟩
  case unlocking =>
    have hfirst : 4 ≤ s.func.rank := howner
    cases hstep
    exact Or.inl ⟨rfl, halive.mpr ⟨by omega, by omega⟩⟩
  case outside => exact absurd rfl hinside
  all_goals cases hlaunched

/-- The owner is held up only by the mutex and by the end of the thread. -/
theorem ownerStep_goes (hpc : s.owner ≠ .outside ∧ s.owner ≠ .returned ∧ s.owner ≠ .done)
    (hlock : s.owner = .locking → s.mutex = none) (hjoin : s.owner = .joining → s.func = .ended) :
    ∃ t, s.ownerStep = some t := by
  obtain ⟨houtside, hreturned, hdone⟩ := hpc
  unfold EventLoopThread.ownerStep
  cases hpc : s.owner <;> dsimp only
  case outside => exact absurd hpc houtside
  case returned => exact absurd hpc hreturned
  case done => exact absurd hpc hdone
  case locking =>
    rw [hlock hpc]
    exact ⟨_, rfl⟩
  case joining =>
    rw [hjoin hpc]
    exact ⟨_, rfl⟩
  case checking | testing => split <;> exact ⟨_, rfl⟩
  all_goals exact ⟨_, rfl⟩

/-- `threadFunc` is held up only by the mutex. -/
theorem funcStep_goes (hpc : s.func ≠ .unstarted ∧ s.func ≠ .ended)
    (hlock : s.func.holds = false → s.mutex = none) : ∃ t, s.funcStep = some t := by
  obtain ⟨hunstarted, hended⟩ := hpc
  unfold EventLoopThread.funcStep
  cases hpc : s.func <;> dsimp only
  case unstarted => exact absurd hpc hunstarted
  case ended => exact absurd hpc hended
  case locking | leaving =>
    rw [hlock (by rw [hpc]; rfl)]
    exact ⟨_, rfl⟩
  case looping => split <;> exact ⟨_, rfl⟩
  all_goals exact ⟨_, rfl⟩

theorem Launching.func_started (h : s.Launching) (hsettled : s.Settled) :
    s.func ≠ .unstarted ∧ s.func ≠ .ended := by
  obtain ⟨houtside, hlaunched⟩ := h
  obtain ⟨_, hlast⟩ := hsettled.early hlaunched
  have howner := hsettled.sound.owner
  constructor
  · intro hfunc
    rw [hfunc] at howner
    cases hpc : s.owner <;> rw [hpc] at howner houtside hlaunched <;>
      simp_all [OwnerPc.Fits, OwnerPc.launched, FuncPc.rank]
  · intro hfunc
    rw [hfunc] at hlast
    exact absurd hlast (by decide)

theorem Launching.funcStep (h : s.Launching) (hsettled : s.Settled)
    (hstep : s.funcStep = some s') :
    s'.Launching ∧ s'.owner = s.owner ∧
      (s'.func.rank = s.func.rank + 1 ∨ s.func = .looping ∧ s'.func = .looping) := by
  obtain ⟨howner, _, hrank, _⟩ := funcStep_spec hsettled.sound hstep
  refine ⟨⟨howner ▸ h.1, howner ▸ h.2⟩, howner, ?_⟩
  rcases hrank with hnext | ⟨hsame, hlooping⟩
  · exact Or.inl hnext
  · exact Or.inr ⟨hlooping, FuncPc.eq_of_rank (hsame.trans (by rw [hlooping]))⟩

/-! ### The destructor -/

/-- The destructor is to end: it leaves the thread alone, or `loop` has reset `quit_` and leaves once it is set. -/
def Ending (s : EventLoopThread) : Prop :=
  match s.owner with
  | .testing => s.func = .unstarted ∨ 6 ≤ s.func.rank
  | .rereading => 6 ≤ s.func.rank
  | .quitting pointer => 6 ≤ s.func.rank ∧ (pointer = true ∨ 7 ≤ s.func.rank)
  | .waking => 6 ≤ s.func.rank ∧ (s.quit = true ∨ 7 ≤ s.func.rank)
  | .joining => 6 ≤ s.func.rank ∧ (s.quit = true ∨ 7 ≤ s.func.rank)
  | .ending => True
  | _ => False

theorem Ending.ownerStep (h : s.Ending) (hsound : s.Sound) (hstep : s.ownerStep = some s') :
    (s'.owner = .done ∨ s'.Ending) ∧ s'.owner.left < s.owner.left ∧ s'.func = s.func := by
  have hloop := hsound.loop
  unfold Ending at h
  unfold EventLoopThread.ownerStep at hstep
  cases hpc : s.owner <;> rw [hpc] at h hstep <;> dsimp only at h hstep
  case testing =>
    split at hstep
    · rename_i hset
      cases hstep
      refine ⟨Or.inr ?_, Nat.lt_succ_self 5, rfl⟩
      rcases h with hunstarted | hlooping
      · rw [hunstarted] at hloop
        exact absurd (hloop.mp hset) (by decide)
      · exact hlooping
    · cases hstep
      exact ⟨Or.inr trivial, Nat.succ_lt_succ (Nat.zero_lt_succ 4), rfl⟩
  case rereading =>
    cases hstep
    refine ⟨Or.inr ⟨h, ?_⟩, Nat.lt_succ_self 4, rfl⟩
    cases hset : s.loop with
    | true => exact Or.inl rfl
    | false =>
      right
      have hcleared : ¬ (4 ≤ s.func.rank ∧ s.func.rank ≤ 8) := by
        rw [← hloop, hset]
        exact Bool.false_ne_true
      change 7 ≤ s.func.rank
      omega
  case quitting pointer =>
    cases hstep
    refine ⟨Or.inr ⟨h.1, h.2.imp_left fun hset => ?_⟩, Nat.lt_succ_self 3, rfl⟩
    change (s.quit || pointer) = true
    rw [hset, Bool.or_true]
  case waking =>
    cases hstep
    exact ⟨Or.inr h, Nat.lt_succ_self 2, rfl⟩
  case joining =>
    split at hstep <;> cases hstep
    exact ⟨Or.inr trivial, Nat.lt_succ_self 1, rfl⟩
  case ending =>
    cases hstep
    exact ⟨Or.inl rfl, Nat.lt_succ_self 0, rfl⟩

theorem Ending.mono (h : s.Ending) (howner : s'.owner = s.owner)
    (hrank : s.func.rank ≤ s'.func.rank) (hunstarted : s.func = .unstarted → s'.func = .unstarted)
    (hquit : 6 ≤ s.func.rank → s.quit = true → s'.quit = true) : s'.Ending := by
  unfold Ending at h ⊢
  rw [howner]
  cases hpc : s.owner <;> rw [hpc] at h <;> dsimp only at h ⊢
  case testing => exact h.imp hunstarted fun h => Nat.le_trans h hrank
  case rereading => exact Nat.le_trans h hrank
  case quitting pointer =>
    exact ⟨Nat.le_trans h.1 hrank, h.2.imp_right fun h => Nat.le_trans h hrank⟩
  case waking | joining =>
    exact ⟨Nat.le_trans h.1 hrank, h.2.imp (hquit h.1) fun h => Nat.le_trans h hrank⟩

/-- `threadFunc` sets `quit_` back only when it enters the loop, and leaves it once `quit_` is set. -/
theorem funcStep_quit (hfunc : s.func ≠ .entering) (hstep : s.funcStep = some s') :
    s'.quit = s.quit ∧ (s.func = .looping → s.quit = true → s'.func = .leaving) := by
  unfold EventLoopThread.funcStep at hstep
  cases hpc : s.func <;> rw [hpc] at hstep <;> dsimp only at hstep
  case unstarted | ended => cases hstep
  case entering => exact absurd hpc hfunc
  case locking | leaving =>
    split at hstep <;> cases hstep
    exact ⟨rfl, nofun⟩
  case looping =>
    split at hstep
    · cases hstep
      exact ⟨rfl, fun _ _ => rfl⟩
    · rename_i hnot
      cases hstep
      exact ⟨rfl, fun _ hset => absurd hset hnot⟩
  all_goals
    cases hstep
    exact ⟨rfl, nofun⟩

theorem Ending.funcStep (h : s.Ending) (hsound : s.Sound) (hstep : s.funcStep = some s') :
    s'.Ending ∧ s'.owner = s.owner ∧
      (s.owner = .joining → s'.func.rank = s.func.rank + 1) := by
  obtain ⟨howner, hpos, hrank, _⟩ := funcStep_spec hsound hstep
  have hquit (hreset : 6 ≤ s.func.rank) : s'.quit = s.quit ∧
      (s.func = .looping → s.quit = true → s'.func = .leaving) :=
    funcStep_quit (fun hpc => absurd hreset (by rw [hpc]; decide)) hstep
  refine ⟨h.mono howner (by omega) ?_ ?_, howner, fun hpc => ?_⟩
  · intro hunstarted
    rw [hunstarted] at hpos
    exact absurd hpos (by decide)
  · intro hreset hset
    exact (hquit hreset).1.trans hset
  · rcases hrank with hnext | ⟨_, hlooping⟩
    · exact hnext
    · unfold Ending at h
      rw [hpc] at h
      obtain ⟨hreset, hset | hlate⟩ := h
      · rw [(hquit hreset).2 hlooping hset, hlooping]
        rfl
      · rw [hlooping] at hlate
        exact absurd hlate (by decide)

end EventLoopThread

/-- An `EventLoopThread` and its `cond_`; `waiting` is that the owner is in `cond_.wait`. -/
structure Handshake where
  self : EventLoopThread
  waiting : Bool

inductive HandshakeStep
  | of (a : EventLoopThreadStep)
  /-- `cond_.wait` returns without a notification -/
  | spurious

namespace Handshake

def start : Handshake := ⟨EventLoopThread.start, false⟩

/-- The owner waits when it finds no pointer, and `threadFunc` notifies it when it stores one. -/
def waits (h : Handshake) : EventLoopThreadStep → Bool
  | .owner =>
    match h.self.owner with
    | .checking => !h.self.loop
    | _ => false
  | .threadFunc =>
    match h.self.func with
    | .publishing => false
    | _ => h.waiting
  | _ => h.waiting

def step (h : Handshake) : HandshakeStep → Option Handshake
  | .of a =>
    match h.waiting, a with
    | true, .owner => none
    | _, a => (h.self.step a).map fun self => { self := self, waiting := h.waits a }
  | .spurious => some { h with waiting := false }

def machine : Machine Handshake HandshakeStep where
  init h := h = start
  step := step

variable {h h' : Handshake}

theorem step_of {a : EventLoopThreadStep} (hstep : h.step (.of a) = some h') :
    (h.waiting = true → a ≠ .owner) ∧ h.self.step a = some h'.self ∧ h'.waiting = h.waits a := by
  unfold step at hstep
  dsimp only at hstep
  split at hstep
  · cases hstep
  · rename_i hnot
    obtain ⟨self, hself, rfl⟩ := Option.map_eq_some_iff.mp hstep
    exact ⟨fun hwaiting howner => hnot hwaiting howner, hself, rfl⟩

theorem enabled_of {a : EventLoopThreadStep} {t : EventLoopThread}
    (hnot : h.waiting = true → a ≠ .owner) (hstep : h.self.step a = some t) :
    machine.Enabled (· = .of a) h := by
  refine ⟨.of a, ⟨t, h.waits a⟩, rfl, ?_⟩
  change h.step (.of a) = _
  unfold step
  dsimp only
  split
  · rename_i hwaiting
    exact absurd rfl (hnot hwaiting)
  · rw [hstep]
    rfl

/-- Without the condition variable. -/
def onMutex : Machine.Refinement machine EventLoopThread.machine where
  abs := self
  acts _ a :=
    match a with
    | .of a => [a]
    | .spurious => []
  init h hinit := by rw [hinit]; rfl
  step h a h' _ hstep := by
    cases a with
    | of a =>
      obtain ⟨_, hself, _⟩ := step_of hstep
      rw [Machine.run_cons, show EventLoopThread.machine.step h.self a = some h'.self from hself]
      rfl
    | spurious =>
      cases hstep
      rfl

theorem reachable_settled (hreach : machine.Reachable h) : h.self.Settled :=
  EventLoopThread.reachable_settled (onMutex.reachable hreach)

/-- No notification is lost: whoever waits does so before `threadFunc` has stored the pointer. -/
def Awaited (h : Handshake) : Prop :=
  h.waiting = true → h.self.owner = .locking ∧ h.self.func.rank ≤ 3

theorem ownerStep_awaited (hsettled : h.self.Settled) (hstep : h.self.ownerStep = some h'.self)
    (hwaits : h.waits .owner = true) : h'.self.owner = .locking ∧ h'.self.func.rank ≤ 3 := by
  unfold waits at hwaits
  dsimp only at hwaits
  split at hwaits
  · rename_i hpc
    have hnull : h.self.loop = false := by simpa using hwaits
    have hlate : ¬ (4 ≤ h.self.func.rank ∧ h.self.func.rank ≤ 8) := by
      rw [← hsettled.sound.loop, hnull]
      exact Bool.false_ne_true
    have hearly := (hsettled.early (by rw [hpc]; rfl)).2
    rw [EventLoopThread.ownerStep, hpc] at hstep
    dsimp only at hstep
    rw [hnull, if_neg Bool.false_ne_true] at hstep
    obtain hself := Option.some.inj hstep
    rw [← hself]
    refine ⟨rfl, ?_⟩
    change h.self.func.rank ≤ 3
    omega
  · cases hwaits

theorem Awaited.funcStep (hinv : h.Awaited) (hsettled : h.self.Settled)
    (hstep : h.self.funcStep = some h'.self) (hwaits : h.waits .threadFunc = true) :
    h'.self.owner = .locking ∧ h'.self.func.rank ≤ 3 := by
  unfold waits at hwaits
  dsimp only at hwaits
  split at hwaits
  · cases hwaits
  · rename_i hnot
    obtain ⟨hpc, hrank⟩ := hinv hwaits
    obtain ⟨howner, _, hnext, _⟩ := EventLoopThread.funcStep_spec hsettled.sound hstep
    have hne : h.self.func.rank ≠ 3 :=
      fun heq => hnot (FuncPc.eq_of_rank (q := .publishing) heq)
    refine ⟨howner.trans hpc, ?_⟩
    omega

theorem Awaited.step {a : HandshakeStep} (hinv : h.Awaited) (hsettled : h.self.Settled)
    (hstep : h.step a = some h') : h'.Awaited := by
  cases a with
  | spurious =>
    cases hstep
    exact fun hwaiting => by cases hwaiting
  | of a =>
    obtain ⟨_, hself, hwaiting⟩ := step_of hstep
    intro hwaits
    rw [hwaiting] at hwaits
    cases a with
    | owner => exact ownerStep_awaited hsettled hself hwaits
    | threadFunc => exact hinv.funcStep hsettled hself hwaits
    | startLoop =>
      have hpc := (EventLoopThread.startLoop_spec hself).1
      rw [(hinv hwaits).1] at hpc
      cases hpc
    | destroy =>
      have hpc := (EventLoopThread.destroy_spec hself).1
      rw [(hinv hwaits).1] at hpc
      rcases hpc with hpc | hpc <;> cases hpc
    | quit =>
      have hlaunched := (EventLoopThread.quit_spec hself).2.1
      rw [(hinv hwaits).1] at hlaunched
      cases hlaunched

theorem reachable_awaited (hreach : machine.Reachable h) : h.Awaited := by
  refine hreach.invariant (P := Awaited) ?_ fun h a h' hreach _ hstep hinv =>
    hinv.step (reachable_settled hreach) hstep
  intro h hinit
  rw [hinit]
  intro hwaiting
  cases hwaiting

/-! ### `startLoop` -/

theorem launching_step {a : HandshakeStep} (hlaunching : h.self.Launching)
    (hstep : h.step a = some h') :
    a = .of .owner ∧ h.self.ownerStep = some h'.self ∨
      a = .spurious ∧ h'.self = h.self ∨
      a = .of .threadFunc ∧ h.self.funcStep = some h'.self := by
  cases a with
  | spurious =>
    cases hstep
    exact Or.inr (Or.inl ⟨rfl, rfl⟩)
  | of a =>
    obtain ⟨_, hself, _⟩ := step_of hstep
    rcases hlaunching.step_cases hself with ⟨rfl, howner⟩ | ⟨rfl, hfunc⟩
    · exact Or.inl ⟨rfl, howner⟩
    · exact Or.inr (Or.inr ⟨rfl, hfunc⟩)

variable {r : machine.Trace}

/-- None of the two threads is held up for ever. -/
structure Fair (r : machine.Trace) : Prop where
  owner : r.StrongFair (· = .of .owner)
  threadFunc : r.StrongFair (· = .of .threadFunc)

theorem owner_unlocks (hfair : Fair r) :
    r.LeadsTo (fun h => h.self.Launching ∧ h.self.owner.holds = true)
      (fun h => h.self.owner.holds = false) := by
  refine Machine.Trace.leadsTo_of_strongFair (fun h => h.self.owner.left) hfair.owner ?_ ?_
  · rintro h a h' hreach ⟨hlaunching, hholds⟩ hstep
    rcases launching_step hlaunching hstep with ⟨_, howner⟩ | ⟨rfl, hsame⟩ | ⟨rfl, hself⟩
    · rcases hlaunching.ownerStep (reachable_settled hreach) howner with
        hreturned | ⟨hstill, _, hless | ⟨_, _, hlocking⟩⟩
      · left
        rw [hreturned.1]
        rfl
      · cases hlet : h'.self.owner.holds with
        | false => exact Or.inl rfl
        | true => exact Or.inr ⟨⟨hstill, rfl⟩, Nat.le_of_lt hless, fun _ => hless⟩
      · left
        rw [hlocking]
        rfl
    · rw [hsame]
      exact Or.inr ⟨⟨hlaunching, hholds⟩, Nat.le_refl _, fun hA => by cases hA⟩
    · obtain ⟨hstill, hsame, _⟩ := hlaunching.funcStep (reachable_settled hreach) hself
      rw [hsame]
      exact Or.inr ⟨⟨hstill, hholds⟩, Nat.le_refl _, fun hA => by cases hA⟩
  · intro n hn
    obtain ⟨⟨⟨houtside, hlaunched⟩, hholds⟩, _⟩ := hn n (Nat.le_refl n)
    have hnot {pc : OwnerPc} (hpc : pc.holds = false) : (r.state n).self.owner ≠ pc := by
      intro heq
      rw [heq, hpc] at hholds
      cases hholds
    obtain ⟨t, ht⟩ := EventLoopThread.ownerStep_goes ⟨houtside, hnot rfl, hnot rfl⟩
      (fun hpc => absurd hpc (hnot rfl)) fun hpc => absurd hpc (hnot rfl)
    refine ⟨n, Nat.le_refl n, enabled_of (fun hwaiting => ?_) ht⟩
    exact absurd (reachable_awaited (r.reachable n) hwaiting).1 (hnot rfl)

theorem func_loops (hfair : Fair r) :
    r.LeadsTo (fun h => h.self.Launching)
      (fun h => h.self.Returned ∨ h.self.Launching ∧ h.self.func = .looping) := by
  refine Machine.Trace.leadsTo_of_strongFair (fun h => 11 - h.self.func.rank) hfair.threadFunc
    ?_ ?_
  · intro h a h' hreach hlaunching hstep
    have hsettled := reachable_settled hreach
    rcases launching_step hlaunching hstep with ⟨rfl, howner⟩ | ⟨rfl, hsame⟩ | ⟨rfl, hself⟩
    · rcases hlaunching.ownerStep hsettled howner with hreturned | ⟨hstill, hsame, _⟩
      · exact Or.inl (Or.inl hreturned)
      · rw [hsame]
        exact Or.inr ⟨hstill, Nat.le_refl _, fun hA => by cases hA⟩
    · rw [hsame]
      exact Or.inr ⟨hlaunching, Nat.le_refl _, fun hA => by cases hA⟩
    · obtain ⟨hstill, _, hnext | ⟨_, hlooping⟩⟩ := hlaunching.funcStep hsettled hself
      · have hlast := (hsettled.early hlaunching.2).2
        exact Or.inr ⟨hstill, by omega, fun _ => by omega⟩
      · exact Or.inl (Or.inr ⟨hstill, hlooping⟩)
  · intro n hn
    -- `threadFunc` waits at most for the owner to unlock
    obtain ⟨k, hk, hfree⟩ : ∃ k, n ≤ k ∧ (r.state k).self.owner.holds = false := by
      cases hholds : (r.state n).self.owner.holds with
      | false => exact ⟨n, Nat.le_refl n, hholds⟩
      | true => exact owner_unlocks hfair n ⟨(hn n (Nat.le_refl n)).1, hholds⟩
    have hlaunching := (hn k hk).1
    have hsettled := reachable_settled (r.reachable k)
    obtain ⟨t, ht⟩ := EventLoopThread.funcStep_goes (hlaunching.func_started hsettled)
      (hsettled.free hfree)
    exact ⟨k, hk, enabled_of (fun _ => nofun) ht⟩

theorem looping_returns (hfair : Fair r) :
    r.LeadsTo (fun h => h.self.Launching ∧ h.self.func = .looping)
      (fun h => h.self.Returned) := by
  refine Machine.Trace.leadsTo_of_strongFair (fun h => h.self.owner.left) hfair.owner ?_ ?_
  · rintro h a h' hreach ⟨hlaunching, hlooping⟩ hstep
    have hsettled := reachable_settled hreach
    rcases launching_step hlaunching hstep with ⟨rfl, howner⟩ | ⟨rfl, hsame⟩ | ⟨rfl, hself⟩
    · rcases hlaunching.ownerStep hsettled howner with
        hreturned | ⟨hstill, hsame, hless | ⟨_, hnull, _⟩⟩
      · exact Or.inl hreturned
      · exact Or.inr ⟨⟨hstill, hsame.trans hlooping⟩, Nat.le_of_lt hless, fun _ => hless⟩
      · have hset : h.self.loop = true := hsettled.sound.loop.mpr (by rw [hlooping]; decide)
        rw [hnull] at hset
        cases hset
    · rw [hsame]
      exact Or.inr ⟨⟨hlaunching, hlooping⟩, Nat.le_refl _, fun hA => by cases hA⟩
    · obtain ⟨hstill, hsame, hnext | ⟨_, hlooping'⟩⟩ := hlaunching.funcStep hsettled hself
      · have hlast := ((hsettled.step (a := .threadFunc) hself).early hstill.2).2
        rw [hnext, hlooping] at hlast
        exact absurd hlast (by decide)
      · rw [hsame]
        exact Or.inr ⟨⟨hstill, hlooping'⟩, Nat.le_refl _, fun hA => by cases hA⟩
  · intro n hn
    obtain ⟨⟨hlaunching, hlooping⟩, _⟩ := hn n (Nat.le_refl n)
    have hsettled := reachable_settled (r.reachable n)
    obtain ⟨houtside, hlaunched⟩ := hlaunching
    have hnot {pc : OwnerPc} (hpc : pc.launched = true) : (r.state n).self.owner ≠ pc := by
      intro heq
      rw [heq, hpc] at hlaunched
      cases hlaunched
    obtain ⟨t, ht⟩ := EventLoopThread.ownerStep_goes ⟨houtside, hnot rfl, hnot rfl⟩
      (fun hpc => hsettled.free (by rw [hpc]; rfl) (by rw [hlooping]; rfl))
      fun hpc => absurd hpc (hnot rfl)
    refine ⟨n, Nat.le_refl n, enabled_of (fun hwaiting => ?_) ht⟩
    have hearly := (reachable_awaited (r.reachable n) hwaiting).2
    rw [hlooping] at hearly
    exact absurd hearly (by decide)

theorem startLoop_returns (hfair : Fair r) :
    r.LeadsTo (fun h => h.self.Launching) (fun h => h.self.Returned) :=
  (func_loops hfair).trans
    ((Machine.Trace.LeadsTo.of_imp fun _ hreturned => hreturned).or (looping_returns hfair))

/-! ### The destructor -/

theorem ending_step {a : HandshakeStep} (hending : h.self.Ending) (hstep : h.step a = some h') :
    a = .of .owner ∧ h.self.ownerStep = some h'.self ∨
      a = .of .threadFunc ∧ h.self.funcStep = some h'.self ∨
      (a ≠ .of .owner ∧ a ≠ .of .threadFunc) ∧ h'.self.Ending ∧ h'.self.owner = h.self.owner ∧
        h'.self.func = h.self.func := by
  cases a with
  | spurious =>
    cases hstep
    exact Or.inr (Or.inr ⟨⟨nofun, nofun⟩, hending, rfl, rfl⟩)
  | of a =>
    obtain ⟨_, hself, _⟩ := step_of hstep
    cases a with
    | owner => exact Or.inl ⟨rfl, hself⟩
    | threadFunc => exact Or.inr (Or.inl ⟨rfl, hself⟩)
    | startLoop =>
      unfold EventLoopThread.Ending at hending
      rw [(EventLoopThread.startLoop_spec hself).1] at hending
      exact hending.elim
    | destroy =>
      unfold EventLoopThread.Ending at hending
      rcases (EventLoopThread.destroy_spec hself).1 with hpc | hpc <;> rw [hpc] at hending <;>
        exact hending.elim
    | quit =>
      obtain ⟨_, _, hquit⟩ := EventLoopThread.quit_spec hself
      rw [hquit]
      refine Or.inr (Or.inr ⟨⟨nofun, nofun⟩, ?_, rfl, rfl⟩)
      exact hending.mono rfl (Nat.le_refl _) id fun _ _ => rfl

theorem enabled_owner (hreach : machine.Reachable h) (hending : h.self.Ending)
    (hjoin : h.self.owner = .joining → h.self.func = .ended) :
    machine.Enabled (· = .of .owner) h := by
  have hnot {pc : OwnerPc} (hpc : ∀ s : EventLoopThread, s.owner = pc → ¬ s.Ending) :
      h.self.owner ≠ pc := fun heq => hpc _ heq hending
  have hout {pc : OwnerPc} (hpc : pc.left = 0 ∨ pc = .locking) (s : EventLoopThread)
      (heq : s.owner = pc) : ¬ s.Ending := by
    unfold EventLoopThread.Ending
    rw [heq]
    cases pc <;> simp_all [OwnerPc.left]
  obtain ⟨t, ht⟩ := EventLoopThread.ownerStep_goes
    ⟨hnot (hout (Or.inl rfl)), hnot (hout (Or.inl rfl)), hnot (hout (Or.inl rfl))⟩
    (fun hpc => absurd hpc (hnot (hout (Or.inr rfl)))) hjoin
  refine enabled_of (fun hwaiting => ?_) ht
  exact absurd (reachable_awaited hreach hwaiting).1 (hnot (hout (Or.inr rfl)))

theorem ending_joins (hfair : Fair r) :
    r.LeadsTo (fun h => h.self.Ending)
      (fun h => h.self.owner = .done ∨ h.self.Ending ∧ h.self.owner.left ≤ 2) := by
  have hmain : r.LeadsTo (fun h => h.self.Ending ∧ 2 < h.self.owner.left)
      (fun h => h.self.owner = .done ∨ h.self.Ending ∧ h.self.owner.left ≤ 2) := by
    refine Machine.Trace.leadsTo_of_strongFair (fun h => h.self.owner.left) hfair.owner ?_ ?_
    · rintro h a h' hreach ⟨hending, hleft⟩ hstep
      have hsound := (reachable_settled hreach).sound
      rcases ending_step hending hstep with
        ⟨rfl, howner⟩ | ⟨rfl, hself⟩ | ⟨⟨hnot, _⟩, hstill, hsame, _⟩
      · obtain ⟨hdone | hstill, hless, _⟩ := hending.ownerStep hsound howner
        · exact Or.inl (Or.inl hdone)
        · rcases Nat.lt_or_ge 2 h'.self.owner.left with hmore | hle
          · exact Or.inr ⟨⟨hstill, hmore⟩, Nat.le_of_lt hless, fun _ => hless⟩
          · exact Or.inl (Or.inr ⟨hstill, hle⟩)
      · obtain ⟨hstill, hsame, _⟩ := hending.funcStep hsound hself
        rw [hsame]
        exact Or.inr ⟨⟨hstill, hleft⟩, Nat.le_refl _, fun hA => by cases hA⟩
      · rw [hsame]
        exact Or.inr ⟨⟨hstill, hleft⟩, Nat.le_refl _, fun hA => absurd hA hnot⟩
    · intro n hn
      obtain ⟨⟨hending, hleft⟩, _⟩ := hn n (Nat.le_refl n)
      refine ⟨n, Nat.le_refl n, enabled_owner (r.reachable n) hending fun hpc => ?_⟩
      rw [hpc] at hleft
      exact absurd hleft (by decide)
  intro n hending
  rcases Nat.lt_or_ge 2 (r.state n).self.owner.left with hmore | hle
  · exact hmain n ⟨hending, hmore⟩
  · exact ⟨n, Nat.le_refl n, Or.inr ⟨hending, hle⟩⟩

theorem func_ends (hfair : Fair r) :
    r.LeadsTo (fun h => h.self.Ending ∧ h.self.owner.left ≤ 2)
      (fun h => h.self.owner = .done ∨ (h.self.Ending ∧ h.self.owner.left ≤ 2) ∧
        (h.self.owner = .joining → h.self.func = .ended)) := by
  have hmain : r.LeadsTo (fun h => h.self.Ending ∧ h.self.owner = .joining ∧ h.self.func ≠ .ended)
      (fun h => h.self.owner = .done ∨ (h.self.Ending ∧ h.self.owner.left ≤ 2) ∧
        (h.self.owner = .joining → h.self.func = .ended)) := by
    refine Machine.Trace.leadsTo_of_strongFair (fun h => 11 - h.self.func.rank) hfair.threadFunc
      ?_ ?_
    · rintro h a h' hreach ⟨hending, hjoining, hon⟩ hstep
      have hsound := (reachable_settled hreach).sound
      rcases ending_step hending hstep with
        ⟨rfl, howner⟩ | ⟨rfl, hself⟩ | ⟨⟨_, hnot⟩, hstill, hsame, hfunc⟩
      · obtain ⟨hdone | hstill, hless, _⟩ := hending.ownerStep hsound howner
        · exact Or.inl (Or.inl hdone)
        · rw [hjoining] at hless
          refine Or.inl (Or.inr ⟨⟨hstill, Nat.le_of_lt hless⟩, fun hpc => ?_⟩)
          rw [hpc] at hless
          exact absurd hless (Nat.lt_irrefl _)
      · obtain ⟨hstill, hsame, hnext⟩ := hending.funcStep hsound hself
        have hnext := hnext hjoining
        have hlast : h'.self.func.rank ≤ 11 := h'.self.func.rank_le
        by_cases hended : h'.self.func = .ended
        · refine Or.inl (Or.inr ⟨⟨hstill, ?_⟩, fun _ => hended⟩)
          rw [hsame, hjoining]
          exact Nat.le_refl 2
        · exact Or.inr ⟨⟨hstill, hsame.trans hjoining, hended⟩, by omega, fun _ => by omega⟩
      · rw [hfunc]
        exact Or.inr ⟨⟨hstill, hsame.trans hjoining, hon⟩, Nat.le_refl _,
          fun hA => absurd hA hnot⟩
    · intro n hn
      obtain ⟨⟨hending, hjoining, hon⟩, _⟩ := hn n (Nat.le_refl n)
      have hsettled := reachable_settled (r.reachable n)
      have hunstarted : (r.state n).self.func ≠ .unstarted := by
        intro hfunc
        unfold EventLoopThread.Ending at hending
        rw [hjoining, hfunc] at hending
        exact absurd hending.1 (by decide)
      obtain ⟨t, ht⟩ := EventLoopThread.funcStep_goes ⟨hunstarted, hon⟩
        (hsettled.free (by rw [hjoining]; rfl))
      exact ⟨n, Nat.le_refl n, enabled_of (fun _ => nofun) ht⟩
  rintro n ⟨hending, hleft⟩
  by_cases hblocked : (r.state n).self.owner = .joining ∧ (r.state n).self.func ≠ .ended
  · exact hmain n ⟨hending, hblocked⟩
  · exact ⟨n, Nat.le_refl n, Or.inr ⟨⟨hending, hleft⟩,
      fun hpc => Decidable.not_not.mp fun hon => hblocked ⟨hpc, hon⟩⟩⟩

theorem owner_ends (hfair : Fair r) :
    r.LeadsTo (fun h => (h.self.Ending ∧ h.self.owner.left ≤ 2) ∧
        (h.self.owner = .joining → h.self.func = .ended))
      (fun h => h.self.owner = .done) := by
  refine Machine.Trace.leadsTo_of_strongFair (fun h => h.self.owner.left) hfair.owner ?_ ?_
  · rintro h a h' hreach ⟨⟨hending, hleft⟩, hjoin⟩ hstep
    have hsound := (reachable_settled hreach).sound
    rcases ending_step hending hstep with
      ⟨rfl, howner⟩ | ⟨rfl, hself⟩ | ⟨⟨hnot, _⟩, hstill, hsame, hfunc⟩
    · obtain ⟨hdone | hstill, hless, _⟩ := hending.ownerStep hsound howner
      · exact Or.inl hdone
      · refine Or.inr ⟨⟨⟨hstill, by omega⟩, fun hpc => ?_⟩, Nat.le_of_lt hless, fun _ => hless⟩
        rw [hpc] at hless
        exact absurd (Nat.lt_of_lt_of_le hless hleft) (by decide)
    · obtain ⟨hstill, hsame, hnext⟩ := hending.funcStep hsound hself
      rw [hsame]
      refine Or.inr ⟨⟨⟨hstill, hleft⟩, fun hpc => ?_⟩, Nat.le_refl _, fun hA => by cases hA⟩
      rw [EventLoopThread.funcStep, hjoin hpc] at hself
      cases hself
    · rw [hsame, hfunc]
      exact Or.inr ⟨⟨⟨hstill, hleft⟩, hjoin⟩, Nat.le_refl _, fun hA => absurd hA hnot⟩
  · intro n hn
    obtain ⟨⟨⟨hending, _⟩, hjoin⟩, _⟩ := hn n (Nat.le_refl n)
    exact ⟨n, Nat.le_refl n, enabled_owner (r.reachable n) hending hjoin⟩

theorem ending_returns (hfair : Fair r) :
    r.LeadsTo (fun h => h.self.Ending) (fun h => h.self.owner = .done) := by
  have hdone : r.LeadsTo (fun h => h.self.owner = .done) (fun h => h.self.owner = .done) :=
    Machine.Trace.LeadsTo.of_imp fun _ hdone => hdone
  exact (ending_joins hfair).trans
    (hdone.or ((func_ends hfair).trans (hdone.or (owner_ends hfair))))

/-- The owner waits for the pointer, and later joins. -/
def waitAndJoin : List HandshakeStep :=
  [.of .startLoop, .of .owner, .of .owner, .of .threadFunc, .of .threadFunc, .of .threadFunc,
    .of .threadFunc, .of .owner, .of .owner, .of .owner, .of .owner, .of .threadFunc, .of .destroy,
    .of .owner, .of .owner, .of .owner, .of .owner, .of .threadFunc, .of .threadFunc,
    .of .threadFunc, .of .threadFunc, .of .threadFunc, .of .owner, .of .owner]

end Handshake

end LTMuduo
