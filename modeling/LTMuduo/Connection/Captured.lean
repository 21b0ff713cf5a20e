import LTMuduo.Connection.LoopThread
import LTMuduo.EventLoop.Code

/-!
# What a deferred send captures

Off the loop thread `send` binds `buf.c_str()` and `buf.size()` into its functor, and `sendInLoop` reads the characters when the loop runs it. The memory of the callers is an explicit store: any number of threads call `send`, and after that they write to it as they like. On the loop thread any calls of the connection go on meanwhile.
-/

namespace LTMuduo

abbrev Memory := Nat → Byte

/-- The characters of a string at an address. -/
def Memory.read (memory : Memory) (data len : Nat) : List Byte :=
  (List.range len).map fun i => memory (data + i)

/-- What `std::bind` keeps of a call of `send`. The string at the time of the call, `value`, is history. -/
structure BoundSend where
  data : Nat
  len : Nat
  value : List Byte
  deriving DecidableEq

inductive BoundFunctor
  | sendInLoop (bound : BoundSend)
  | other
  deriving DecidableEq

def BoundFunctor.bound? : BoundFunctor → Option BoundSend
  | .sendInLoop bound => some bound
  | .other => none

/-- `calling` are the calls of `send` that have found `kConnected` and have not handed over their functor. Freeing a string is no step of its own: a string that has been freed is one whose characters may change. -/
structure Captured (C : Type*) where
  thread : LoopThread C
  loop : EventLoop BoundFunctor
  batch : List BoundFunctor
  calling : List BoundSend
  memory : Memory

inductive CaptureStep (C : Type*)
  | loopCall (call : LoopCall C)
  | swapFunctors
  | runFunctor (r : WriteResult)
  | callSend (data len : Nat)
  | queueSend (i : Nat)
  | otherQueues
  | write (memory : Memory)

namespace Captured

variable {C : Type*} (c : C) (s : Captured C)

def onWorld (w : Conn C) : Captured C := { s with thread := s.thread.onWorld w }

def step : CaptureStep C → Option (Captured C)
  | .loopCall call => (s.thread.step c call).map fun thread => { s with thread := thread }
  | .swapFunctors =>
    match s.batch with
    | [] => some { s with loop := s.loop.swapFunctors.1, batch := s.loop.swapFunctors.2 }
    | _ :: _ => none
  | .runFunctor r =>
    match s.batch with
    | .sendInLoop bound :: rest =>
      let data := s.memory.read bound.data bound.len
      some { s.onWorld (s.thread.world.sendInLoop c data r) with batch := rest }
    | .other :: rest => some { s with batch := rest }
    | [] => none
  | .callSend data len =>
    if s.thread.world.conn.state = .kConnected then
      some { s with calling := s.calling ++ [⟨data, len, s.memory.read data len⟩] }
    else some s
  | .queueSend i =>
    match s.calling[i]? with
    | some bound =>
      some { s with
        loop := s.loop.queueInLoop false (.sendInLoop bound)
        calling := s.calling.eraseIdx i }
    | none => none
  | .otherQueues => some { s with loop := s.loop.queueInLoop false .other }
  | .write memory => some { s with memory := memory }

def machine : Machine (Captured C) (CaptureStep C) where
  init s := s.thread.Fresh ∧ s.loop = .new ∧ s.batch = [] ∧ s.calling = []
  step := step c

/-- The effect of a deferred send is that of `sendInLoop` on the string of its call. -/
def TransmitsCallValue : Prop :=
  ∀ bound rest r s', s.batch = .sendInLoop bound :: rest → s.step c (.runFunctor r) = some s' →
    s'.thread.world = s.thread.world.sendInLoop c bound.value r

/-- The sends that have captured a string and have not been run. -/
def held : List BoundSend :=
  s.calling ++ (s.batch ++ s.loop.pendingFunctors).filterMap BoundFunctor.bound?

/-- No captured character is changed before its functor has run. -/
def keepsCaptured : CaptureStep C → Bool
  | .write memory => s.held.all fun bound => (List.range bound.len).all fun i =>
      memory (bound.data + i) == s.memory (bound.data + i)
  | _ => true

/-- A string that is cleared after `send` has returned: the loop transmits the new characters. -/
theorem send_transmits_later_value :
    ¬ ∀ s : Captured Unit, (machine ()).Reachable s → s.TransmitsCallValue () := by
  intro hclaim
  let start : Captured Unit :=
    ⟨⟨⟨.new 7 false false 65536, ⟨fun _ => none, fun _ => none, []⟩, []⟩, none⟩, .new, [], [],
      fun _ => 104⟩
  let steps : List (CaptureStep Unit) :=
    [.loopCall .connectEstablished, .callSend 0 1, .queueSend 0, .write fun _ => 0, .swapFunctors]
  let after : Captured Unit → Option (List Byte) := fun s =>
    (s.step () (.runFunctor (.accepted 1))).map fun t => t.thread.world.wire
  have hend : ((machine ()).run start steps).map (fun s => (s.batch, after s)) =
      some ([.sendInLoop ⟨0, 1, [104]⟩], some [0]) := by decide +kernel
  obtain ⟨s, hrun, hs⟩ := Option.map_eq_some_iff.mp hend
  obtain ⟨hbatch, hafter⟩ := Prod.mk.inj hs
  obtain ⟨t, hstep, ht⟩ := Option.map_eq_some_iff.mp hafter
  have hstart : (machine ()).Reachable start := .init ⟨⟨7, _, _, _, _, rfl, rfl⟩, rfl, rfl, rfl⟩
  have hworld := hclaim s (hstart.run hrun) _ _ _ t hbatch hstep
  have hvalue : ((machine ()).run start steps).map
      (fun s => (s.thread.world.sendInLoop () [104] (.accepted 1)).wire) = some [104] := by
    decide +kernel
  rw [hrun] at hvalue
  have hcall : (s.thread.world.sendInLoop () [104] (.accepted 1)).wire = [104] :=
    Option.some.inj hvalue
  rw [hworld] at ht
  exact absurd (hcall.symm.trans ht) (by decide)

variable {c} {s}

theorem read_congr {memory memory' : Memory} {data len : Nat}
    (h : ∀ i < len, memory' (data + i) = memory (data + i)) :
    memory'.read data len = memory.read data len := by
  apply List.map_congr_left
  intro i hi
  exact h i (List.mem_range.mp hi)

theorem mem_held {bound : BoundSend} : bound ∈ s.held ↔ bound ∈ s.calling ∨
    .sendInLoop bound ∈ s.batch ∨ .sendInLoop bound ∈ s.loop.pendingFunctors := by
  have hbound (f : BoundFunctor) : f.bound? = some bound ↔ f = .sendInLoop bound := by
    cases f with
    | sendInLoop other => simp [BoundFunctor.bound?]
    | other => simp [BoundFunctor.bound?]
  simp [held, hbound]

/-- Every captured string is still in the memory. -/
def Intact (s : Captured C) : Prop :=
  ∀ bound ∈ s.held, s.memory.read bound.data bound.len = bound.value

theorem Intact.of_held {s s' : Captured C} (h : s.Intact) (hmemory : s'.memory = s.memory)
    (hheld : ∀ bound ∈ s'.held, bound ∈ s.held) : s'.Intact := by
  intro bound hbound
  rw [hmemory]
  exact h bound (hheld bound hbound)

theorem step_intact {s' : Captured C} {a : CaptureStep C} (hintact : s.Intact)
    (hkeeps : s.keepsCaptured a = true) (hstep : s.step c a = some s') : s'.Intact := by
  cases a with
  | loopCall call =>
    obtain ⟨thread, _, rfl⟩ := Option.map_eq_some_iff.mp hstep
    exact hintact.of_held rfl fun _ => id
  | swapFunctors =>
    unfold step at hstep
    dsimp only at hstep
    split at hstep
    · rename_i hbatch
      cases hstep
      refine hintact.of_held rfl ?_
      intro bound hbound
      rw [mem_held] at hbound ⊢
      rcases hbound with hbound | hbound | hbound
      · exact Or.inl hbound
      · exact Or.inr (Or.inr hbound)
      · cases hbound
    · cases hstep
  | runFunctor r =>
    unfold step at hstep
    dsimp only at hstep
    have hrest {f : BoundFunctor} {t : Captured C} (hbatch : s.batch = f :: t.batch)
        (hcalling : t.calling = s.calling) (hloop : t.loop = s.loop) :
        ∀ bound ∈ t.held, bound ∈ s.held := by
      intro bound hbound
      rw [mem_held, hcalling, hloop] at hbound
      rw [mem_held, hbatch]
      exact hbound.imp_right (Or.imp_left (List.mem_cons_of_mem _))
    split at hstep
    · rename_i hbatch
      cases hstep
      exact hintact.of_held rfl (hrest hbatch rfl rfl)
    · rename_i hbatch
      cases hstep
      exact hintact.of_held rfl (hrest hbatch rfl rfl)
    · cases hstep
  | callSend data len =>
    unfold step at hstep
    dsimp only at hstep
    split at hstep
    · cases hstep
      intro bound hbound
      rw [mem_held] at hbound
      rcases hbound with hbound | hbound
      · rcases List.mem_append.mp hbound with hbound | hbound
        · exact hintact bound (mem_held.mpr (Or.inl hbound))
        · rw [List.mem_singleton.mp hbound]
      · exact hintact bound (mem_held.mpr (Or.inr hbound))
    · cases hstep
      exact hintact
  | queueSend i =>
    unfold step at hstep
    dsimp only at hstep
    split at hstep
    · rename_i bound hbound
      cases hstep
      refine hintact.of_held rfl ?_
      intro other hother
      rw [mem_held] at hother ⊢
      rcases hother with hother | hother | hother
      · exact Or.inl (List.mem_of_mem_eraseIdx hother)
      · exact Or.inr (Or.inl hother)
      · rcases List.mem_append.mp hother with hother | hother
        · exact Or.inr (Or.inr hother)
        · cases List.mem_singleton.mp hother
          exact Or.inl (List.mem_of_getElem? hbound)
    · cases hstep
  | otherQueues =>
    cases hstep
    refine hintact.of_held rfl ?_
    intro bound hbound
    rw [mem_held] at hbound ⊢
    rcases hbound with hbound | hbound | hbound
    · exact Or.inl hbound
    · exact Or.inr (Or.inl hbound)
    · rcases List.mem_append.mp hbound with hbound | hbound
      · exact Or.inr (Or.inr hbound)
      · cases List.mem_singleton.mp hbound
  | write memory =>
    cases hstep
    intro bound hbound
    have hsame : ∀ i < bound.len, memory (bound.data + i) = s.memory (bound.data + i) := by
      intro i hi
      have hall := List.all_eq_true.mp hkeeps bound hbound
      exact beq_iff_eq.mp (List.all_eq_true.mp hall i (List.mem_range.mpr hi))
    exact (read_congr hsame).trans (hintact bound hbound)

/-- In the runs that keep the captured characters until their functor has run, every deferred send transmits the string of its call. -/
theorem send_transmits_call_value
    (h : (machine c).ReachableVia (fun s a => s.keepsCaptured a = true) s) :
    s.TransmitsCallValue c := by
  have hintact : s.Intact := by
    refine h.invariant (P := Intact) ?_ ?_
    · intro s hs bound hbound
      obtain ⟨_, hloop, hbatch, hcalling⟩ := hs
      rw [mem_held, hloop, hbatch, hcalling] at hbound
      rcases hbound with hbound | hbound | hbound <;> cases hbound
    · exact fun _ _ _ _ hkeeps hstep hintact => step_intact hintact hkeeps hstep
  intro bound rest r s' hbatch hstep
  have hread := hintact bound (mem_held.mpr (Or.inr (Or.inl (hbatch ▸ List.mem_cons_self))))
  unfold step at hstep
  dsimp only at hstep
  rw [hbatch] at hstep
  cases hstep
  rw [← hread]
  rfl

/-- A string that stays, next to memory that is overwritten. -/
theorem send_transmits_call_value_kept :
    let start : Captured Unit :=
      ⟨⟨⟨.new 7 false false 65536, ⟨fun _ => none, fun _ => none, []⟩, []⟩, none⟩, .new, [], [],
        fun _ => 104⟩
    let steps : List (CaptureStep Unit) :=
      [.loopCall .connectEstablished, .callSend 0 1, .queueSend 0,
        .write fun i => if i = 0 then 104 else 0, .swapFunctors]
    ∃ s, ((machine ()).restrict fun s a => s.keepsCaptured a = true).run start steps = some s ∧
      s.TransmitsCallValue () := by
  intro start steps
  have hruns : (((machine ()).restrict fun s a => s.keepsCaptured a = true).run start
      steps).isSome := by decide +kernel
  obtain ⟨s, hrun⟩ := Option.isSome_iff_exists.mp hruns
  have hstart : (machine ()).ReachableVia (fun s a => s.keepsCaptured a = true) start :=
    .init ⟨⟨7, _, _, _, _, rfl, rfl⟩, rfl, rfl, rfl⟩
  exact ⟨s, hrun, send_transmits_call_value (Machine.ReachableVia.run hstart hrun)⟩

end Captured

end LTMuduo
