import LTMuduo.Lib.LeadsTo
import LTMuduo.TcpServer.Onward
import Mathlib.Data.Prod.Lex

/-!
# Every connection is established, and every closed one destroyed

The loop threads of the server keep going: each of them takes steps again and again, since callbacks and functors return and `poll` returns after ten seconds at the latest. Then a functor that is queued is called, a function that is cut goes on, and so a connection goes all the way: from `newConnection` to `connectEstablished`, and from `handleClose` over the base loop to the end of `connectDestroyed`.
-/

namespace LTMuduo

/-- The callbacks that are left to a function that is cut. -/
def Frame.stepsToIdle : Frame → Nat
  | .idle => 0
  | .closing _ => 2
  | .removing _ => 1
  | .destroying _ => 1

/-- How far a loop is from the next call of a functor in its queue: the batches before it first, then the steps of the batch. -/
def IoLoop.stepsToCall (f : LoopFunctor) (x : IoLoop) : Nat ×ₗ Nat :=
  match x.phase with
  | .functors rest =>
    toLex (if f ∈ rest then 0 else 3, 3 * rest.length + x.frame.stepsToIdle)
  | .poll => toLex (2, x.frame.stepsToIdle)
  | .dispatch _ rest =>
    toLex (1, 3 * ((rest.flatMap Prod.snd).length + rest.length) + x.frame.stepsToIdle)

theorem Frame.stepsToIdle_le (frame : Frame) : frame.stepsToIdle ≤ 2 := by
  cases frame <;> simp [stepsToIdle]

theorem Frame.stepsToIdle_lt {frame next : Frame} (hbusy : frame ≠ .idle)
    (hnext : next = .idle ∨ ∃ c, frame = .closing c ∧ next = .removing c) :
    next.stepsToIdle < frame.stepsToIdle := by
  rcases hnext with rfl | ⟨c, rfl, rfl⟩
  · cases frame with
    | idle => exact absurd rfl hbusy
    | _ => simp [stepsToIdle]
  · simp [stepsToIdle]

theorem IoLoop.Extends.stepsToCall {x y : IoLoop} (h : x.Extends y) (f : LoopFunctor) :
    y.stepsToCall f = x.stepsToCall f := by
  rw [IoLoop.stepsToCall, IoLoop.stepsToCall, h.phase, h.frame]

namespace LoopMoves

variable {n : Nat} {l : Fin (n + 1)} {x y : IoLoop} {a : ServerStep n}

/-- Each step of the loop brings it nearer to the call of a functor, or is the call. -/
theorem nearer (h : LoopMoves l x a y) {f : LoopFunctor} (hf : f ∈ x.queue) :
    (a = .runFunctor l ∧ x.frame = .idle ∧ ∃ rest, x.phase = .functors (f :: rest)) ∨
      f ∈ y.queue ∧ y.stepsToCall f ≤ x.stepsToCall f ∧
        (a.OfLoop l → y.stepsToCall f < x.stepsToCall f) := by
  rcases h.mem_queue hf with hqueue | hcalled
  · have hless (hlt : y.stepsToCall f < x.stepsToCall f) :
        (a = .runFunctor l ∧ x.frame = .idle ∧ ∃ rest, x.phase = .functors (f :: rest)) ∨
          f ∈ y.queue ∧ y.stepsToCall f ≤ x.stepsToCall f ∧
            (a.OfLoop l → y.stepsToCall f < x.stepsToCall f) :=
      Or.inr ⟨hqueue, le_of_lt hlt, fun _ => hlt⟩
    cases h with
    | aside hother hext =>
      exact Or.inr ⟨hqueue, le_of_eq (hext.stepsToCall f), (absurd · hother)⟩
    | poll ready active rest hphase hidle hext =>
      refine hless ?_
      rw [hext.stepsToCall, IoLoop.stepsToCall, IoLoop.stepsToCall, hphase]
      exact Prod.Lex.toLex_lt_toLex.mpr (Or.inl (by simp))
    | eventCallback read write active c callback callbacks rest frame hphase hidle hext =>
      refine hless ?_
      have hcost := frame.stepsToIdle_le
      rw [hext.stepsToCall, IoLoop.stepsToCall, IoLoop.stepsToCall, hphase]
      refine Prod.Lex.toLex_lt_toLex.mpr (Or.inr ⟨rfl, ?_⟩)
      simp only [List.flatMap_cons, List.length_append, List.length_cons]
      omega
    | nextChannel active c rest hphase hidle hext =>
      refine hless ?_
      rw [hext.stepsToCall, IoLoop.stepsToCall, IoLoop.stepsToCall, hphase]
      refine Prod.Lex.toLex_lt_toLex.mpr (Or.inr ⟨rfl, ?_⟩)
      simp only [List.flatMap_cons, List.nil_append, List.length_cons]
      omega
    | resume frame hbusy hframe hext =>
      refine hless ?_
      have hcost := Frame.stepsToIdle_lt hbusy hframe
      rw [hext.stepsToCall, IoLoop.stepsToCall, IoLoop.stepsToCall]
      dsimp only
      split <;> exact Prod.Lex.toLex_lt_toLex.mpr (Or.inr ⟨rfl, by omega⟩)
    | swapFunctors active hphase hidle hext =>
      refine hless ?_
      have hpending : f ∈ x.loop.pendingFunctors := by
        rw [IoLoop.queue, hphase] at hf
        exact hf
      rw [hext.stepsToCall, IoLoop.stepsToCall, IoLoop.stepsToCall, hphase]
      exact Prod.Lex.toLex_lt_toLex.mpr (Or.inl (by simp [hpending]))
    | runFunctor g rest frame hphase hidle hext =>
      by_cases hfg : f = g
      · subst hfg
        exact Or.inl ⟨rfl, hidle, rest, hphase⟩
      · refine hless ?_
        have hcost := frame.stepsToIdle_le
        rw [hext.stepsToCall, IoLoop.stepsToCall, IoLoop.stepsToCall, hphase]
        refine Prod.Lex.toLex_lt_toLex.mpr (Or.inr ⟨?_, ?_⟩)
        · simp [hfg]
        · simp only [List.length_cons]
          omega
    | endFunctors hphase hidle hext =>
      refine hless ?_
      rw [hext.stepsToCall, IoLoop.stepsToCall, IoLoop.stepsToCall, hphase]
      exact Prod.Lex.toLex_lt_toLex.mpr (Or.inl (by simp))
  · exact Or.inl hcalled

end LoopMoves

namespace TcpServer

variable {n : Nat} {cfg : ServerConfig}

/-- The server with fewer than 2^31 connections. -/
def bounded (cfg : ServerConfig) : Machine (TcpServer n) (ServerStep n) :=
  (machine cfg).restrict NextConnIdFits

variable {s s' : TcpServer n} {a : ServerStep n} {l : Fin (n + 1)} {c : Nat} {k : ServerConn n}
  {r : (bounded (n := n) cfg).Trace}

theorem bounded_reachable (h : (bounded cfg).Reachable s) :
    (machine cfg).ReachableVia NextConnIdFits s := .of_restrict h

theorem bounded_moves (h : (bounded cfg).step s a = some s') : s.Moves cfg a s' :=
  step_moves (Option.ite_none_right_eq_some.mp h).2

/-- All loop threads keep going. -/
def KeepGoing (r : (bounded (n := n) cfg).Trace) : Prop := ∀ l, r.Recurs (ServerStep.OfLoop l)

/-! ### The loops -/

theorem functor_called (hgo : KeepGoing r) {f : LoopFunctor} {Q : TcpServer n → Prop}
    (hcall : ∀ s rest, (bounded cfg).Reachable s → (s.loops l).phase = .functors (f :: rest) →
      Q ((s.setPhase l (.functors rest)).call l f)) :
    r.LeadsTo (fun s => f ∈ (s.loops l).queue) Q := by
  refine Machine.Trace.leadsTo_of_recurs (fun s => (s.loops l).stepsToCall f) (hgo l) ?_
  intro s a s' hreach hqueue hstep
  have hmoves := bounded_moves hstep
  rcases (loopMoves hmoves l).nearer hqueue with ⟨rfl, _, rest, hphase⟩ | hnearer
  · left
    cases hmoves with
    | runFunctor _ g rest' hphase' =>
      cases hphase.symm.trans hphase'
      exact hcall s rest hreach hphase
  · exact Or.inr hnearer

theorem frame_resumed (hgo : KeepGoing r) {frame : Frame} (hbusy : frame ≠ .idle)
    {Q : TcpServer n → Prop}
    (hresume : ∀ s s', (bounded cfg).Reachable s → (s.loops l).frame = frame →
      s.Moves cfg (.resume l) s' → Q s') :
    r.LeadsTo (fun s => (s.loops l).frame = frame) Q := by
  refine Machine.Trace.leadsTo_of_recurs (fun _ => 0) (hgo l) ?_
  intro s a s' hreach hframe hstep
  have hmoves := bounded_moves hstep
  have hcut : (s.loops l).frame ≠ .idle := by rwa [hframe]
  rcases (loopMoves hmoves l).cut hcut with ⟨hother, hsame⟩ | rfl
  · exact Or.inr ⟨hsame.trans hframe, le_refl _, (absurd · hother)⟩
  · exact Or.inl (hresume s s' hreach hframe hmoves)

/-! ### The way of a connection -/

/-- `connectDestroyed` has run to its end. -/
def IsDestroyed (c : Nat) (s : TcpServer n) : Prop := ∃ k, s.conns c = some k ∧ k.destroyed = true

theorem known_of_token (h : (bounded cfg).Reachable s) {hold : Hold}
    (ht : ⟨hold, c⟩ ∈ (s.loops l).tokens) : ∃ k, s.conns c = some k := by
  obtain ⟨k, hk, _⟩ := (reachable_owned (bounded_reachable h)).token ht
  exact ⟨k, hk⟩

theorem known_of_batch (h : (bounded cfg).Reachable s) {f : LoopFunctor} {rest : List LoopFunctor}
    (hphase : (s.loops l).phase = .functors (f :: rest)) {hold : Hold} (hf : ⟨hold, c⟩ ∈ f.tokens) :
    ∃ k, s.conns c = some k := by
  refine known_of_token (l := l) h (mem_tokens_queue ?_ hf)
  rw [queue_functors hphase]
  exact List.mem_cons_self

theorem established_called (hgo : KeepGoing r) :
    r.LeadsTo (fun s => .connectEstablished c ∈ (s.loops l).queue)
      (fun s => ∃ k, s.conns c = some k ∧ k.established = true) := by
  refine functor_called hgo ?_
  intro s rest hreach hphase
  obtain ⟨k, hk⟩ := known_of_batch hreach hphase (List.mem_singleton_self _)
  obtain ⟨k', hk', hestablished, _⟩ := runFunctor_established l rest hk
  exact ⟨k', hk', hestablished⟩

theorem destroying_resumed (hgo : KeepGoing r) :
    r.LeadsTo (fun s => (s.loops l).frame = .destroying c) (IsDestroyed c) := by
  refine frame_resumed hgo Frame.noConfusion ?_
  intro s s' _ hframe hmoves
  cases hmoves with
  | resumeClosing _ d hframe' => exact absurd (hframe.symm.trans hframe') Frame.noConfusion
  | resumeRemoving _ d k hframe' => exact absurd (hframe.symm.trans hframe') Frame.noConfusion
  | resumeDestroying _ d k hframe' hk =>
    cases hframe.symm.trans hframe'
    exact ⟨_, putWorld_conns _, rfl⟩

theorem connectDestroyed_called (hgo : KeepGoing r) :
    r.LeadsTo (fun s => .connectDestroyed c ∈ (s.loops l).queue)
      (fun s => (s.loops l).frame = .destroying c) := by
  refine functor_called hgo ?_
  intro s rest hreach hphase
  obtain ⟨k, hk⟩ := known_of_batch hreach hphase (List.mem_singleton_self _)
  have hk' : (s.setPhase l (.functors rest)).conns c = some k := hk
  simp only [call, hk']
  rw [setFrame, setLoop_self]

theorem removing_resumed (hgo : KeepGoing r) :
    r.LeadsTo (fun s => (s.loops l).frame = .removing c)
      (fun s => ∃ m, .connectDestroyed c ∈ (s.loops m).queue) := by
  refine frame_resumed hgo Frame.noConfusion ?_
  intro s s' _ hframe hmoves
  cases hmoves with
  | resumeClosing _ d hframe' => exact absurd (hframe.symm.trans hframe') Frame.noConfusion
  | resumeDestroying _ d k hframe' => exact absurd (hframe.symm.trans hframe') Frame.noConfusion
  | resumeRemoving _ d k hframe' hk =>
    cases hframe.symm.trans hframe'
    refine ⟨k.loop, ?_⟩
    rw [queueInLoop, setLoop_self, IoLoop.queue_queueInLoop]
    exact List.mem_append_right _ (List.mem_singleton_self _)

theorem removeConnectionInLoop_called (hgo : KeepGoing r) :
    r.LeadsTo (fun s => .removeConnectionInLoop c ∈ (s.loops l).queue)
      (fun s => (s.loops l).frame = .removing c) := by
  refine functor_called hgo ?_
  intro s rest hreach hphase
  obtain ⟨k, hk⟩ := known_of_batch hreach hphase (List.mem_singleton_self _)
  have hk' : (s.setPhase l (.functors rest)).conns c = some k := hk
  simp only [call, hk']
  rw [setFrame, setLoop_self]

theorem closing_resumed (hgo : KeepGoing r) :
    r.LeadsTo (fun s => (s.loops l).frame = .closing c)
      (fun s => (s.loops l).frame = .removing c ∨
        .removeConnectionInLoop c ∈ (s.loops baseLoop).queue) := by
  refine frame_resumed hgo Frame.noConfusion ?_
  intro s s' hreach hframe hmoves
  cases hmoves with
  | resumeRemoving _ d k hframe' => exact absurd (hframe.symm.trans hframe') Frame.noConfusion
  | resumeDestroying _ d k hframe' => exact absurd (hframe.symm.trans hframe') Frame.noConfusion
  | resumeClosing _ d hframe' =>
    cases hframe.symm.trans hframe'
    have htoken : ⟨.closing, c⟩ ∈ (s.loops l).tokens := by
      refine mem_tokens_frame ?_
      rw [hframe]
      exact List.mem_singleton_self _
    obtain ⟨k, hk⟩ := known_of_token hreach htoken
    exact (removeConnection_erases (s := s.setFrame l .idle) (l := l) hk).imp_left And.right

theorem leaving_destroyed (hgo : KeepGoing r) :
    r.LeadsTo (fun s => s.Closing c ∨ s.HeldByFunctor c ∧ ∀ l,
      .connectEstablished c ∉ (s.loops l).queue) (IsDestroyed c) := by
  have hdestroying (l : Fin (n + 1)) :
      r.LeadsTo (fun s => (s.loops l).frame = .destroying c) (IsDestroyed c) := destroying_resumed hgo
  have hdestroy (l : Fin (n + 1)) :
      r.LeadsTo (fun s => .connectDestroyed c ∈ (s.loops l).queue) (IsDestroyed c) :=
    (connectDestroyed_called hgo).trans (hdestroying l)
  have hremoving (l : Fin (n + 1)) :
      r.LeadsTo (fun s => (s.loops l).frame = .removing c) (IsDestroyed c) :=
    (removing_resumed hgo).trans (.exists hdestroy)
  have hremove (l : Fin (n + 1)) :
      r.LeadsTo (fun s => .removeConnectionInLoop c ∈ (s.loops l).queue) (IsDestroyed c) :=
    (removeConnectionInLoop_called hgo).trans (hremoving l)
  have hclosing (l : Fin (n + 1)) :
      r.LeadsTo (fun s => (s.loops l).frame = .closing c) (IsDestroyed c) :=
    (closing_resumed hgo).trans ((hremoving l).or (hremove baseLoop))
  intro i hi
  rcases hi with ⟨l, hframe | hqueued⟩ | ⟨⟨l, hest | hrem | hdes | hframe | hframe⟩, hnot⟩
  · exact hclosing l i hframe
  · exact hremove l i hqueued
  · exact absurd hest (hnot l)
  · exact hremove l i hrem
  · exact hdestroy l i hdes
  · exact hremoving l i hframe
  · exact hdestroying l i hframe

/-- The loop is in `poll` with nothing to do. -/
def LoopIdle (s : TcpServer n) (l : Fin (n + 1)) : Prop :=
  (s.loops l).phase = .poll ∧ (s.loops l).frame = .idle ∧
    (s.loops l).loop.pendingFunctors = [] ∧ (s.loops l).loop.callingPendingFunctors = false

instance (s : TcpServer n) (l : Fin (n + 1)) : Decidable (s.LoopIdle l) :=
  inferInstanceAs (Decidable (_ ∧ _))

theorem run_idle {guard : TcpServer n → ServerStep n → Prop} [∀ s a, Decidable (guard s a)]
    (hguard : ∀ s a, a.accepts = false → guard s a) (h : s.LoopIdle l) :
    ((machine cfg).restrict guard).run s [.poll l [], .swapFunctors l, .endFunctors l] = some s := by
  obtain ⟨hphase, hidle, hpending, hcalling⟩ := h
  have hstep {t t' : TcpServer n} {a : ServerStep n} (ha : a.accepts = false)
      (hs : t.step cfg a = some t') : ((machine cfg).restrict guard).step t a = some t' := by
    rw [Machine.restrict_step, if_pos (hguard t a ha)]
    exact hs
  have hpoll : s.step cfg (.poll l []) = some (s.setPhase l (.dispatch [] [])) := by
    simp [step, hphase, hidle, fillActiveChannels]
  have hswap : (s.setPhase l (.dispatch [] [])).step cfg (.swapFunctors l) =
      some (s.setLoop l { s.loops l with
        loop := (s.loops l).loop.beginPendingFunctors
        phase := .functors [] }) := by
    simp [step, setPhase, hidle, hpending, setLoop_setLoop, EventLoop.beginPendingFunctors,
      EventLoop.swapFunctors]
  have hend : (s.setLoop l { s.loops l with
      loop := (s.loops l).loop.beginPendingFunctors
      phase := .functors [] }).step cfg (.endFunctors l) = some s := by
    simp only [step, setLoop_self, hidle, setLoop_setLoop, EventLoop.beginPendingFunctors,
      EventLoop.endPendingFunctors]
    rw [← hphase, ← hidle, ← hcalling, setLoop, Function.update_eq_self]
  rw [Machine.run_cons, hstep rfl hpoll, Option.bind_some, Machine.run_cons, hstep rfl hswap,
    Option.bind_some, Machine.run_cons, hstep rfl hend, Option.bind_some, Machine.run_nil]

end TcpServer

end LTMuduo
