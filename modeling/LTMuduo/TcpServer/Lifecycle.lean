import LTMuduo.TcpServer.Steps

/-!
# Ownership and the order of a connection's life

What the invariant says without its tokens: who holds a connection while a poller or a batch knows its channel, and in which order its functions run.
-/

namespace LTMuduo.TcpServer

variable {n : Nat} {cfg : ServerConfig} (s : TcpServer n) {l : Fin (n + 1)} {c : Nat}
  {k : ServerConn n}

/-- A table of a poller has an entry for the channel. -/
def IsRegistered (c : Nat) : Prop :=
  ∃ l fd, (s.loops l).poller.channels fd = some c ∨
    ∃ events, (s.loops l).poller.kernel fd = some (events, c)

/-- A loop dispatches a batch with the channel. -/
def IsListed (c : Nat) : Prop := ∃ l, c ∈ (s.loops l).phase.active

/-- A functor with a reference to the connection is queued, or has been called and has not returned. -/
def HeldByFunctor (c : Nat) : Prop :=
  ∃ l, .connectEstablished c ∈ (s.loops l).queue ∨ .removeConnectionInLoop c ∈ (s.loops l).queue ∨
    .connectDestroyed c ∈ (s.loops l).queue ∨ (s.loops l).frame = .removing c ∨
    (s.loops l).frame = .destroying c

/-- `connectDestroyed` is queued on loop `l`, or runs there. -/
def Destroying (l : Fin (n + 1)) (c : Nat) : Prop :=
  .connectDestroyed c ∈ (s.loops l).queue ∨ (s.loops l).frame = .destroying c

variable {s}

theorem Kept.held (h : s.Kept c k) : s.InMap c k ∨ s.HeldByFunctor c := by
  cases h with
  | inl hmap => exact Or.inl hmap
  | inr hheld =>
    right
    obtain ⟨l, hold, hcarries, hmem⟩ := hheld
    refine ⟨l, ?_⟩
    rcases (IoLoop.mem_tokens _).mp hmem with hframe | ⟨f, hf, hin⟩ | ⟨e, _, heq⟩
    · cases hx : (s.loops l).frame <;> rw [hx] at hframe <;> simp [Frame.tokens] at hframe
      · obtain ⟨rfl, rfl⟩ := hframe
        exact absurd hcarries id
      · obtain ⟨rfl, rfl⟩ := hframe
        simp
      · obtain ⟨rfl, rfl⟩ := hframe
        simp
    · cases f <;> simp [LoopFunctor.tokens] at hin
      · obtain ⟨rfl, rfl⟩ := hin
        exact absurd hcarries id
      · obtain ⟨rfl, rfl⟩ := hin
        exact absurd hcarries id
      · obtain ⟨rfl, rfl⟩ := hin
        simp [hf]
    · cases heq
      exact absurd hcarries id

theorem Destroying.token (h : s.Destroying l c) :
    ⟨.destroy, c⟩ ∈ (s.loops l).tokens ∨ ⟨.destroying, c⟩ ∈ (s.loops l).tokens := by
  rcases h with hqueued | hframe
  · exact Or.inl (mem_tokens_queue hqueued (List.mem_singleton_self _))
  · right
    apply mem_tokens_frame
    rw [hframe]
    exact List.mem_singleton_self _

theorem Consistent.registered (h : s.Consistent cfg) (hc : s.IsRegistered c) :
    ∃ k, s.conns c = some k ∧ k.destroyed = false := by
  obtain ⟨l, fd, hchannels | ⟨events, hkernel⟩⟩ := hc
  · obtain ⟨k, hk, hregistered⟩ := h.channels l fd c hchannels
    exact ⟨k, hk, hregistered.alive⟩
  · obtain ⟨k, hk, hregistered, _⟩ := h.kernel l fd events c hkernel
    exact ⟨k, hk, hregistered.alive⟩

theorem Consistent.listed (h : s.Consistent cfg) (hc : c ∈ (s.loops l).phase.active) :
    ∃ k, s.conns c = some k ∧ k.loop = l ∧ k.established = true ∧ k.destroyed = false :=
  h.token (mem_tokens_listed hc)

/-- A callback of connection `c` is the next thing that loop `l` does. -/
def Handles (s : TcpServer n) (l : Fin (n + 1)) (c : Nat) : Prop :=
  ∃ callback callbacks rest, (s.loops l).phase.rest = (c, callback :: callbacks) :: rest

theorem Consistent.destroying (h : s.Consistent cfg) (hc : s.Destroying l c) :
    ∃ k, s.conns c = some k ∧ k.loop = l ∧ k.established = true ∧
      k.conn.state = .kDisconnected ∧ ¬ s.InMap c k := by
  have hmeets : ∃ k, s.conns c = some k ∧ k.loop = l ∧ k.conn.state = .kDisconnected ∧
      ¬ s.InMap c k := by
    rcases hc.token with hdestroy | hdestroying
    · exact h.token hdestroy
    · exact h.token hdestroying
  obtain ⟨k, hk, hloop, hstate, hmap⟩ := hmeets
  refine ⟨k, hk, hloop, ?_, hstate, hmap⟩
  rw [(h.life c k hk).established, hstate]
  decide

/-- In every state that a server reaches with fewer than 2^31 connections: a callback of a connection that comes next comes after `connectEstablished` and before the end of `connectDestroyed`; while a poller or a batch knows the channel, the map or a functor holds the connection; and `connectDestroyed` belongs to the loop of the connection and its batches of functors, comes after `connectEstablished`, `handleClose` and the `erase`, and leaves no trace of the channel. -/
theorem ownership (h : (machine cfg).ReachableVia NextConnIdFits s) :
    (∀ l c, s.Handles l c → ∃ k, s.conns c = some k ∧ k.loop = l ∧ k.established = true ∧
      k.destroyed = false) ∧
    (∀ c, s.IsRegistered c ∨ s.IsListed c →
      ∃ k, s.conns c = some k ∧ (s.InMap c k ∨ s.HeldByFunctor c)) ∧
    (∀ l c, s.Destroying l c → ∃ k, s.conns c = some k ∧ k.loop = l ∧ k.established = true ∧
      k.conn.state = .kDisconnected ∧ ¬ s.InMap c k) ∧
    (∀ l c, (s.loops l).frame = .destroying c → ∃ rest, (s.loops l).phase = .functors rest) ∧
    (∀ c k, s.conns c = some k → k.destroyed = true →
      ¬ s.InMap c k ∧ ¬ s.IsRegistered c ∧ ¬ s.IsListed c) := by
  have howned := reachable_owned h
  have halive (c : Nat) (hc : s.IsRegistered c ∨ s.IsListed c) :
      ∃ k, s.conns c = some k ∧ k.destroyed = false := by
    rcases hc with hregistered | ⟨l, hlisted⟩
    · exact howned.registered hregistered
    · obtain ⟨k, hk, _, _, hlives⟩ := howned.listed hlisted
      exact ⟨k, hk, hlives⟩
  refine ⟨?_, ?_, ?_, ?_, ?_⟩
  · intro l c hhandles
    obtain ⟨callback, callbacks, rest, hrest⟩ := hhandles
    apply howned.listed
    apply (howned.wellFormed l).rest c (callback :: callbacks)
    rw [hrest]
    exact List.mem_cons_self
  · intro c hc
    obtain ⟨k, hk, hlives⟩ := halive c hc
    exact ⟨k, hk, (howned.kept c k hk hlives).held⟩
  · intro l c hdestroying
    exact howned.destroying hdestroying
  · intro l c hframe
    exact (howned.wellFormed l).destroying c hframe
  · intro c k hk hdestroyed
    have hneither : ¬ (s.IsRegistered c ∨ s.IsListed c) := by
      intro hc
      obtain ⟨j, hj, hlives⟩ := halive c hc
      cases hk.symm.trans hj
      exact absurd (hdestroyed.symm.trans hlives) nofun
    exact ⟨howned.gone c k hk hdestroyed, fun hc => hneither (Or.inl hc),
      fun hc => hneither (Or.inr hc)⟩

/-- The io loop still dispatches a batch with the channel when `connectDestroyed` is in its queue. -/
theorem ownership_in_batch :
    let cfg : ServerConfig := ⟨['s'], ['0', ':', '9'], by decide, false, false, 64⟩
    let steps : List (ServerStep 1) := [.poll 0 [], .newConnection 5, .poll 1 [], .swapFunctors 1,
      .runFunctor 1, .endFunctors 1, .poll 1 [(5, EPOLLHUP ||| EPOLLOUT)],
      .eventCallback 1 (.delivered []) (.accepted 0), .resume 1, .swapFunctors 0, .runFunctor 0,
      .resume 0]
    ∃ s, ((machine cfg).restrict NextConnIdFits).run new steps = some s ∧
      (∃ k, s.conns 1 = some k ∧ k.loop = 1 ∧ k.established = true ∧ k.destroyed = false) ∧
      (∃ k, s.conns 1 = some k ∧ (s.InMap 1 k ∨ s.HeldByFunctor 1)) ∧
      ∃ k, s.conns 1 = some k ∧ k.loop = 1 ∧ k.established = true ∧
        k.conn.state = .kDisconnected ∧ ¬ s.InMap 1 k := by
  intro cfg steps
  have hend : (((machine cfg).restrict NextConnIdFits).run new steps).map
      (fun s => ((s.loops 1).phase, (s.loops 1).queue))
      = some (.dispatch [1] [(1, [.writeCallback])], [.connectDestroyed 1]) := by decide +kernel
  obtain ⟨s, hrun, hs⟩ := Option.map_eq_some_iff.mp hend
  obtain ⟨hphase, hqueue⟩ := Prod.mk.inj hs
  have hreach : (machine cfg).ReachableVia NextConnIdFits s := .run (.init rfl) hrun
  obtain ⟨hhandled, hheld, hdestroying, _, _⟩ := ownership hreach
  refine ⟨s, hrun, hhandled 1 1 ?_, hheld 1 (Or.inr ⟨1, ?_⟩), hdestroying 1 1 (Or.inl ?_)⟩
  · exact ⟨.writeCallback, [], [], by rw [hphase]; rfl⟩
  · rw [hphase]
    exact List.mem_singleton_self _
  · rw [hqueue]
    exact List.mem_singleton_self _

end LTMuduo.TcpServer
