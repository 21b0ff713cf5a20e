import LTMuduo.Connection.Descriptor
import LTMuduo.TcpServer.Lifecycle
import LTMuduo.TcpServer.LoopMoves
import LTMuduo.TcpServer.PerConnection

/-!
# Where the connections of a server are

No connection is stuck: one that is connecting has its `connectEstablished` in the queue of its loop, and one that is disconnected and still in the map has its `handleClose` or its `removeConnectionInLoop` before it. So when the loops have nothing left to do, the map has exactly the open connections, and nothing is left of the others.
-/

namespace LTMuduo

namespace LoopThread

variable {C : Type*} {c : C} {s s' : LoopThread C} {call : LoopCall C}

/-- What a call does to `state_`. A connection that becomes disconnected is in a function that is cut. -/
inductive StateMoves (s s' : LoopThread C) : Prop
  | same (hstate : s'.world.conn.state = s.world.conn.state)
  | connected (hbefore : s.world.conn.state = .kConnecting)
      (hafter : s'.world.conn.state = .kConnected)
  | halfClosed (hbefore : s.world.conn.state = .kConnected)
      (hafter : s'.world.conn.state = .kDisconnecting)
  | disconnected (hafter : s'.world.conn.state = .kDisconnected) (hresume : s'.resume ≠ none)

theorem step_state (hstep : step c s call = some s') : StateMoves s s' := by
  cases call with
  | connectEstablished =>
    obtain ⟨⟨_, hstate⟩, hsome⟩ := Option.ite_none_right_eq_some.mp hstep
    cases hsome
    exact .connected hstate rfl
  | send buf r =>
    cases hstep
    exact .same (s.world.send_registration c buf r).2
  | shutdown =>
    cases hstep
    rcases (s.world.shutdown_registration c).2 with hsame | ⟨hbefore, hafter⟩
    · exact .same hsame
    · exact .halfClosed hbefore hafter
  | retrieveInput len =>
    cases hstep
    exact .same rfl
  | handleRead r =>
    obtain ⟨_, hsome⟩ := Option.ite_none_right_eq_some.mp hstep
    cases hsome
    have hstate := (s.world.handleRead_registration c r).2
    split at hstate
    · rename_i hclosed
      exact .disconnected hstate (by rw [if_pos hclosed]; exact Option.some_ne_none _)
    · exact .same hstate
  | handleWrite r =>
    obtain ⟨_, hsome⟩ := Option.ite_none_right_eq_some.mp hstep
    cases hsome
    exact .same (s.world.handleWrite_registration c r).2
  | handleClose =>
    obtain ⟨_, hsome⟩ := Option.ite_none_right_eq_some.mp hstep
    cases hsome
    exact .disconnected rfl (Option.some_ne_none _)
  | handleError =>
    obtain ⟨_, hsome⟩ := Option.ite_none_right_eq_some.mp hstep
    cases hsome
    exact .same rfl
  | connectDestroyed =>
    obtain ⟨_, hsome⟩ := Option.ite_none_right_eq_some.mp hstep
    cases hsome
    by_cases hconnected : s.world.conn.state = .kConnected
    · refine .disconnected ?_ (Option.some_ne_none _)
      change (s.world.connectDestroyed c).conn.state = _
      rw [show s.world.connectDestroyed c = s.world.handleClose c from if_pos hconnected]
      rfl
    · refine .same ?_
      change (s.world.connectDestroyed c).conn.state = _
      rw [s.world.connectDestroyed_of_not_connected c hconnected]
  | resume =>
    unfold step at hstep
    dsimp only at hstep
    split at hstep
    · cases hstep
      exact .same rfl
    · cases hstep
      exact .same rfl
    · cases hstep
  | otherChannels poller =>
    cases hstep
    exact .same rfl

end LoopThread

namespace TcpServer

variable {n : Nat} {cfg : ServerConfig} {s s' : TcpServer n} {l : Fin (n + 1)} {c : Nat}
  {k k' : ServerConn n} {a : ServerStep n}

/-- `handleClose` is in its callback, or `removeConnectionInLoop` is queued. -/
def Closing (s : TcpServer n) (c : Nat) : Prop :=
  ∃ l, (s.loops l).frame = .closing c ∨ .removeConnectionInLoop c ∈ (s.loops l).queue

/-- What is to come for a connection that is not open. -/
structure Onward (s : TcpServer n) : Prop where
  connecting : ∀ c k, s.conns c = some k → k.conn.state = .kConnecting →
    .connectEstablished c ∈ (s.loops k.loop).queue
  closing : ∀ c k, s.conns c = some k → k.conn.state = .kDisconnected → s.InMap c k → s.Closing c
  known : ∀ name c, s.connections name = some c → ∃ k, s.conns c = some k

theorem new_onward : (new : TcpServer n).Onward :=
  ⟨fun _ _ hk => (new_conns hk).elim, fun _ _ hk => (new_conns hk).elim,
    fun _ _ hname => absurd hname.symm (Option.some_ne_none _)⟩

theorem newConnection_self (cfg : ServerConfig) (s : TcpServer n) (sockfd : Fd) :
    ∃ k, (s.newConnection cfg sockfd).conns s.nextConnId = some k ∧
      (k.conn.state = .kConnected ∨ k.conn.state = .kConnecting ∧
        .connectEstablished s.nextConnId ∈ ((s.newConnection cfg sockfd).loops k.loop).queue) := by
  let j : ServerConn n := ⟨.new sockfd cfg.writeCompleteCallback cfg.highWaterMarkCallback
    cfg.highWaterMark, (getNextLoop n s.next).1, connName cfg s.nextConnId, false, false⟩
  let added := s.addConnection j (getNextLoop n s.next).2
  have hj : added.conns s.nextConnId = some j := addConnection_self _
  change ∃ k, (added.runInLoop baseLoop j.loop (.connectEstablished s.nextConnId)).conns
    s.nextConnId = some k ∧ (_ ∨ _ ∧ .connectEstablished s.nextConnId ∈
      ((added.runInLoop baseLoop j.loop (.connectEstablished s.nextConnId)).loops k.loop).queue)
  unfold runInLoop
  split
  · have hcalled : added.call j.loop (.connectEstablished s.nextConnId) =
        added.putWorld s.nextConnId { j with established := true }
          ((added.world j).connectEstablished s.nextConnId) := by
      simp only [call, hj]
      rfl
    rw [hcalled]
    exact ⟨_, putWorld_conns _, Or.inl rfl⟩
  · refine ⟨j, hj, Or.inr ⟨rfl, ?_⟩⟩
    rw [queueInLoop, setLoop_self, IoLoop.queue_queueInLoop]
    exact List.mem_append_right _ (List.mem_singleton_self _)

theorem stateMoves (howned : s.Owned cfg) (hmoves : s.Moves cfg a s') (hk : s.conns c = some k)
    (hk' : s'.conns c = some k') :
    k'.loop = k.loop ∧ LoopThread.StateMoves (s.thread c k) (s'.thread c k') := by
  obtain ⟨j, call, log, hj, hloop, _, hcall⟩ := follows_step howned hk hmoves
  cases hk'.symm.trans hj
  refine ⟨hloop, ?_⟩
  cases LoopThread.step_state hcall with
  | same hstate => exact .same hstate
  | connected hbefore hafter => exact .connected hbefore hafter
  | halfClosed hbefore hafter => exact .halfClosed hbefore hafter
  | disconnected hafter hresume => exact .disconnected hafter hresume

theorem Consistent.name_eq (h : s.Consistent cfg) (h' : s'.Consistent cfg)
    (hk : s.conns c = some k) (hk' : s'.conns c = some k') : k'.name = k.name :=
  (h'.ids c k' hk').2.trans (h.ids c k hk).2.symm

theorem runFunctor_established (l : Fin (n + 1)) (rest : List LoopFunctor)
    (hk : s.conns c = some k) :
    ∃ k', ((s.setPhase l (.functors rest)).call l (.connectEstablished c)).conns c = some k' ∧
      k'.established = true ∧ k'.conn.state = .kConnected := by
  have hk' : (s.setPhase l (.functors rest)).conns c = some k := hk
  simp only [call, hk']
  exact ⟨_, putWorld_conns _, rfl, rfl⟩

theorem runFunctor_erased (l : Fin (n + 1)) (rest : List LoopFunctor)
    (hk : s.conns c = some k) :
    ((s.setPhase l (.functors rest)).call l (.removeConnectionInLoop c)).connections k.name =
      none := by
  have hk' : (s.setPhase l (.functors rest)).conns c = some k := hk
  simp only [call, hk']
  exact erase_self _

theorem removeConnection_erases (hk : s.conns c = some k) :
    (s.removeConnection l c).connections k.name = none ∧
        ((s.removeConnection l c).loops l).frame = .removing c ∨
      .removeConnectionInLoop c ∈ ((s.removeConnection l c).loops baseLoop).queue := by
  unfold removeConnection runInLoop
  split
  · rename_i hbase
    subst hbase
    left
    simp only [call, hk]
    refine ⟨erase_self _, ?_⟩
    rw [setFrame, setLoop_self]
  · right
    rw [queueInLoop, setLoop_self, IoLoop.queue_queueInLoop]
    exact List.mem_append_right _ (List.mem_singleton_self _)

theorem Onward.step_connecting (h : s.Onward) (howned : s.Owned cfg)
    (hstep : s.step cfg a = some s') (hk' : s'.conns c = some k')
    (hstate' : k'.conn.state = .kConnecting) :
    .connectEstablished c ∈ (s'.loops k'.loop).queue := by
  have hmoves := step_moves hstep
  cases hc : s.conns c with
  | none =>
    obtain ⟨sockfd, rfl, rfl⟩ := newConnection_of_none hc hstep hk'
    obtain ⟨j, hj, hconnected | ⟨_, hqueued⟩⟩ := newConnection_self cfg s sockfd
    · cases hk'.symm.trans hj
      rw [hconnected] at hstate'
      cases hstate'
    · cases hk'.symm.trans hj
      exact hqueued
  | some k =>
    obtain ⟨hloop, hstates⟩ := stateMoves howned hmoves hc hk'
    have hstate : k.conn.state = .kConnecting := by
      cases hstates with
      | same hsame => exact hsame.symm.trans hstate'
      | connected hbefore => exact hbefore
      | halfClosed _ hafter => exact absurd (hafter.symm.trans hstate') StateE.noConfusion
      | disconnected hafter => exact absurd (hafter.symm.trans hstate') StateE.noConfusion
    rw [hloop]
    rcases (loopMoves hmoves k.loop).mem_queue (h.connecting c k hc hstate) with
      hqueued | ⟨rfl, _, rest, hphase⟩
    · exact hqueued
    · exfalso
      cases hmoves with
      | runFunctor _ f rest' hphase' =>
        cases hphase.symm.trans hphase'
        obtain ⟨j, hj, _, hconnected⟩ := runFunctor_established k.loop rest hc
        cases hk'.symm.trans hj
        exact absurd (hconnected.symm.trans hstate') StateE.noConfusion

theorem Closing.step (h : s.Closing c) (hmoves : s.Moves cfg a s')
    (hk : s.conns c = some k) (hmap : s'.InMap c k) : s'.Closing c := by
  obtain ⟨l, hframe | hqueued⟩ := h
  · have hbusy : (s.loops l).frame ≠ .idle := by
      rw [hframe]
      exact Frame.noConfusion
    rcases (loopMoves hmoves l).cut hbusy with ⟨_, hsame⟩ | rfl
    · exact ⟨l, Or.inl (hsame.trans hframe)⟩
    · have hidle (hold : Frame) (hne : hold ≠ .closing c) : (s.loops l).frame ≠ hold := by
        rw [hframe]
        exact hne.symm
      cases hmoves with
      | resumeClosing _ d hframe' =>
        cases hframe.symm.trans hframe'
        rcases removeConnection_erases (s := s.setFrame l .idle) (l := l) hk with
          ⟨herased, _⟩ | hqueued
        · rw [InMap, herased] at hmap
          cases hmap
        · exact ⟨baseLoop, Or.inr hqueued⟩
      | resumeRemoving _ d j hframe' => exact absurd hframe' (hidle _ Frame.noConfusion)
      | resumeDestroying _ d j hframe' => exact absurd hframe' (hidle _ Frame.noConfusion)
  · rcases (loopMoves hmoves l).mem_queue hqueued with hqueued' | ⟨rfl, _, rest, hphase⟩
    · exact ⟨l, Or.inr hqueued'⟩
    · exfalso
      cases hmoves with
      | runFunctor _ f rest' hphase' =>
        cases hphase.symm.trans hphase'
        have herased := runFunctor_erased l rest hk
        rw [InMap, herased] at hmap
        cases hmap

theorem frame_of_resume {frame : Frame} (h : frame.resume c ≠ none) :
    frame = .closing c ∨ frame = .destroying c := by
  cases frame with
  | idle => exact absurd rfl h
  | removing d => exact absurd rfl h
  | closing d =>
    by_cases hdc : d = c
    · exact Or.inl (by rw [hdc])
    · exact absurd (Frame.resume_closing hdc) h
  | destroying d =>
    by_cases hdc : d = c
    · exact Or.inr (by rw [hdc])
    · exact absurd (Frame.resume_destroying hdc) h

theorem Onward.step_closing (h : s.Onward) (howned : s.Owned cfg) (howned' : s'.Owned cfg)
    (hstep : s.step cfg a = some s') (hk' : s'.conns c = some k')
    (hstate' : k'.conn.state = .kDisconnected) (hmap' : s'.InMap c k') : s'.Closing c := by
  have hmoves := step_moves hstep
  cases hc : s.conns c with
  | none =>
    obtain ⟨sockfd, rfl, rfl⟩ := newConnection_of_none hc hstep hk'
    obtain ⟨j, hj, hconnected | ⟨hconnecting, _⟩⟩ := newConnection_self cfg s sockfd
    · cases hk'.symm.trans hj
      exact absurd (hconnected.symm.trans hstate') StateE.noConfusion
    · cases hk'.symm.trans hj
      exact absurd (hconnecting.symm.trans hstate') StateE.noConfusion
  | some k =>
    have hname := howned.toConsistent.name_eq howned'.toConsistent hc hk'
    rw [InMap, hname] at hmap'
    have hbefore (hstate : k.conn.state = .kDisconnected) : s'.Closing c := by
      have hlt : c ≠ s.nextConnId := Nat.ne_of_lt (howned.ids c k hc).1
      exact (h.closing c k hc hstate (connections_step hmoves (fun _ => hlt) hmap')).step hmoves hc
        hmap'
    obtain ⟨_, hstates⟩ := stateMoves howned hmoves hc hk'
    cases hstates with
    | same hsame => exact hbefore (hsame.symm.trans hstate')
    | connected _ hafter => exact absurd (hafter.symm.trans hstate') StateE.noConfusion
    | halfClosed _ hafter => exact absurd (hafter.symm.trans hstate') StateE.noConfusion
    | disconnected _ hresume =>
      rcases frame_of_resume hresume with hclosing | hdestroying
      · exact ⟨_, Or.inl hclosing⟩
      · obtain ⟨i, hi, _, _, _, hgone⟩ := howned'.destroying (Or.inr hdestroying)
        cases hk'.symm.trans hi
        rw [InMap, hname] at hgone
        exact absurd hmap' hgone

theorem Onward.step_known (h : s.Onward) (howned : s.Owned cfg) (hstep : s.step cfg a = some s')
    {name : List Char} (hname : s'.connections name = some c) : ∃ k, s'.conns c = some k := by
  by_cases hnew : a.accepts = true ∧ c = s.nextConnId
  · obtain ⟨ha, rfl⟩ := hnew
    obtain ⟨sockfd, rfl⟩ := newConnection_of_accepts ha hstep
    obtain ⟨k, hk, _⟩ := newConnection_self cfg s sockfd
    exact ⟨k, hk⟩
  · have hmoves := step_moves hstep
    have hbefore := connections_step hmoves (fun ha hc => hnew ⟨ha, hc⟩) hname
    obtain ⟨k, hk⟩ := h.known name c hbefore
    obtain ⟨k', _, _, hk', _⟩ := follows_step howned hk hmoves
    exact ⟨k', hk'⟩

theorem Onward.step (h : s.Onward) (howned : s.Owned cfg) (howned' : s'.Owned cfg)
    (hstep : s.step cfg a = some s') : s'.Onward where
  connecting _ _ hk' hstate' := h.step_connecting howned hstep hk' hstate'
  closing _ _ hk' hstate' hmap' := h.step_closing howned howned' hstep hk' hstate' hmap'
  known _ _ hname := h.step_known howned hstep hname

theorem reachable_onward (h : (machine cfg).ReachableVia NextConnIdFits s) : s.Onward := by
  have hboth : s.Owned cfg ∧ s.Onward := by
    refine h.invariant (P := fun s => s.Owned cfg ∧ s.Onward) ?_ ?_
    · intro s hinit
      rw [hinit]
      exact ⟨new_owned cfg, new_onward⟩
    · intro s a s' _ hfits hstep ⟨howned, honward⟩
      have howned' := howned.step hfits hstep
      exact ⟨howned', honward.step howned howned' hstep⟩
  exact hboth.2

/-! ### A server at rest -/

/-- No functor is queued, and no function is cut. -/
def AtRest (s : TcpServer n) : Prop := ∀ l, (s.loops l).frame = .idle ∧ (s.loops l).queue = []

theorem AtRest.not_queued (h : s.AtRest) {f : LoopFunctor} : f ∉ (s.loops l).queue := by
  rw [(h l).2]
  exact List.not_mem_nil

theorem AtRest.not_heldByFunctor (h : s.AtRest) : ¬ s.HeldByFunctor c := by
  rintro ⟨l, hest | hrem | hdes | hframe | hframe⟩
  · exact h.not_queued hest
  · exact h.not_queued hrem
  · exact h.not_queued hdes
  · exact Frame.noConfusion ((h l).1.symm.trans hframe)
  · exact Frame.noConfusion ((h l).1.symm.trans hframe)

theorem AtRest.not_closing (h : s.AtRest) : ¬ s.Closing c := by
  rintro ⟨l, hframe | hrem⟩
  · exact Frame.noConfusion ((h l).1.symm.trans hframe)
  · exact h.not_queued hrem

instance (s : TcpServer n) : Decidable s.AtRest := inferInstanceAs (Decidable (∀ _, _))

end TcpServer

end LTMuduo
