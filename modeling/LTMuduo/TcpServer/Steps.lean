import LTMuduo.TcpServer.Handover

/-!
# The steps of the loops

Every step of the machine keeps `Owned`, for as long as `nextConnId_` has not left the range of an `int`.
-/

namespace LTMuduo.TcpServer

variable {n : Nat} {cfg : ServerConfig} {s s' : TcpServer n} {l : Fin (n + 1)} {c : Nat}
  {k : ServerConn n}

theorem Consistent.token (h : s.Consistent cfg) {t : Token} (ht : t ∈ (s.loops l).tokens) :
    ∃ k, s.conns t.conn = some k ∧ t.hold.Meets l k (s.InMap t.conn k) := h.tokens l t ht

theorem mem_tokens_frame {hold : Hold} (h : ⟨hold, c⟩ ∈ (s.loops l).frame.tokens) :
    ⟨hold, c⟩ ∈ (s.loops l).tokens := (IoLoop.mem_tokens _).mpr (Or.inl h)

theorem mem_tokens_listed (h : c ∈ (s.loops l).phase.active) :
    ⟨.listed, c⟩ ∈ (s.loops l).tokens :=
  (IoLoop.mem_tokens _).mpr (Or.inr (Or.inr ⟨c, h, rfl⟩))

theorem mem_tokens_queue {f : LoopFunctor} {t : Token} (h : f ∈ (s.loops l).queue)
    (ht : t ∈ f.tokens) : t ∈ (s.loops l).tokens :=
  (IoLoop.mem_tokens _).mpr (Or.inr (Or.inl ⟨f, h, ht⟩))

/-! ### User code -/

theorem Owned.send (h : s.Owned cfg) (hk : s.conns c = some k) (buf : List Byte)
    (r : WriteResult) : (s.putWorld c k ((s.world k).send c buf r)).Owned cfg := by
  by_cases hconnected : k.conn.state = .kConnected
  · obtain ⟨hregistration, hstate⟩ := (s.world k).send_registration c buf r
    change _ = k.conn.state at hstate
    apply h.putWorld_established hk
    · rw [(h.life c k hk).established, hconnected]
      decide
    · exact (h.life c k hk).alive (by rw [hconnected]; decide)
    · exact hregistration
    · rw [hstate, hconnected]
      decide
    · intro hdisconnected
      rw [hstate, hdisconnected]
  · have hsend : (s.world k).send c buf r = s.world k := if_neg hconnected
    rw [hsend, putWorld_self hk]
    exact h

theorem Owned.shutdown (h : s.Owned cfg) (hk : s.conns c = some k) :
    (s.putWorld c k (s.world k).shutdown).Owned cfg := by
  by_cases hconnected : k.conn.state = .kConnected
  · obtain ⟨hregistration, hstate⟩ := (s.world k).shutdown_registration c
    apply h.putWorld_established hk
    · rw [(h.life c k hk).established, hconnected]
      decide
    · exact (h.life c k hk).alive (by rw [hconnected]; decide)
    · exact hregistration
    · rcases hstate with hsame | ⟨_, hdisconnecting⟩
      · change _ = k.conn.state at hsame
        rw [hsame, hconnected]
        decide
      · rw [hdisconnecting]
        decide
    · rw [hconnected]
      nofun
  · have hshutdown : (s.world k).shutdown = s.world k := if_neg hconnected
    rw [hshutdown, putWorld_self hk]
    exact h

/-! ### A batch of events -/

theorem Owned.eventCallback (h : s.Owned cfg) (hk : s.conns c = some k)
    (hlisted : c ∈ (s.loops l).phase.active) (hidle : (s.loops l).frame = .idle)
    (read : ReadvResult) (write : WriteResult) (callback : EventCallback) :
    (s.eventCallback l c k read write callback).Owned cfg := by
  obtain ⟨j, hj, hloop, hestablished, halive⟩ := h.token (mem_tokens_listed hlisted)
  cases hk.symm.trans hj
  subst l
  have hstate := (h.life c k hk).established.mp hestablished
  have hclose {w : Conn Nat} (hw : Conn.Registration c (s.world k) w)
      (hdisconnected : w.conn.state = .kDisconnected) :
      ((s.putWorld c k w).setFrame k.loop (.closing c)).Owned cfg := by
    have hput : (s.putWorld c k w).Owned cfg := by
      apply h.putWorld_established hk hestablished halive hw
      · rw [hdisconnected]
        decide
      · exact fun _ => hdisconnected
    apply hput.setFrame_closing (putWorld_conns w) rfl hdisconnected
    · rw [putWorld_loops]
      exact hidle
    · rw [putWorld_loops]
      exact hlisted
  cases callback with
  | closeCallback =>
    obtain ⟨hregistration, hdisconnected⟩ := (s.world k).handleClose_registration c
    exact hclose hregistration hdisconnected
  | errorCallback =>
    rw [TcpServer.eventCallback, Conn.handleError, putWorld_self hk]
    exact h
  | readCallback =>
    obtain ⟨hregistration, hread⟩ := (s.world k).handleRead_registration c read
    unfold TcpServer.eventCallback
    dsimp only
    split
    · rename_i hzero
      rw [if_pos hzero] at hread
      exact hclose hregistration hread
    · rename_i hnonzero
      rw [if_neg hnonzero] at hread
      apply h.putWorld_established hk hestablished halive hregistration
      · rwa [hread]
      · exact fun hdisconnected => hread.trans hdisconnected
  | writeCallback =>
    obtain ⟨hregistration, hwrite⟩ := (s.world k).handleWrite_registration c write
    apply h.putWorld_established hk hestablished halive hregistration
    · rwa [hwrite]
    · exact fun hdisconnected => hwrite.trans hdisconnected

theorem Consistent.mem_fillActiveChannels (h : s.Consistent cfg) {ready : List (Fd × Events)}
    (hc : c ∈ (fillActiveChannels (s.loops l).poller ready).map Prod.fst) :
    s.TokenOk l ⟨.listed, c⟩ := by
  obtain ⟨⟨e, callbacks⟩, hmem, hec⟩ := List.mem_map.mp hc
  obtain ⟨⟨fd, revents⟩, _, hentry⟩ := List.mem_filterMap.mp hmem
  obtain ⟨⟨ev, d⟩, hkernel, hd⟩ := Option.map_eq_some_iff.mp hentry
  cases hd
  cases hec
  obtain ⟨k, hk, hregistered, _⟩ := h.kernel l fd ev _ hkernel
  exact ⟨k, hk, hregistered.loop, hregistered.established, hregistered.alive⟩

theorem Owned.poll (h : s.Owned cfg) (hphase : (s.loops l).phase = .poll)
    (hidle : (s.loops l).frame = .idle) (ready : List (Fd × Events)) :
    let batch := fillActiveChannels (s.loops l).poller ready
    (s.setPhase l (.dispatch (batch.map Prod.fst) batch)).Owned cfg := by
  intro batch
  have hqueue : ({ s.loops l with phase := .dispatch (batch.map Prod.fst) batch } : IoLoop).queue
      = (s.loops l).queue := by
    rw [IoLoop.queue_of_phase hphase]
    rfl
  apply h.setLoop
  · rfl
  · refine ⟨?_, ?_, ?_⟩
    · exact fun c hc => absurd (hidle.symm.trans hc) nofun
    · exact fun c hc => absurd (hidle.symm.trans hc) nofun
    · exact fun c callbacks hmem => List.mem_map_of_mem hmem
  · intro c
    rw [hqueue]
    exact h.once l c
  · intro t ht
    rw [IoLoop.mem_tokens, hqueue] at ht
    rw [IoLoop.mem_tokens]
    rcases ht with hframe | hqueued | ⟨c, hc, rfl⟩
    · exact Or.inl (Or.inl hframe)
    · exact Or.inl (Or.inr (Or.inl hqueued))
    · exact Or.inr (h.mem_fillActiveChannels hc)
  · intro c k _ _ hold hcarries hmem
    apply Kept.of_mem hcarries
    refine IoLoop.mem_tokens_of_subset ?_ ?_ ?_ hmem
    · rfl
    · rw [hqueue]
      exact List.Subset.refl _
    · rw [hphase]
      exact List.nil_subset _

theorem Owned.changePhase (h : s.Owned cfg) {x : IoLoop}
    (hpoller : x.poller = (s.loops l).poller) (hidle : (s.loops l).frame = .idle)
    (hframe : x.frame = .idle) (hqueue : x.queue = (s.loops l).queue)
    (hactive : x.phase.active ⊆ (s.loops l).phase.active)
    (hrest : ∀ c callbacks, (c, callbacks) ∈ x.phase.rest → c ∈ x.phase.active) :
    (s.setLoop l x).Owned cfg := by
  apply h.drop hpoller
  · refine ⟨?_, ?_, hrest⟩
    · exact fun c hc => absurd (hframe.symm.trans hc) nofun
    · exact fun c hc => absurd (hframe.symm.trans hc) nofun
  · rw [hqueue]
  · intro t ht
    refine IoLoop.mem_tokens_of_subset (hframe.trans hidle.symm) ?_ hactive ht
    rw [hqueue]
    exact List.Subset.refl _
  · intro t ht hcarries
    rw [IoLoop.mem_tokens, hidle] at ht
    rw [IoLoop.mem_tokens, hframe, hqueue]
    rcases ht with hnone | hqueued | ⟨c, _, rfl⟩
    · exact absurd hnone List.not_mem_nil
    · exact Or.inr (Or.inl hqueued)
    · exact absurd hcarries id

theorem Owned.dispatch (h : s.Owned cfg) {active : List Nat}
    {rest rest' : List (Nat × List EventCallback)}
    (hphase : (s.loops l).phase = .dispatch active rest) (hidle : (s.loops l).frame = .idle)
    (hrest : ∀ c callbacks, (c, callbacks) ∈ rest' → c ∈ active) :
    (s.setPhase l (.dispatch active rest')).Owned cfg := by
  apply h.changePhase
  · rfl
  · exact hidle
  · exact hidle
  · rw [IoLoop.queue_of_phase hphase]
    rfl
  · intro c hc
    rw [hphase]
    exact hc
  · exact hrest

theorem Owned.swapFunctors (h : s.Owned cfg) {active : List Nat}
    (hphase : (s.loops l).phase = .dispatch active []) (hidle : (s.loops l).frame = .idle) :
    (s.setLoop l { s.loops l with
      loop := (s.loops l).loop.beginPendingFunctors.swapFunctors.1
      phase := .functors (s.loops l).loop.beginPendingFunctors.swapFunctors.2 }).Owned cfg := by
  apply h.changePhase
  · rfl
  · exact hidle
  · exact hidle
  · rw [IoLoop.queue_of_phase hphase]
    exact List.append_nil _
  · nofun
  · nofun

theorem Owned.endFunctors (h : s.Owned cfg) (hphase : (s.loops l).phase = .functors [])
    (hidle : (s.loops l).frame = .idle) :
    (s.setLoop l { s.loops l with
      loop := (s.loops l).loop.endPendingFunctors
      phase := .poll }).Owned cfg := by
  apply h.changePhase
  · rfl
  · exact hidle
  · exact hidle
  · rw [IoLoop.queue_of_phase hphase]
    rfl
  · nofun
  · nofun

/-! ### A batch of functors -/

theorem IoLoop.mem_tokens_establish {x : IoLoop} (h : ⟨.establish, c⟩ ∈ x.tokens) :
    .connectEstablished c ∈ x.queue := by
  rcases (IoLoop.mem_tokens _).mp h with hframe | ⟨f, hf, ht⟩ | ⟨e, _, heq⟩
  · cases hx : x.frame <;> rw [hx] at hframe <;> simp [Frame.tokens] at hframe
  · cases f <;> simp [LoopFunctor.tokens] at ht
    subst c
    exact hf
  · cases heq

theorem IoLoop.mem_active_of_listed {x : IoLoop} (h : ⟨.listed, c⟩ ∈ x.tokens) :
    c ∈ x.phase.active := by
  rcases (IoLoop.mem_tokens _).mp h with hframe | ⟨f, _, hin⟩ | ⟨e, he, heq⟩
  · cases hx : x.frame <;> rw [hx] at hframe <;> simp [Frame.tokens] at hframe
  · cases f <;> simp [LoopFunctor.tokens] at hin
  · cases heq
    exact he

/-- No second functor `connectEstablished` of a connection is left when the first one is called. -/
theorem Owned.runConnectEstablished (h : s.Owned cfg) {rest : List LoopFunctor}
    (hphase : (s.loops l).phase = .functors (.connectEstablished c :: rest))
    (hidle : (s.loops l).frame = .idle) :
    ((s.setPhase l (.functors rest)).call l (.connectEstablished c)).Owned cfg := by
  have hqueue := queue_functors hphase
  have hmem : .connectEstablished c ∈ (s.loops l).queue := by
    rw [hqueue]
    exact List.mem_cons_self
  obtain ⟨k, hk, hloop, hstate⟩ := h.token (mem_tokens_queue hmem (List.mem_singleton_self _))
  have hpop : (s.setPhase l (.functors rest)).Owned cfg := by
    apply h.popFunctor hphase hidle
    intro t ht
    rw [List.mem_singleton.mp ht]
    exact id
  apply hpop.connectEstablished hk hstate
  intro l' hestablish
  by_cases hl : l' = l
  · subst l'
    rw [setPhase, setLoop_self] at hestablish
    have hlater := IoLoop.mem_tokens_establish hestablish
    have hcount : 0 < List.count (.connectEstablished c)
        (rest ++ (s.loops l).loop.pendingFunctors) := List.count_pos_iff.mpr hlater
    have honce := h.once l c
    rw [hqueue, List.count_cons_self] at honce
    omega
  · rw [setPhase, setLoop_of_ne hl] at hestablish
    obtain ⟨j, hj, hloop', _⟩ := h.token hestablish
    cases hk.symm.trans hj
    exact hl (hloop'.symm.trans hloop)

theorem Owned.runRemoveConnectionInLoop (h : s.Owned cfg) {rest : List LoopFunctor}
    (hphase : (s.loops l).phase = .functors (.removeConnectionInLoop c :: rest))
    (hidle : (s.loops l).frame = .idle) :
    ((s.setPhase l (.functors rest)).call l (.removeConnectionInLoop c)).Owned cfg := by
  have hmem : .removeConnectionInLoop c ∈ (s.loops l).queue := by
    rw [queue_functors hphase]
    exact List.mem_cons_self
  obtain ⟨k, hk, hloop, hstate⟩ := h.token (mem_tokens_queue hmem (List.mem_singleton_self _))
  subst l
  have hpop : (s.setPhase baseLoop (.functors rest)).Owned cfg := by
    apply h.popFunctor hphase hidle
    intro t ht
    rw [List.mem_singleton.mp ht]
    exact id
  apply hpop.removeConnectionInLoop hk hstate
  rw [setPhase, setLoop_self]
  exact hidle

theorem Owned.runConnectDestroyed (h : s.Owned cfg) {rest : List LoopFunctor}
    (hphase : (s.loops l).phase = .functors (.connectDestroyed c :: rest))
    (hidle : (s.loops l).frame = .idle) :
    ((s.setPhase l (.functors rest)).call l (.connectDestroyed c)).Owned cfg := by
  have hqueue := queue_functors hphase
  have hmem : .connectDestroyed c ∈ (s.loops l).queue := by
    rw [hqueue]
    exact List.mem_cons_self
  obtain ⟨k, hk, hloop, hstate, hmap⟩ := h.token (mem_tokens_queue hmem (List.mem_singleton_self _))
  have hcall : (s.setPhase l (.functors rest)).call l (.connectDestroyed c)
      = s.setLoop l { s.loops l with phase := .functors rest, frame := .destroying c } := by
    have hk' : (s.setPhase l (.functors rest)).conns c = some k := hk
    have hworld : ((s.setPhase l (.functors rest)).world k).connectDestroyed c
        = (s.setPhase l (.functors rest)).world k := by
      apply Conn.connectDestroyed_of_not_connected
      change k.conn.state ≠ _
      rw [hstate]
      decide
    simp only [call, hk', hworld]
    rw [putWorld_self hk', TcpServer.setFrame, setPhase, setLoop_self, setLoop_setLoop]
  rw [hcall]
  apply h.setLoop
  · rfl
  · refine ⟨?_, fun _ _ => ⟨rest, rfl⟩, fun _ _ hmem => absurd hmem List.not_mem_nil⟩
    intro e he
    cases he
  · intro e
    have honce := h.once l e
    rw [hqueue] at honce
    exact (List.Sublist.count_le _ (List.sublist_cons_self _ _)).trans honce
  · intro t ht
    rcases (IoLoop.mem_tokens _).mp ht with hframe | ⟨f, hf, hin⟩ | ⟨e, he, _⟩
    · right
      rw [List.mem_singleton.mp hframe]
      exact ⟨k, hk, hloop, hstate, hmap⟩
    · left
      refine mem_tokens_queue ?_ hin
      rw [hqueue]
      exact List.mem_cons_of_mem _ hf
    · exact absurd he List.not_mem_nil
  · intro e j _ _ hold hcarries hmem
    rw [IoLoop.mem_tokens, hidle, hqueue, hphase] at hmem
    rcases hmem with hnone | ⟨f, hf, hin⟩ | ⟨d, hd, _⟩
    · exact absurd hnone List.not_mem_nil
    · rcases List.mem_cons.mp hf with rfl | hf
      · cases List.mem_singleton.mp hin
        have hdestroying : Hold.destroying.Carries := trivial
        exact Kept.of_mem hdestroying
          ((IoLoop.mem_tokens _).mpr (Or.inl (List.mem_singleton_self _)))
      · exact Kept.of_mem hcarries ((IoLoop.mem_tokens _).mpr (Or.inr (Or.inl ⟨f, hf, hin⟩)))
    · exact absurd hd List.not_mem_nil

/-! ### After a callback -/

theorem setFrame_queueInLoop (frame : Frame) (own l' : Fin (n + 1)) (f : LoopFunctor) :
    (s.setFrame l frame).queueInLoop own l' f = (s.queueInLoop own l' f).setFrame l frame := by
  unfold setFrame queueInLoop
  by_cases hl : l' = l
  · subst l'
    rw [setLoop_self, setLoop_setLoop, setLoop_self, setLoop_setLoop]
  · rw [setLoop_of_ne hl, setLoop_of_ne (Ne.symm hl), setLoop_comm (Ne.symm hl)]

theorem Owned.resumeClosing (h : s.Owned cfg) (hframe : (s.loops l).frame = .closing c) :
    ((s.setFrame l .idle).removeConnection l c).Owned cfg := by
  have htoken : ⟨.closing, c⟩ ∈ (s.loops l).frame.tokens := by
    rw [hframe]
    exact List.mem_singleton_self _
  obtain ⟨k, hk, -, hstate⟩ := h.token (mem_tokens_frame htoken)
  have hidle : (s.setFrame l .idle).Owned cfg := by
    apply h.setFrame_idle
    intro e j _ _ hold hcarries hmem
    rw [hframe] at hmem
    cases List.mem_singleton.mp hmem
    exact absurd hcarries id
  unfold removeConnection runInLoop
  split
  · subst l
    apply hidle.removeConnectionInLoop hk hstate
    rw [TcpServer.setFrame, setLoop_self]
  · apply hidle.queueInLoop
    · intro t ht
      rw [List.mem_singleton.mp ht]
      exact ⟨k, hk, rfl, hstate⟩
    · nofun

/-- The functor `connectDestroyed` is queued before the functor that erased the entry ends. -/
theorem Owned.resumeRemoving (h : s.Owned cfg) (hframe : (s.loops l).frame = .removing c)
    (hk : s.conns c = some k) :
    ((s.setFrame l .idle).queueInLoop l k.loop (.connectDestroyed c)).Owned cfg := by
  have htoken : ⟨.removing, c⟩ ∈ (s.loops l).frame.tokens := by
    rw [hframe]
    exact List.mem_singleton_self _
  obtain ⟨j, hj, _, hstate, hmap⟩ := h.token (mem_tokens_frame htoken)
  cases hk.symm.trans hj
  have hqueued : (s.queueInLoop l k.loop (.connectDestroyed c)).Owned cfg := by
    apply h.queueInLoop
    · intro t ht
      rw [List.mem_singleton.mp ht]
      exact ⟨k, hk, rfl, hstate, hmap⟩
    · nofun
  rw [setFrame_queueInLoop]
  apply hqueued.setFrame_idle
  intro e d _ _ hold hcarries hmem
  have hsame : ((s.queueInLoop l k.loop (.connectDestroyed c)).loops l).frame
      = .removing c := by
    unfold TcpServer.queueInLoop
    by_cases hl : l = k.loop
    · rw [← hl, setLoop_self]
      exact hframe
    · rw [setLoop_of_ne hl]
      exact hframe
  rw [hsame] at hmem
  cases List.mem_singleton.mp hmem
  rw [← setFrame_queueInLoop]
  have hdestroy : Hold.destroy.Carries := trivial
  apply Kept.of_mem hdestroy
  rw [IoLoop.mem_tokens, IoLoop.queue_queueInLoop]
  right
  left
  exact ⟨.connectDestroyed c, List.mem_append_right _ (List.mem_singleton_self _),
    List.mem_singleton_self _⟩

/-- The channel leaves the tables; no batch lists it, since functors run outside of one. -/
theorem Owned.resumeDestroying (h : s.Owned cfg) (hframe : (s.loops l).frame = .destroying c)
    (hk : s.conns c = some k) :
    ((s.putWorld c { k with destroyed := true } ((s.world k).connectDestroyedRest c)).setFrame l
      .idle).Owned cfg := by
  have htoken : ⟨.destroying, c⟩ ∈ (s.loops l).frame.tokens := by
    rw [hframe]
    exact List.mem_singleton_self _
  obtain ⟨j, hj, hloop, hstate, hmap⟩ := h.token (mem_tokens_frame htoken)
  cases hk.symm.trans hj
  change k.loop = l at hloop
  subst l
  have hknown := h.knownAtFd hk
  have hlife := h.life c k hk
  have hput : (s.putWorld c { k with destroyed := true }
      ((s.world k).connectDestroyedRest c)).Owned cfg := by
    apply h.setConn hk
    · rfl
    · nofun
    apply h.toConsistent.setConn hk
    · rfl
    · exact ⟨hlife.established, fun _ => hstate⟩
    · exact fun _ => hmap
    · intro l hold hmem hmeets
      cases hold with
      | listed =>
        obtain ⟨rest, hphase⟩ := (h.wellFormed k.loop).destroying c hframe
        have hactive := IoLoop.mem_active_of_listed hmem
        rw [← hmeets.1, hphase] at hactive
        exact absurd hactive List.not_mem_nil
      | _ => exact hmeets
    · intro fd e he
      exact Or.inl (Conn.connectDestroyedRest_channels _ _ hknown he)
    · intro fd ev e he
      exact Or.inl (Conn.connectDestroyedRest_kernel _ _ hknown he)
  apply hput.setFrame_idle
  intro e j hj halive hold _ hmem
  have hsame : ((s.putWorld c { k with destroyed := true }
      ((s.world k).connectDestroyedRest c)).loops k.loop).frame = .destroying c := by
    rw [putWorld_loops (k := { k with destroyed := true })]
    exact hframe
  rw [hsame] at hmem
  cases List.mem_singleton.mp hmem
  rw [putWorld_conns] at hj
  cases hj
  cases halive

/-! ### The machine -/

theorem Owned.resume (h : s.Owned cfg) (hstep : s.resume l = some s') : s'.Owned cfg := by
  unfold TcpServer.resume at hstep
  split at hstep
  · cases hstep
  · cases hstep
    exact h.resumeClosing ‹_›
  · split at hstep
    · cases hstep
      exact h.resumeRemoving ‹_› ‹_›
    · cases hstep
  · split at hstep
    · cases hstep
      exact h.resumeDestroying ‹_› ‹_›
    · cases hstep

theorem Owned.runFunctor (h : s.Owned cfg) {f : LoopFunctor} {rest : List LoopFunctor}
    (hphase : (s.loops l).phase = .functors (f :: rest)) (hidle : (s.loops l).frame = .idle) :
    ((s.setPhase l (.functors rest)).call l f).Owned cfg := by
  cases f with
  | connectEstablished c => exact h.runConnectEstablished hphase hidle
  | removeConnectionInLoop c => exact h.runRemoveConnectionInLoop hphase hidle
  | connectDestroyed c => exact h.runConnectDestroyed hphase hidle
  | other => exact h.popFunctor hphase hidle nofun

theorem Owned.dispatchCallback (h : s.Owned cfg) {active : List Nat} {callback : EventCallback}
    {callbacks : List EventCallback} {rest : List (Nat × List EventCallback)}
    (hphase : (s.loops l).phase = .dispatch active ((c, callback :: callbacks) :: rest))
    (hidle : (s.loops l).frame = .idle) (hk : s.conns c = some k) (read : ReadvResult)
    (write : WriteResult) :
    ((s.setPhase l (.dispatch active ((c, callbacks) :: rest))).eventCallback l c k read write
      callback).Owned cfg := by
  have hrest := (h.wellFormed l).rest
  rw [hphase] at hrest
  have hlisted : c ∈ active := hrest c _ List.mem_cons_self
  have hdispatch : (s.setPhase l (.dispatch active ((c, callbacks) :: rest))).Owned cfg := by
    apply h.dispatch hphase hidle
    intro e cs hmem
    rcases List.mem_cons.mp hmem with heq | hmem
    · cases heq
      exact hlisted
    · exact hrest e cs (List.mem_cons_of_mem _ hmem)
  apply hdispatch.eventCallback hk
  · rw [setPhase, setLoop_self]
    exact hlisted
  · rw [setPhase, setLoop_self]
    exact hidle

/-- `nextConnId_` is an `int`, which `newConnection` increments. -/
def NextConnIdFits (s : TcpServer n) (a : ServerStep n) : Prop :=
  a.accepts = true → s.nextConnId < 2 ^ 31

instance (s : TcpServer n) (a : ServerStep n) : Decidable (s.NextConnIdFits a) :=
  inferInstanceAs (Decidable (_ → _))

theorem Owned.step {a : ServerStep n} (h : s.Owned cfg) (hfits : s.NextConnIdFits a)
    (hstep : s.step cfg a = some s') : s'.Owned cfg := by
  unfold TcpServer.step at hstep
  cases a with
  | newConnection sockfd =>
    dsimp only at hstep
    split at hstep
    · cases hstep
      exact h.newConnection (hfits rfl) sockfd
    · cases hstep
  | poll l ready =>
    dsimp only at hstep
    split at hstep
    · cases hstep
      exact h.poll ‹_› ‹_› ready
    · cases hstep
  | eventCallback l read write =>
    dsimp only at hstep
    split at hstep
    · split at hstep
      · cases hstep
        exact h.dispatchCallback ‹_› ‹_› ‹_› read write
      · cases hstep
    · cases hstep
  | nextChannel l =>
    dsimp only at hstep
    split at hstep
    · rename_i active d rest hphase hidle
      cases hstep
      have hrest := (h.wellFormed l).rest
      rw [hphase] at hrest
      exact h.dispatch hphase hidle fun e cs hmem => hrest e cs (List.mem_cons_of_mem _ hmem)
    · cases hstep
  | resume l => exact h.resume hstep
  | swapFunctors l =>
    dsimp only at hstep
    split at hstep
    · cases hstep
      exact h.swapFunctors ‹_› ‹_›
    · cases hstep
  | runFunctor l =>
    dsimp only at hstep
    split at hstep
    · cases hstep
      exact h.runFunctor ‹_› ‹_›
    · cases hstep
  | endFunctors l =>
    dsimp only at hstep
    split at hstep
    · cases hstep
      exact h.endFunctors ‹_› ‹_›
    · cases hstep
  | send c buf r =>
    dsimp only at hstep
    split at hstep
    · cases hstep
      exact h.send ‹_› buf r
    · cases hstep
  | shutdown c =>
    dsimp only at hstep
    split at hstep
    · cases hstep
      exact h.shutdown ‹_›
    · cases hstep
  | queueOther own l =>
    cases hstep
    exact h.queueInLoop nofun nofun

theorem reachable_owned (h : (machine cfg).ReachableVia NextConnIdFits s) : s.Owned cfg := by
  apply h.invariant (P := fun s => s.Owned cfg)
  · intro s hinit
    rw [hinit]
    exact new_owned cfg
  · intro s a s' _ hfits hstep howned
    exact howned.step hfits hstep

end LTMuduo.TcpServer
