import LTMuduo.Connection.Descriptor
import LTMuduo.TcpServer.Lifecycle
import LTMuduo.TcpServer.LoopMoves

/-!
# The descriptors of a server

The kernel gives `accept` a descriptor that is not open, and a connection keeps its descriptor open for as long as the map or a functor holds it. Under this one assumption the descriptors of the connections differ, each poller has for each connection what its state asks for, and no `epoll_ctl` of the server fails.
-/

namespace LTMuduo

/-- The functors that hold the connection. -/
def LoopFunctor.Binds (c : Nat) (f : LoopFunctor) : Prop :=
  f = .connectEstablished c ∨ f = .removeConnectionInLoop c ∨ f = .connectDestroyed c

/-- A functor or a function of the loop holds the connection. -/
def IoLoop.Binds (c : Nat) (x : IoLoop) : Prop :=
  .connectEstablished c ∈ x.queue ∨ .removeConnectionInLoop c ∈ x.queue ∨
    .connectDestroyed c ∈ x.queue ∨ x.frame = .removing c ∨ x.frame = .destroying c

namespace TcpServer

variable {n : Nat} {cfg : ServerConfig} {s s' : TcpServer n} {l : Fin (n + 1)} {c : Nat}
  {k j : ServerConn n}

instance (s : TcpServer n) (c : Nat) : Decidable (s.HeldByFunctor c) :=
  inferInstanceAs (Decidable (∃ _, _))

/-- The map or a functor holds the connection, and so its descriptor is open. -/
def Held (cfg : ServerConfig) (s : TcpServer n) (c : Nat) : Prop :=
  s.connections (connName cfg c) = some c ∨ s.HeldByFunctor c

instance (s : TcpServer n) (c : Nat) : Decidable (s.Held cfg c) :=
  inferInstanceAs (Decidable (_ ∨ _))

/-- `accept` returns a descriptor of none of the connections that are held. -/
def FdIsFree (cfg : ServerConfig) (s : TcpServer n) : ServerStep n → Prop
  | .newConnection sockfd =>
    ∀ c < s.nextConnId, s.Held cfg c → ∀ k ∈ s.conns c, k.conn.channel.fd ≠ sockfd
  | _ => True

instance (s : TcpServer n) : (a : ServerStep n) → Decidable (s.FdIsFree cfg a)
  | .newConnection _ => inferInstanceAs (Decidable (∀ _, _))
  | .poll _ _ => .isTrue trivial
  | .eventCallback _ _ _ => .isTrue trivial
  | .nextChannel _ => .isTrue trivial
  | .resume _ => .isTrue trivial
  | .swapFunctors _ => .isTrue trivial
  | .runFunctor _ => .isTrue trivial
  | .endFunctors _ => .isTrue trivial
  | .send _ _ _ => .isTrue trivial
  | .shutdown _ => .isTrue trivial
  | .queueOther _ _ => .isTrue trivial

/-- What the counter and the kernel provide. -/
def Admissible (cfg : ServerConfig) (s : TcpServer n) (a : ServerStep n) : Prop :=
  s.NextConnIdFits a ∧ s.FdIsFree cfg a

instance (s : TcpServer n) (a : ServerStep n) : Decidable (s.Admissible cfg a) :=
  inferInstanceAs (Decidable (_ ∧ _))

theorem Owned.held (h : s.Owned cfg) (hk : s.conns c = some k) (halive : k.destroyed = false) :
    s.Held cfg c := by
  refine (h.kept c k hk halive).held.imp ?_ id
  intro hmap
  rwa [InMap, (h.ids c k hk).2] at hmap

/-! ### A connection that nothing holds is not held again -/

theorem binds_mono {x y : IoLoop} (h : x.Binds c) (hqueue : x.queue ⊆ y.queue)
    (hframe : x.frame = y.frame) : y.Binds c := by
  unfold IoLoop.Binds at *
  rw [← hframe]
  rcases h with hest | hrem | hdes | hframe
  · exact Or.inl (hqueue hest)
  · exact Or.inr (Or.inl (hqueue hrem))
  · exact Or.inr (Or.inr (Or.inl (hqueue hdes)))
  · exact Or.inr (Or.inr (Or.inr hframe))

theorem heldByFunctor_setLoop {x : IoLoop} (h : (s.setLoop l x).HeldByFunctor c) :
    x.Binds c ∨ s.HeldByFunctor c := by
  obtain ⟨l', hl'⟩ := h
  by_cases hl : l' = l
  · subst l'
    rw [setLoop_self] at hl'
    exact Or.inl hl'
  · rw [setLoop_of_ne hl] at hl'
    exact Or.inr ⟨l', hl'⟩

theorem heldByFunctor_of_setLoop {x : IoLoop} (h : (s.setLoop l x).HeldByFunctor c)
    (hqueue : x.queue ⊆ (s.loops l).queue) (hframe : x.frame = (s.loops l).frame) :
    s.HeldByFunctor c := by
  rcases heldByFunctor_setLoop h with hx | hs
  · exact ⟨l, binds_mono hx hqueue hframe⟩
  · exact hs

theorem heldByFunctor_queueInLoop {own : Fin (n + 1)} {f : LoopFunctor}
    (h : (s.queueInLoop own l f).HeldByFunctor c) : f.Binds c ∨ s.HeldByFunctor c := by
  rcases heldByFunctor_setLoop h with hx | hs
  · rw [IoLoop.Binds, IoLoop.queue_queueInLoop] at hx
    simp only [List.mem_append, List.mem_singleton] at hx
    rcases hx with (hold | hnew) | (hold | hnew) | (hold | hnew) | hframe
    · exact Or.inr ⟨l, Or.inl hold⟩
    · exact Or.inl (Or.inl hnew.symm)
    · exact Or.inr ⟨l, Or.inr (Or.inl hold)⟩
    · exact Or.inl (Or.inr (Or.inl hnew.symm))
    · exact Or.inr ⟨l, Or.inr (Or.inr (Or.inl hold))⟩
    · exact Or.inl (Or.inr (Or.inr hnew.symm))
    · exact Or.inr ⟨l, Or.inr (Or.inr (Or.inr hframe))⟩
  · exact Or.inr hs

theorem heldByFunctor_setFrame {frame : Frame} (h : (s.setFrame l frame).HeldByFunctor c) :
    (frame = .removing c ∨ frame = .destroying c) ∨ s.HeldByFunctor c := by
  rcases heldByFunctor_setLoop h with hx | hs
  · rcases hx with hest | hrem | hdes | hframe
    · exact Or.inr ⟨l, Or.inl hest⟩
    · exact Or.inr ⟨l, Or.inr (Or.inl hrem)⟩
    · exact Or.inr ⟨l, Or.inr (Or.inr (Or.inl hdes))⟩
    · exact Or.inl hframe
  · exact Or.inr hs

theorem heldByFunctor_putWorld {d : Nat} {w : Conn Nat} (h : (s.putWorld d j w).HeldByFunctor c) :
    s.HeldByFunctor c :=
  heldByFunctor_of_setLoop (s := s.setConn d { j with conn := w.conn }) h (List.Subset.refl _) rfl

/-- A functor leaves the reference that it holds to the function it is in, at most. -/
theorem heldByFunctor_call {f : LoopFunctor} (h : (s.call l f).HeldByFunctor c) :
    f.Binds c ∨ s.HeldByFunctor c := by
  cases f with
  | other => exact Or.inr h
  | connectEstablished d =>
    unfold call at h
    dsimp only at h
    split at h
    · exact Or.inr (heldByFunctor_putWorld h)
    · exact Or.inr h
  | removeConnectionInLoop d =>
    unfold call at h
    dsimp only at h
    split at h
    · rename_i i _
      rcases heldByFunctor_setFrame (s := s.erase i.name) h with (hframe | hframe) | hs
      · cases hframe
        exact Or.inl (Or.inr (Or.inl rfl))
      · cases hframe
      · exact Or.inr hs
    · exact Or.inr h
  | connectDestroyed d =>
    unfold call at h
    dsimp only at h
    split at h
    · rcases heldByFunctor_setFrame h with (hframe | hframe) | hs
      · cases hframe
      · cases hframe
        exact Or.inl (Or.inr (Or.inr rfl))
      · exact Or.inr (heldByFunctor_putWorld hs)
    · exact Or.inr h

theorem heldByFunctor_runInLoop {own : Fin (n + 1)} {f : LoopFunctor}
    (h : (s.runInLoop own l f).HeldByFunctor c) : f.Binds c ∨ s.HeldByFunctor c := by
  unfold runInLoop at h
  split at h
  · exact heldByFunctor_call h
  · exact heldByFunctor_queueInLoop h

theorem heldByFunctor_eventCallback {d : Nat} {read : ReadvResult} {write : WriteResult}
    {callback : EventCallback}
    (h : (s.eventCallback l d j read write callback).HeldByFunctor c) : s.HeldByFunctor c := by
  have hclosing {w : Conn Nat}
      (hw : ((s.putWorld d j w).setFrame l (.closing d)).HeldByFunctor c) : s.HeldByFunctor c := by
    rcases heldByFunctor_setFrame hw with (hframe | hframe) | hs
    · cases hframe
    · cases hframe
    · exact heldByFunctor_putWorld hs
  cases callback with
  | closeCallback => exact hclosing h
  | errorCallback => exact heldByFunctor_putWorld h
  | readCallback =>
    unfold eventCallback at h
    dsimp only at h
    split at h
    · exact hclosing h
    · exact heldByFunctor_putWorld h
  | writeCallback => exact heldByFunctor_putWorld h

/-- A functor takes the reference that it holds from a functor or function before it, from the map or from the batch. -/
theorem heldByFunctor_step (howned : s.Owned cfg) {a : ServerStep n} (hmoves : s.Moves cfg a s')
    (hnew : a.accepts = true → c ≠ s.nextConnId) (h : s'.HeldByFunctor c) : s.Held cfg c := by
  cases hmoves with
  | newConnection sockfd =>
    rcases heldByFunctor_runInLoop h with hbinds | hs
    · rcases hbinds with heq | heq | heq
      · cases heq
        exact absurd rfl (hnew rfl)
      · cases heq
      · cases heq
    · exact Or.inr hs
  | poll l _ _ _ hphase =>
    refine Or.inr (heldByFunctor_of_setLoop h ?_ rfl)
    rw [IoLoop.queue_of_phase hphase]
    exact List.Subset.refl _
  | eventCallback l _ _ _ _ _ _ _ _ hphase =>
    refine Or.inr (heldByFunctor_of_setLoop (heldByFunctor_eventCallback h) ?_ rfl)
    rw [IoLoop.queue_of_phase hphase]
    exact List.Subset.refl _
  | nextChannel l _ _ _ hphase =>
    refine Or.inr (heldByFunctor_of_setLoop h ?_ rfl)
    rw [IoLoop.queue_of_phase hphase]
    exact List.Subset.refl _
  | swapFunctors l _ hphase =>
    refine Or.inr (heldByFunctor_of_setLoop h ?_ rfl)
    have hqueue : (s.loops l).queue = (s.loops l).loop.pendingFunctors :=
      IoLoop.queue_of_phase hphase
    rw [hqueue]
    intro f hf
    rwa [show IoLoop.queue _ = (s.loops l).loop.pendingFunctors ++ [] from rfl, List.append_nil] at hf
  | endFunctors l hphase =>
    refine Or.inr (heldByFunctor_of_setLoop h ?_ rfl)
    rw [IoLoop.queue_of_phase hphase]
    exact List.Subset.refl _
  | send | shutdown => exact Or.inr (heldByFunctor_putWorld h)
  | queueOther own l =>
    rcases heldByFunctor_queueInLoop h with hbinds | hs
    · rcases hbinds with heq | heq | heq <;> cases heq
    · exact Or.inr hs
  | resumeClosing l d hframe =>
    rcases heldByFunctor_runInLoop h with hbinds | hs
    · have hdc : d = c := by
        rcases hbinds with heq | heq | heq
        · cases heq
        · cases heq
          rfl
        · cases heq
      subst d
      obtain ⟨k, hk, _, _, halive⟩ := howned.listed ((howned.wellFormed l).closing c hframe)
      exact howned.held hk halive
    · rcases heldByFunctor_setFrame hs with hnone | hs'
      · rcases hnone with heq | heq <;> cases heq
      · exact Or.inr hs'
  | resumeRemoving l d k hframe hk =>
    rcases heldByFunctor_queueInLoop h with hbinds | hs
    · have hdc : d = c := by
        rcases hbinds with heq | heq | heq
        · cases heq
        · cases heq
        · cases heq
          rfl
      subst d
      exact Or.inr ⟨l, Or.inr (Or.inr (Or.inr (Or.inl hframe)))⟩
    · rcases heldByFunctor_setFrame hs with hnone | hs'
      · rcases hnone with heq | heq <;> cases heq
      · exact Or.inr hs'
  | resumeDestroying l d k hframe hk =>
    rcases heldByFunctor_setFrame h with hnone | hs
    · rcases hnone with heq | heq <;> cases heq
    · exact Or.inr (heldByFunctor_putWorld hs)
  | runFunctor l f rest hphase =>
    have hqueue : (s.loops l).queue = f :: (rest ++ (s.loops l).loop.pendingFunctors) :=
      queue_functors hphase
    rcases heldByFunctor_call h with hbinds | hs
    · refine Or.inr ⟨l, ?_⟩
      rw [hqueue]
      rcases hbinds with rfl | rfl | rfl
      · exact Or.inl List.mem_cons_self
      · exact Or.inr (Or.inl List.mem_cons_self)
      · exact Or.inr (Or.inr (Or.inl List.mem_cons_self))
    · refine Or.inr (heldByFunctor_of_setLoop hs ?_ rfl)
      rw [hqueue]
      exact List.subset_cons_self _ _

theorem held_step (howned : s.Owned cfg) {a : ServerStep n} (hmoves : s.Moves cfg a s')
    (hnew : a.accepts = true → c ≠ s.nextConnId) (h : s'.Held cfg c) : s.Held cfg c := by
  rcases h with hmap | hheld
  · exact Or.inl (connections_step hmoves hnew hmap)
  · exact heldByFunctor_step howned hmoves hnew hheld

/-! ### The tables of the pollers -/

/-- The pollers have what the connections ask for. Connections that are not among `held` have closed their descriptors. -/
structure Tidy (held : Nat → Prop) (s : TcpServer n) : Prop where
  registered : ∀ c k, s.conns c = some k → held c → (s.world k).Registered c
  settled : ∀ c k, s.conns c = some k → (s.world k).Settled
  apart : ∀ c k d j, s.conns c = some k → s.conns d = some j → held c → held d → c ≠ d →
    k.conn.channel.fd ≠ j.conn.channel.fd
  failed : ∀ l, (s.loops l).poller.failed = []

variable {held held' : Nat → Prop}

theorem new_tidy : (new : TcpServer n).Tidy held :=
  ⟨fun _ _ hk => (new_conns hk).elim, fun _ _ hk => (new_conns hk).elim,
    fun _ _ _ _ hk => (new_conns hk).elim, fun _ => rfl⟩

theorem Tidy.mono (h : s.Tidy held) (hsub : ∀ c, held' c → held c) : s.Tidy held' where
  registered := fun c k hk hc => h.registered c k hk (hsub c hc)
  settled := h.settled
  apart := fun c k d j hk hj hc hd => h.apart c k d j hk hj (hsub c hc) (hsub d hd)
  failed := h.failed

theorem Tidy.congr (h : s.Tidy held) (hconns : s'.conns = s.conns)
    (hpoller : ∀ l, (s'.loops l).poller = (s.loops l).poller) : s'.Tidy held := by
  have hworld (k : ServerConn n) : s'.world k = s.world k := by
    rw [world, world, hpoller]
  refine ⟨?_, ?_, ?_, ?_⟩
  · intro c k hk hc
    rw [hconns] at hk
    rw [hworld]
    exact h.registered c k hk hc
  · intro c k hk
    rw [hconns] at hk
    rw [hworld]
    exact h.settled c k hk
  · rw [hconns]
    exact h.apart
  · intro l
    rw [hpoller]
    exact h.failed l

theorem poller_setLoop {x : IoLoop} (hpoller : x.poller = (s.loops l).poller) (l' : Fin (n + 1)) :
    ((s.setLoop l x).loops l').poller = (s.loops l').poller := by
  by_cases hl : l' = l
  · rw [hl, setLoop_self, hpoller]
  · rw [setLoop_of_ne hl]

theorem Tidy.setLoop (h : s.Tidy held) {x : IoLoop} (hpoller : x.poller = (s.loops l).poller) :
    (s.setLoop l x).Tidy held := h.congr rfl (poller_setLoop hpoller)

theorem Tidy.putWorld (h : s.Tidy held) (hk : s.conns c = some k) (hc : held c)
    (hloop : j.loop = k.loop) {t : LoopThread Nat} {a : LoopCall Nat} {r : Option Resume}
    (hown : a.isOwn = true)
    (hremove : r = some .removeChannel → k.conn.state = .kDisconnected)
    (hcall : LoopThread.step c ⟨s.world k, r⟩ a = some t) :
    (s.putWorld c j t.world).Tidy held := by
  have hsettled := h.settled c k hk
  have hdone : t.world.Settled := (LoopThread.step_change hsettled hcall).settled hsettled
  obtain ⟨hregistered, hminds⟩ :=
    LoopThread.step_registered (h.registered c k hk hc) hown hremove hcall
  have hself : (s.putWorld c j t.world).loops k.loop =
      { s.loops k.loop with poller := t.world.poller } := by
    rw [← hloop]
    exact putWorld_loops t.world
  have hother {e : Nat} {i : ServerConn n} (he : e ≠ c)
      (hi : (s.putWorld c j t.world).conns e = some i) : s.conns e = some i := by
    rwa [show (s.putWorld c j t.world).conns e = s.conns e from setConn_of_ne he _] at hi
  have hpoller {l : Fin (n + 1)} (hl : l ≠ k.loop) :
      ((s.putWorld c j t.world).loops l).poller = (s.loops l).poller := by
    rw [← hloop] at hl
    exact congrArg IoLoop.poller (setLoop_of_ne hl _)
  constructor
  case registered =>
    intro e i hi he
    by_cases hec : e = c
    · subst e
      rw [putWorld_conns] at hi
      cases hi
      refine hregistered.congr rfl rfl ?_ ?_ <;> · rw [world, hloop, hself]
    · have hi' := hother hec hi
      have hbefore := h.registered e i hi' he
      by_cases hl : i.loop = k.loop
      · have hfd := h.apart e i c k hi' hk he hc hec
        obtain ⟨hkernel, hchannels⟩ := hminds.others _ hfd
        refine hbefore.congr rfl rfl ?_ ?_
        · rw [world, world, hl, hself]
          exact hkernel
        · rw [world, world, hl, hself]
          exact hchannels
      · refine hbefore.congr rfl rfl ?_ ?_ <;> · rw [world, world, hpoller hl]
  case settled =>
    intro e i hi
    by_cases hec : e = c
    · subst e
      rw [putWorld_conns] at hi
      cases hi
      exact hdone.congr Iff.rfl rfl rfl
    · exact (h.settled e i (hother hec hi)).congr Iff.rfl rfl rfl
  case apart =>
    have hfd {d : Nat} {i : ServerConn n} (hdc : d ≠ c) (hi : s.conns d = some i) (hd : held d) :
        t.world.conn.channel.fd ≠ i.conn.channel.fd := by
      rw [hminds.fd]
      exact h.apart c k d i hk hi hc hd hdc.symm
    intro e i d i' hi hi' he hd hne
    by_cases hec : e = c
    · subst e
      rw [putWorld_conns] at hi
      cases hi
      exact hfd hne.symm (hother hne.symm hi') hd
    · by_cases hdc : d = c
      · subst d
        rw [putWorld_conns] at hi'
        cases hi'
        exact (hfd hec (hother hec hi) he).symm
      · exact h.apart e i d i' (hother hec hi) (hother hdc hi') he hd hne
  case failed =>
    intro l
    by_cases hl : l = k.loop
    · rw [hl, hself]
      exact hminds.failed.trans (h.failed k.loop)
    · rw [hpoller hl]
      exact h.failed l

theorem Tidy.putIdle (h : s.Tidy held) (hk : s.conns c = some k) (hc : held c)
    (hloop : j.loop = k.loop) {t : LoopThread Nat} {a : LoopCall Nat} (hown : a.isOwn = true)
    (hcall : LoopThread.step c ⟨s.world k, none⟩ a = some t) :
    (s.putWorld c j t.world).Tidy held :=
  h.putWorld hk hc hloop hown (absurd · (Option.some_ne_none _).symm) hcall

theorem Tidy.addConnection (h : s.Tidy held) (hconns : ∀ c k, s.conns c = some k → c ≠ s.nextConnId)
    {sockfd : Fd} {writeComplete highWater : Bool} {mark : Nat}
    (hconn : k.conn = .new sockfd writeComplete highWater mark)
    (hkernel : (s.loops k.loop).poller.kernel sockfd = none)
    (hfree : ∀ c j, s.conns c = some j → held c → j.conn.channel.fd ≠ sockfd) (next : Nat) :
    (s.addConnection k next).Tidy fun e => held e ∨ e = s.nextConnId := by
  have hold {e : Nat} {i : ServerConn n} (hi : (s.addConnection k next).conns e = some i) :
      e = s.nextConnId ∧ i = k ∨ e ≠ s.nextConnId ∧ s.conns e = some i := by
    rcases Function.update_eq_some hi with ⟨he, heq⟩ | ⟨he, hi⟩
    · cases heq
      exact Or.inl ⟨he, rfl⟩
    · exact Or.inr ⟨he, hi⟩
  have hfd {e : Nat} {i : ServerConn n} (hi : s.conns e = some i)
      (he : held e ∨ e = s.nextConnId) : i.conn.channel.fd ≠ k.conn.channel.fd := by
    rw [hconn]
    exact hfree e i hi (he.resolve_right (hconns e i hi))
  constructor
  case registered =>
    intro e i hi he
    rcases hold hi with ⟨rfl, rfl⟩ | ⟨hne, hi⟩
    · change (⟨i.conn, (s.loops i.loop).poller, []⟩ : Conn Nat).Registered _
      rw [hconn]
      exact .of_new hkernel
    · exact h.registered e i hi (he.resolve_right hne)
  case settled =>
    intro e i hi
    rcases hold hi with ⟨rfl, rfl⟩ | ⟨_, hi⟩
    · change (⟨i.conn, (s.loops i.loop).poller, []⟩ : Conn Nat).Settled
      rw [hconn]
      exact LoopThread.Fresh.settled (s := ⟨_, none⟩) ⟨_, _, _, _, _, rfl, rfl⟩
    · exact h.settled e i hi
  case apart =>
    intro e i d i' hi hi' he hd hne
    rcases hold hi with ⟨rfl, rfl⟩ | ⟨hene, hbefore⟩
    · rcases hold hi' with ⟨rfl, _⟩ | ⟨_, hbefore'⟩
      · exact absurd rfl hne
      · exact (hfd hbefore' hd).symm
    · rcases hold hi' with ⟨rfl, rfl⟩ | ⟨hdne, hbefore'⟩
      · exact hfd hbefore he
      · exact h.apart e i d i' hbefore hbefore' (he.resolve_right hene) (hd.resolve_right hdne) hne
  case failed => exact h.failed

/-! ### The steps -/

/-- Only the state has to tell whether the user reaches the connection. -/
theorem Owned.held_of_state (h : s.Owned cfg) (hk : s.conns c = some k)
    (hstate : k.conn.state ≠ .kDisconnected) : s.Held cfg c :=
  h.held hk ((h.life c k hk).alive hstate)

theorem Tidy.eventCallback (h : s.Tidy held) (hk : s.conns c = some k) (hc : held c)
    (hstate : k.conn.state ≠ .kConnecting) (read : ReadvResult) (write : WriteResult)
    (callback : EventCallback) : (s.eventCallback l c k read write callback).Tidy held := by
  have hdispatches : (⟨s.world k, none⟩ : LoopThread Nat).Dispatches := ⟨rfl, hstate⟩
  have hput {a : LoopCall Nat} {t : LoopThread Nat} (hown : a.isOwn = true)
      (hcall : LoopThread.step c ⟨s.world k, none⟩ a = some t) :
      (s.putWorld c k t.world).Tidy held :=
    h.putIdle hk hc rfl hown hcall
  cases callback with
  | closeCallback => exact (hput (a := .handleClose) rfl (if_pos hdispatches)).setLoop rfl
  | errorCallback => exact hput (a := .handleError) rfl (if_pos hdispatches)
  | readCallback =>
    have hread := hput (a := .handleRead read) rfl (if_pos hdispatches)
    unfold TcpServer.eventCallback
    dsimp only
    split
    · exact hread.setLoop rfl
    · exact hread
  | writeCallback => exact hput (a := .handleWrite write) rfl (if_pos hdispatches)

theorem Tidy.send (h : s.Tidy (s.Held cfg)) (howned : s.Owned cfg) (hk : s.conns c = some k)
    (buf : List Byte) (r : WriteResult) :
    (s.putWorld c k ((s.world k).send c buf r)).Tidy (s.Held cfg) := by
  by_cases hconnected : k.conn.state = .kConnected
  · have hheld := howned.held_of_state hk (by rw [hconnected]; exact StateE.noConfusion)
    exact h.putIdle (a := .send buf r) hk hheld rfl rfl rfl
  · have hsend : (s.world k).send c buf r = s.world k := if_neg hconnected
    rw [hsend, putWorld_self hk]
    exact h

theorem Tidy.shutdown (h : s.Tidy (s.Held cfg)) (howned : s.Owned cfg) (hk : s.conns c = some k) :
    (s.putWorld c k (s.world k).shutdown).Tidy (s.Held cfg) := by
  by_cases hconnected : k.conn.state = .kConnected
  · have hheld := howned.held_of_state hk (by rw [hconnected]; exact StateE.noConfusion)
    exact h.putIdle (a := .shutdown) hk hheld rfl rfl rfl
  · have hshutdown : (s.world k).shutdown = s.world k := if_neg hconnected
    rw [hshutdown, putWorld_self hk]
    exact h

theorem Tidy.call (h : s.Tidy held) {f : LoopFunctor}
    (hestablish : ∀ c k, f = .connectEstablished c → s.conns c = some k →
      held c ∧ k.conn.state = .kConnecting)
    (hdestroy : ∀ c k, f = .connectDestroyed c → s.conns c = some k →
      held c ∧ k.conn.state = .kDisconnected) : (s.call l f).Tidy held := by
  cases f with
  | other => exact h
  | connectEstablished c =>
    unfold TcpServer.call
    dsimp only
    split
    · rename_i k hk
      obtain ⟨hc, hstate⟩ := hestablish c k rfl hk
      have hready : (⟨s.world k, none⟩ : LoopThread Nat).resume = none ∧
          (s.world k).conn.state = .kConnecting := ⟨rfl, hstate⟩
      exact h.putIdle (j := { k with established := true }) (a := .connectEstablished) hk hc rfl rfl
        (if_pos hready)
    · exact h
  | removeConnectionInLoop c =>
    unfold TcpServer.call
    dsimp only
    split
    · rename_i k _
      have herased : (s.erase k.name).Tidy held := h.congr rfl fun _ => rfl
      exact herased.setLoop rfl
    · exact h
  | connectDestroyed c =>
    unfold TcpServer.call
    dsimp only
    split
    · rename_i k hk
      obtain ⟨hc, hstate⟩ := hdestroy c k rfl hk
      have hdispatches : (⟨s.world k, none⟩ : LoopThread Nat).Dispatches := by
        refine ⟨rfl, ?_⟩
        change k.conn.state ≠ _
        rw [hstate]
        exact StateE.noConfusion
      have hput := h.putIdle (j := k) (a := .connectDestroyed) hk hc rfl rfl (if_pos hdispatches)
      exact hput.setLoop rfl
    · exact h

theorem Tidy.runInLoop (h : s.Tidy held) {f : LoopFunctor}
    (hestablish : ∀ c k, f = .connectEstablished c → s.conns c = some k →
      held c ∧ k.conn.state = .kConnecting)
    (hdestroy : ∀ c k, f = .connectDestroyed c → s.conns c = some k →
      held c ∧ k.conn.state = .kDisconnected) (own : Fin (n + 1)) :
    (s.runInLoop own l f).Tidy held := by
  unfold TcpServer.runInLoop
  split
  · exact h.call hestablish hdestroy
  · exact h.setLoop rfl

theorem Tidy.newConnection (h : s.Tidy (s.Held cfg)) (howned : s.Owned cfg) {sockfd : Fd}
    (hfree : s.FdIsFree cfg (.newConnection sockfd)) :
    (s.newConnection cfg sockfd).Tidy fun e => s.Held cfg e ∨ e = s.nextConnId := by
  have hconns (c : Nat) (k : ServerConn n) (hk : s.conns c = some k) : c ≠ s.nextConnId :=
    Nat.ne_of_lt (howned.ids c k hk).1
  have hfresh (c : Nat) (k : ServerConn n) (hk : s.conns c = some k) (hc : s.Held cfg c) :
      k.conn.channel.fd ≠ sockfd := hfree c (howned.ids c k hk).1 hc k hk
  have hkernel (l : Fin (n + 1)) : (s.loops l).poller.kernel sockfd = none := by
    rw [Option.eq_none_iff_forall_ne_some]
    rintro ⟨events, c⟩ hentry
    obtain ⟨k, hk, hregistered, _⟩ := howned.kernel l sockfd events c hentry
    exact hfresh c k hk (howned.held hk hregistered.alive) hregistered.fd
  unfold TcpServer.newConnection
  dsimp only
  refine (h.addConnection hconns rfl (hkernel _) hfresh _).runInLoop ?_ ?_ _
  · intro c k heq hk
    cases heq
    cases (addConnection_self _).symm.trans hk
    exact ⟨Or.inr rfl, rfl⟩
  · intro c k heq
    cases heq

theorem Tidy.resume (h : s.Tidy held) (howned : s.Owned cfg) (hheld : ∀ c, s.HeldByFunctor c → held c)
    (hmoves : s.Moves cfg (.resume l) s') : s'.Tidy held := by
  cases hmoves with
  | resumeClosing _ d hframe =>
    have hset : (s.setFrame l .idle).Tidy held := h.setLoop rfl
    refine hset.runInLoop (f := .removeConnectionInLoop d) ?_ ?_ l
    · intro c k heq
      cases heq
    · intro c k heq
      cases heq
  | resumeRemoving _ d k hframe hk =>
    have hset : (s.setFrame l .idle).Tidy held := h.setLoop rfl
    exact hset.setLoop rfl
  | resumeDestroying _ d k hframe hk =>
    obtain ⟨j, hj, _, _, hstate, _⟩ := howned.destroying (Or.inr hframe)
    cases hk.symm.trans hj
    have hd : held d := hheld d ⟨l, Or.inr (Or.inr (Or.inr (Or.inr hframe)))⟩
    have hput := h.putWorld (j := { k with destroyed := true }) (a := .resume)
      (r := some .removeChannel) hk hd rfl rfl (fun _ => hstate) rfl
    exact hput.setLoop rfl

theorem Tidy.runFunctor (h : s.Tidy held) (howned : s.Owned cfg)
    (hheld : ∀ c, s.HeldByFunctor c → held c) {f : LoopFunctor} {rest : List LoopFunctor}
    (hphase : (s.loops l).phase = .functors (f :: rest)) :
    ((s.setPhase l (.functors rest)).call l f).Tidy held := by
  have hmem : f ∈ (s.loops l).queue := by
    rw [queue_functors hphase]
    exact List.mem_cons_self
  have hset : (s.setPhase l (.functors rest)).Tidy held := h.setLoop rfl
  refine hset.call ?_ ?_
  · rintro c k rfl hk
    obtain ⟨j, hj, _, hstate⟩ := howned.token (mem_tokens_queue hmem (List.mem_singleton_self _))
    cases hk.symm.trans hj
    exact ⟨hheld c ⟨l, Or.inl hmem⟩, hstate⟩
  · rintro c k rfl hk
    obtain ⟨j, hj, _, _, hstate, _⟩ := howned.destroying (Or.inl hmem)
    cases hk.symm.trans hj
    exact ⟨hheld c ⟨l, Or.inr (Or.inr (Or.inl hmem))⟩, hstate⟩

theorem Tidy.dispatch (h : s.Tidy (s.Held cfg)) (howned : s.Owned cfg) {active : List Nat}
    {callback : EventCallback} {callbacks : List EventCallback}
    {rest : List (Nat × List EventCallback)}
    (hphase : (s.loops l).phase = .dispatch active ((c, callback :: callbacks) :: rest))
    (hk : s.conns c = some k) (read : ReadvResult) (write : WriteResult) :
    ((s.setPhase l (.dispatch active ((c, callbacks) :: rest))).eventCallback l c k read write
      callback).Tidy (s.Held cfg) := by
  have hlisted : c ∈ (s.loops l).phase.active := by
    refine (howned.wellFormed l).rest c (callback :: callbacks) ?_
    rw [hphase]
    exact List.mem_cons_self
  obtain ⟨j, hj, _, hestablished, halive⟩ := howned.listed hlisted
  cases hk.symm.trans hj
  have hset : (s.setPhase l (.dispatch active ((c, callbacks) :: rest))).Tidy (s.Held cfg) :=
    h.setLoop rfl
  exact hset.eventCallback hk (howned.held hk halive)
    ((howned.life c k hk).established.mp hestablished) read write callback

theorem Tidy.moves (h : s.Tidy (s.Held cfg)) (howned : s.Owned cfg) {a : ServerStep n}
    (hfree : s.FdIsFree cfg a) (hmoves : s.Moves cfg a s') :
    s'.Tidy fun e => s.Held cfg e ∨ a.accepts = true ∧ e = s.nextConnId := by
  have hsame (hs : s'.Tidy (s.Held cfg)) (ha : a.accepts = false) :
      s'.Tidy fun e => s.Held cfg e ∨ a.accepts = true ∧ e = s.nextConnId := by
    refine hs.mono fun e he => he.resolve_right ?_
    rw [ha]
    exact fun hnew => Bool.false_ne_true hnew.1
  cases hmoves with
  | newConnection sockfd =>
    exact (h.newConnection howned hfree).mono fun e he => he.imp_right And.right
  | poll | nextChannel | swapFunctors | endFunctors | queueOther => exact hsame (h.setLoop rfl) rfl
  | eventCallback l read write active c callback callbacks rest k hphase hidle hk =>
    exact hsame (h.dispatch howned hphase hk read write) rfl
  | resumeClosing l d hframe =>
    exact hsame (h.resume howned (fun _ => Or.inr) (.resumeClosing l d hframe)) rfl
  | resumeRemoving l d k hframe hk =>
    exact hsame (h.resume howned (fun _ => Or.inr) (.resumeRemoving l d k hframe hk)) rfl
  | resumeDestroying l d k hframe hk =>
    exact hsame (h.resume howned (fun _ => Or.inr) (.resumeDestroying l d k hframe hk)) rfl
  | runFunctor l f rest hphase =>
    exact hsame (h.runFunctor howned (fun _ => Or.inr) hphase) rfl
  | send c k buf r hk => exact hsame (h.send howned hk buf r) rfl
  | shutdown c k hk => exact hsame (h.shutdown howned hk) rfl

theorem Tidy.step (h : s.Tidy (s.Held cfg)) (howned : s.Owned cfg) {a : ServerStep n}
    (hfree : s.FdIsFree cfg a) (hmoves : s.Moves cfg a s') : s'.Tidy (s'.Held cfg) := by
  refine (h.moves howned hfree hmoves).mono ?_
  intro e he
  by_cases hnew : a.accepts = true ∧ e = s.nextConnId
  · exact Or.inr hnew
  · exact Or.inl (held_step howned hmoves (fun ha heq => hnew ⟨ha, heq⟩) he)

theorem reachable_tidy (h : (machine cfg).ReachableVia (Admissible cfg) s) :
    s.Owned cfg ∧ s.Tidy (s.Held cfg) := by
  refine h.invariant (P := fun s => s.Owned cfg ∧ s.Tidy (s.Held cfg)) ?_ ?_
  · intro s hinit
    rw [hinit]
    exact ⟨new_owned cfg, new_tidy⟩
  · intro s a s' _ hadmissible hstep htidy
    exact ⟨htidy.1.step hadmissible.1 hstep, htidy.2.step htidy.1 hadmissible.2 (step_moves hstep)⟩

/-! ### What the kernel waits for -/

end TcpServer

namespace TcpConnection

/-- Reading always, and writing while there is output. -/
def interest (conn : TcpConnection) : Events :=
  if conn.outputBuffer.content = [] then Channel.kReadEvent
  else Channel.kReadEvent ||| Channel.kWriteEvent

end TcpConnection

namespace Conn

variable {C : Type*} {w : Conn C} {c : C}

theorem Registered.interest (h : w.Registered c) (hsettled : w.Settled) (hopen : w.conn.IsOpen) :
    w.conn.channel.events = w.conn.interest := by
  have hcoupled : w.Coupled := hsettled.coupled hopen.not_disconnected
  rw [Coupled, isWriting, Channel.isWriting, pending] at hcoupled
  unfold TcpConnection.interest
  rcases (h.opened hopen).2 with hread | hboth
  · rw [hread] at hcoupled ⊢
    have hempty : w.conn.outputBuffer.content = [] := by
      by_contra hne
      exact absurd (hcoupled.mpr hne) (by decide)
    rw [if_pos hempty]
  · rw [hboth] at hcoupled ⊢
    rw [if_neg (hcoupled.mp (by decide))]

end Conn

namespace TcpServer

variable {n : Nat} {cfg : ServerConfig} {s : TcpServer n}

end TcpServer

end LTMuduo
