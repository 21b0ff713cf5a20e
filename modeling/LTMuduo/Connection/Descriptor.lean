import LTMuduo.Connection.Lifetime

/-!
# A connection and its descriptor

The functions of a connection reach the tables of the poller at the descriptor of the connection only, and where the tables agree with the channel, no `epoll_ctl` of them fails. This is what a loop with many connections needs to know of each of them.
-/

namespace LTMuduo

namespace TcpConnection

/-- A connection that is up or half closed. -/
def IsOpen (conn : TcpConnection) : Prop :=
  conn.state = .kConnected ∨ conn.state = .kDisconnecting

theorem IsOpen.not_disconnected {conn : TcpConnection} (h : conn.IsOpen) :
    conn.state ≠ .kDisconnected := by
  rcases h with hstate | hstate <;> rw [hstate] <;> exact StateE.noConfusion

end TcpConnection

variable {C : Type*}

namespace EPollPoller

variable {p : EPollPoller C} {c : C} (ch : Channel) {fd : Fd}

theorem update_kernel_of_ne (operation : CtlOp) (hfd : fd ≠ ch.fd) :
    (p.update operation c ch).kernel fd = p.kernel fd := by
  unfold update epollCtl
  cases operation <;> cases p.kernel ch.fd <;> simp [Function.update_of_ne hfd]

theorem updateChannel_of_ne (hfd : fd ≠ ch.fd) :
    (p.updateChannel c ch).1.kernel fd = p.kernel fd ∧
      (p.updateChannel c ch).1.channels fd = p.channels fd := by
  unfold updateChannel
  split
  · rw [update_kernel_of_ne { ch with index := .kAdded } _ hfd, update_channels]
    split
    · exact ⟨rfl, Function.update_of_ne hfd _ _⟩
    · exact ⟨rfl, rfl⟩
  · split
    · exact ⟨update_kernel_of_ne ch _ hfd, by rw [update_channels]⟩
    · exact ⟨update_kernel_of_ne ch _ hfd, by rw [update_channels]⟩

theorem removeChannel_of_ne (hfd : fd ≠ ch.fd) :
    (p.removeChannel c ch).1.kernel fd = p.kernel fd ∧
      (p.removeChannel c ch).1.channels fd = p.channels fd := by
  unfold removeChannel
  dsimp only
  split
  · rw [update_kernel_of_ne ch _ hfd, update_channels]
    exact ⟨rfl, Function.update_of_ne hfd _ _⟩
  · exact ⟨rfl, Function.update_of_ne hfd _ _⟩

theorem updateChannel_failed (hkernel : p.kernel ch.fd = none ↔ ch.index ≠ .kAdded) :
    (p.updateChannel c ch).1.failed = p.failed := by
  cases hindex : ch.index with
  | kNew | kDeleted =>
    have hnone : p.kernel ch.fd = none := hkernel.mpr (by rw [hindex]; exact Index.noConfusion)
    simp [updateChannel, update, epollCtl, hindex, hnone]
  | kAdded =>
    obtain ⟨entry, hsome⟩ := Option.ne_none_iff_exists'.mp (mt hkernel.mp (absurd hindex ·))
    by_cases hevents : ch.isNoneEvent = true
    · simp [updateChannel, update, epollCtl, hindex, hsome, hevents]
    · simp [updateChannel, update, epollCtl, hindex, hsome, hevents]

theorem removeChannel_failed (hkernel : p.kernel ch.fd = none ↔ ch.index ≠ .kAdded) :
    (p.removeChannel c ch).1.failed = p.failed := by
  by_cases hindex : ch.index = .kAdded
  · obtain ⟨entry, hsome⟩ := Option.ne_none_iff_exists'.mp (mt hkernel.mp (absurd hindex ·))
    simp [removeChannel, update, epollCtl, hindex, hsome]
  · simp [removeChannel, hindex]

end EPollPoller

theorem Channel.kernelEntry_eq_none {c : C} {ch : Channel} :
    ch.kernelEntry c = none ↔ ch.index ≠ .kAdded := by
  unfold kernelEntry
  split
  · rename_i hindex
    exact iff_of_false (Option.some_ne_none _) (absurd hindex ·)
  · rename_i hindex
    exact iff_of_true rfl hindex

namespace Conn

variable {w w' w'' : Conn C} {c : C}

/-- What a function of a connection leaves as it was: its descriptor, the entries at other descriptors, and the list of failed calls. -/
structure Minds (w w' : Conn C) : Prop where
  fd : w'.conn.channel.fd = w.conn.channel.fd
  others : ∀ fd, fd ≠ w.conn.channel.fd → w'.poller.kernel fd = w.poller.kernel fd ∧
    w'.poller.channels fd = w.poller.channels fd
  failed : w'.poller.failed = w.poller.failed

theorem Minds.of_aside (hchannel : w'.conn.channel = w.conn.channel) (hpoller : w'.poller = w.poller) :
    w.Minds w' where
  fd := by rw [hchannel]
  others := by
    intro fd _
    rw [hpoller]
    exact ⟨rfl, rfl⟩
  failed := by rw [hpoller]

theorem Registered.kernel_none (h : w.Registered c) :
    w.poller.kernel w.conn.channel.fd = none ↔ w.conn.channel.index ≠ .kAdded := by
  rw [h.kernel]
  exact Channel.kernelEntry_eq_none

theorem Registered.minds_setEvents (h : w.Registered c) (ch : Channel) (events : Events)
    (hfd : ch.fd = w.conn.channel.fd) (hindex : ch.index = w.conn.channel.index)
    (hset : (w'.poller, w'.conn.channel) = ch.setEvents w.poller c events) : w.Minds w' := by
  have hpoller : w'.poller = (ch.setEvents w.poller c events).1 := congrArg Prod.fst hset
  have hchannel : w'.conn.channel = (ch.setEvents w.poller c events).2 := congrArg Prod.snd hset
  refine ⟨?_, ?_, ?_⟩
  · rw [hchannel, Channel.setEvents_fd, hfd]
  · intro fd hne
    rw [hpoller]
    exact EPollPoller.updateChannel_of_ne { ch with events := events } (hfd ▸ hne)
  · rw [hpoller]
    refine EPollPoller.updateChannel_failed { ch with events := events } ?_
    dsimp only
    rw [hfd, hindex]
    exact h.kernel_none

theorem Registered.minds_works (h : w.Registered c) (hworks : Works c w w') : w.Minds w' := by
  rcases hworks.channel with hsame | ⟨_, on, hset⟩
  · exact .of_aside (congrArg Prod.snd hsame) (congrArg Prod.fst hsame)
  · exact h.minds_setEvents _ _ rfl rfl hset

theorem Registered.minds_handleClose (h : w.Registered c) : w.Minds (w.handleClose c) :=
  h.minds_setEvents w.conn.channel 0 rfl rfl rfl

theorem Registered.connectDestroyedRest (h : w.Registered c)
    (hstate : w.conn.state = .kDisconnected) :
    (w.connectDestroyedRest c).Registered c ∧ w.Minds (w.connectDestroyedRest c) := by
  have hkernel : (w.connectDestroyedRest c).poller.kernel w.conn.channel.fd = none := by
    change (w.poller.removeChannel c w.conn.channel).1.kernel w.conn.channel.fd = none
    unfold EPollPoller.removeChannel
    dsimp only
    split
    · rename_i hindex
      have hentry := h.kernel
      rw [Channel.kernelEntry, if_pos hindex] at hentry
      simp [EPollPoller.update, epollCtl, hentry]
    · rename_i hindex
      exact h.kernel_none.mpr hindex
  refine ⟨⟨?_, ?_, ?_, ?_, ?_⟩, ⟨rfl, ?_, ?_⟩⟩
  · exact hkernel
  · exact fun hindex => absurd rfl hindex
  · intro hconnecting
    rw [show w.conn.state = .kConnecting from hconnecting] at hstate
    cases hstate
  · rintro (hopen | hopen)
    · rw [show w.conn.state = .kConnected from hopen] at hstate
      cases hstate
    · rw [show w.conn.state = .kDisconnecting from hopen] at hstate
      cases hstate
  · exact fun _ => h.closed hstate
  · exact fun fd hne => EPollPoller.removeChannel_of_ne _ hne
  · exact EPollPoller.removeChannel_failed _ h.kernel_none

end Conn

/-- Every call but the one that stands for the other channels. -/
def LoopCall.isOwn : LoopCall C → Bool
  | .otherChannels _ => false
  | _ => true

namespace Conn

variable {w : Conn C} {c : C}

theorem Registered.of_new {sockfd : Fd} {writeComplete highWater : Bool} {mark : Nat}
    {poller : EPollPoller C} (hkernel : poller.kernel sockfd = none) :
    (⟨.new sockfd writeComplete highWater mark, poller, []⟩ : Conn C).Registered c where
  kernel := hkernel
  channels := fun hindex => absurd rfl hindex
  connecting := fun _ => ⟨rfl, rfl⟩
  opened := by
    rintro (hopen | hopen) <;> cases hopen
  closed := fun hclosed => StateE.noConfusion hclosed

theorem Registered.shutdown (h : w.Registered c) : w.shutdown.Registered c ∧ w.Minds w.shutdown := by
  unfold Conn.shutdown
  split
  · rename_i hconnected
    obtain ⟨hchannel, hpoller, hstate⟩ := (w.setState .kDisconnecting).shutdownInLoop_aside
    have hstored : (w.setState .kDisconnecting).Registered c :=
      ⟨h.kernel, h.channels, StateE.noConfusion, fun _ => h.opened (Or.inl hconnected),
        StateE.noConfusion⟩
    have hshut : (w.setState .kDisconnecting).shutdownInLoop.Registered c :=
      hstored.congr hstate hchannel (by rw [hpoller]) (by rw [hpoller])
    exact ⟨hshut, .of_aside hchannel hpoller⟩
  · exact ⟨h, .of_aside rfl rfl⟩

theorem Registered.handleRead (h : w.Registered c) (r : ReadvResult) :
    (w.handleRead c r).1.Registered c ∧ w.Minds (w.handleRead c r).1 := by
  have hread := h.works (w.readInput_works c r)
  cases r with
  | failed errno =>
    rw [handleRead_failed]
    exact ⟨hread, .of_aside rfl rfl⟩
  | delivered data =>
    by_cases hdata : data = []
    · subst data
      rw [handleRead_end]
      obtain ⟨hfd, hothers, hfailed⟩ := hread.minds_handleClose
      exact ⟨hread.handleClose, hfd, hothers, hfailed⟩
    · rw [handleRead_message w c hdata]
      exact ⟨hread.congr rfl rfl rfl rfl, .of_aside rfl rfl⟩

theorem Registered.connectDestroyed_minds (h : w.Registered c) : w.Minds (w.connectDestroyed c) := by
  by_cases hconnected : w.conn.state = .kConnected
  · rw [show w.connectDestroyed c = w.handleClose c from if_pos hconnected]
    exact h.minds_handleClose
  · rw [w.connectDestroyed_of_not_connected c hconnected]
    exact .of_aside rfl rfl

end Conn

namespace LoopThread

variable {c : C} {s s' : LoopThread C} {call : LoopCall C}

/-- The step lemma: the channel stays registered as the state of the connection says. -/
theorem step_registered (h : s.world.Registered c) (hown : call.isOwn = true)
    (hremove : s.resume = some .removeChannel → s.world.conn.state = .kDisconnected)
    (hstep : step c s call = some s') : s'.world.Registered c ∧ s.world.Minds s'.world := by
  cases call with
  | connectEstablished =>
    obtain ⟨⟨_, hstate⟩, hsome⟩ := Option.ite_none_right_eq_some.mp hstep
    cases hsome
    refine ⟨h.connectEstablished hstate, ?_⟩
    exact h.minds_setEvents { s.world.conn.channel with tied := true }
      (s.world.conn.channel.events ||| Channel.kReadEvent) rfl rfl rfl
  | send buf r =>
    cases hstep
    have hworks := s.world.send_works c buf r
    exact ⟨h.works hworks, h.minds_works hworks⟩
  | shutdown =>
    cases hstep
    exact h.shutdown
  | retrieveInput len =>
    cases hstep
    exact ⟨h.congr rfl rfl rfl rfl, .of_aside rfl rfl⟩
  | handleRead r =>
    obtain ⟨_, hsome⟩ := Option.ite_none_right_eq_some.mp hstep
    cases hsome
    exact h.handleRead r
  | handleWrite r =>
    obtain ⟨_, hsome⟩ := Option.ite_none_right_eq_some.mp hstep
    cases hsome
    have hworks := s.world.handleWrite_works c r
    exact ⟨h.works hworks, h.minds_works hworks⟩
  | handleClose =>
    obtain ⟨_, hsome⟩ := Option.ite_none_right_eq_some.mp hstep
    cases hsome
    exact ⟨h.handleClose, h.minds_handleClose⟩
  | handleError =>
    obtain ⟨_, hsome⟩ := Option.ite_none_right_eq_some.mp hstep
    cases hsome
    exact ⟨h, .of_aside rfl rfl⟩
  | connectDestroyed =>
    obtain ⟨_, hsome⟩ := Option.ite_none_right_eq_some.mp hstep
    cases hsome
    exact ⟨h.connectDestroyed, h.connectDestroyed_minds⟩
  | resume =>
    unfold step at hstep
    dsimp only at hstep
    split at hstep
    · cases hstep
      exact ⟨h.congr rfl rfl rfl rfl, .of_aside rfl rfl⟩
    · rename_i hresume
      cases hstep
      exact h.connectDestroyedRest (hremove hresume)
    · cases hstep
  | otherChannels poller => cases hown

end LoopThread

end LTMuduo
