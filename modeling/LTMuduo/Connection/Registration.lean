import LTMuduo.Connection.Spec
import LTMuduo.Poller.Entries

/-!
# The functions of a connection and its registration

Seen from the loops and the server, a function of a connection changes `state_` and registers the channel anew, at most. Nothing here depends on what is in the buffers.
-/

namespace LTMuduo.Conn

variable {C : Type*} {w w' : Conn C} {c : C}

/-- The channel and the poller are as before, or `update()` has been called once on the channel. -/
inductive Registration (c : C) (w w' : Conn C) : Prop
  | same (hchannel : w'.conn.channel = w.conn.channel) (hpoller : w'.poller = w.poller)
  | update (ch : Channel) (events : Events) (hfd : ch.fd = w.conn.channel.fd)
      (hset : (w'.poller, w'.conn.channel) = ch.setEvents w.poller c events)

theorem Registration.refl : Registration c w w := .same rfl rfl

theorem Registration.fd (h : Registration c w w') :
    w'.conn.channel.fd = w.conn.channel.fd := by
  cases h with
  | same hchannel => rw [hchannel]
  | update ch events hfd hset =>
    have hchannel : w'.conn.channel = (ch.setEvents w.poller c events).2 := congrArg Prod.snd hset
    rw [hchannel, Channel.setEvents_fd, hfd]

/-- The tables of the poller know channel `c` at its own descriptor only. -/
structure KnownAtFd (c : C) (w : Conn C) : Prop where
  channels : ∀ fd, w.poller.channels fd = some c → fd = w.conn.channel.fd
  kernel : ∀ fd ev, w.poller.kernel fd = some (ev, c) →
    fd = w.conn.channel.fd ∧ w.conn.channel.index = .kAdded

theorem Registration.channels (h : Registration c w w') (hknown : w.KnownAtFd c) {fd : Fd} {e : C}
    (he : w'.poller.channels fd = some e) :
    e ≠ c ∧ w.poller.channels fd = some e ∨ e = c ∧ w'.conn.channel.fd = fd := by
  have hentry : (fd = w.conn.channel.fd ∧ e = c) ∨ w.poller.channels fd = some e := by
    cases h with
    | same _ hpoller =>
      rw [hpoller] at he
      exact Or.inr he
    | update ch events hfd hset =>
      have hpoller : w'.poller = (ch.setEvents w.poller c events).1 := congrArg Prod.fst hset
      rw [hpoller] at he
      rw [← hfd]
      exact Channel.setEvents_channels he
  by_cases hec : e = c
  · subst e
    refine Or.inr ⟨rfl, h.fd.trans ?_⟩
    exact (hentry.elim And.left (hknown.channels fd)).symm
  · exact Or.inl ⟨hec, hentry.resolve_left fun hnew => hec hnew.2⟩

theorem Registration.kernel (h : Registration c w w') (hknown : w.KnownAtFd c) {fd : Fd}
    {ev : Events} {e : C} (he : w'.poller.kernel fd = some (ev, e)) :
    e ≠ c ∧ w.poller.kernel fd = some (ev, e) ∨
      e = c ∧ w'.conn.channel.fd = fd ∧ w'.conn.channel.index = .kAdded := by
  have hentry : ((fd = w.conn.channel.fd ∧ e = c) ∨ w.poller.kernel fd = some (ev, e)) ∧
      (e = c → w'.conn.channel.index = .kAdded) := by
    cases h with
    | same hchannel hpoller =>
      rw [hpoller] at he
      refine ⟨Or.inr he, ?_⟩
      intro hec
      rw [hec] at he
      rw [hchannel]
      exact (hknown.kernel fd ev he).2
    | update ch events hfd hset =>
      have hpoller : w'.poller = (ch.setEvents w.poller c events).1 := congrArg Prod.fst hset
      have hchannel : w'.conn.channel = (ch.setEvents w.poller c events).2 := congrArg Prod.snd hset
      rw [hpoller] at he
      obtain ⟨hentry, hadded⟩ := Channel.setEvents_kernel he
      rw [hfd] at hentry hadded
      refine ⟨hentry, ?_⟩
      intro hec
      rw [hchannel]
      apply hadded
      rcases hentry with ⟨hsame, _⟩ | hold
      · exact hsame
      · rw [hec] at hold
        exact (hknown.kernel fd ev hold).1
  obtain ⟨hentry, hadded⟩ := hentry
  by_cases hec : e = c
  · subst e
    refine Or.inr ⟨rfl, h.fd.trans ?_, hadded rfl⟩
    exact (hentry.elim And.left fun hold => (hknown.kernel fd ev hold).1).symm
  · exact Or.inl ⟨hec, hentry.resolve_left fun hnew => hec hnew.2⟩

/-- What the calls that leave the channel alone have in common. -/
def Aside (w w' : Conn C) : Prop :=
  w'.conn.channel = w.conn.channel ∧ w'.poller = w.poller ∧ w'.conn.state = w.conn.state

theorem Queued.aside (h : w.Queued w') : w.Aside w' := by
  obtain ⟨hconn, hpoller, _⟩ := h
  exact ⟨by rw [hconn], hpoller, by rw [hconn]⟩

theorem Aside.trans {w'' : Conn C} (h : w.Aside w') (h' : w'.Aside w'') : w.Aside w'' :=
  ⟨h'.1.trans h.1, h'.2.1.trans h.2.1, h'.2.2.trans h.2.2⟩

theorem Aside.registration {w'' : Conn C} (h : w.Aside w')
    (h' : Registration c w' w'' ∧ w''.conn.state = w'.conn.state) :
    Registration c w w'' ∧ w''.conn.state = w.conn.state := by
  obtain ⟨hchannel, hpoller, hstate⟩ := h
  refine ⟨?_, h'.2.trans hstate⟩
  cases h'.1 with
  | same hchannel' hpoller' => exact .same (hchannel'.trans hchannel) (hpoller'.trans hpoller)
  | update ch events hfd hset =>
    rw [hpoller] at hset
    rw [hchannel] at hfd
    exact .update ch events hfd hset

variable (w c)

theorem sendDirectly_aside (data : List Byte) (r : WriteResult) :
    w.Aside (w.sendDirectly data r).1 := by
  obtain ⟨hqueued, _⟩ := w.sendDirectly_spec data r
  exact Aside.trans ⟨rfl, rfl, rfl⟩ hqueued.aside

theorem bufferOutput_registration (rest : List Byte) :
    Registration c w (w.bufferOutput c rest) ∧
      (w.bufferOutput c rest).conn.state = w.conn.state := by
  unfold bufferOutput
  dsimp only
  split
  · exact ⟨.update _ _ rfl rfl, rfl⟩
  · exact ⟨.same rfl rfl, rfl⟩

theorem bufferRest_registration (data : List Byte) (sent : Sent) :
    Registration c w (w.bufferRest c data sent) ∧
      (w.bufferRest c data sent).conn.state = w.conn.state := by
  unfold bufferRest
  split
  · have haside := (w.queued_queueHighWaterMark sent.remaining).aside
    exact haside.registration (bufferOutput_registration _ c _)
  · exact ⟨.refl, rfl⟩

theorem send_registration (buf : List Byte) (r : WriteResult) :
    Registration c w (w.send c buf r) ∧ (w.send c buf r).conn.state = w.conn.state := by
  unfold send sendInLoop
  split
  · split
    · exact ⟨.refl, rfl⟩
    · exact (w.sendDirectly_aside buf r).registration (bufferRest_registration _ c _ _)
  · exact ⟨.refl, rfl⟩

theorem shutdownInLoop_aside : w.Aside w.shutdownInLoop := by
  unfold shutdownInLoop
  split
  · exact ⟨rfl, rfl, rfl⟩
  · exact ⟨rfl, rfl, rfl⟩

theorem shutdown_registration :
    Registration c w w.shutdown ∧
      (w.shutdown.conn.state = w.conn.state ∨
        w.conn.state = .kConnected ∧ w.shutdown.conn.state = .kDisconnecting) := by
  unfold shutdown
  split
  · rename_i hconnected
    obtain ⟨hchannel, hpoller, hstate⟩ := (w.setState .kDisconnecting).shutdownInLoop_aside
    exact ⟨.same hchannel hpoller, Or.inr ⟨hconnected, hstate⟩⟩
  · exact ⟨.refl, Or.inl rfl⟩

theorem handleWriteFinish_aside : w.Aside w.handleWriteFinish := by
  unfold handleWriteFinish
  split
  · exact w.shutdownInLoop_aside
  · exact ⟨rfl, rfl, rfl⟩

theorem handleWriteDrain_registration (r : WriteResult) :
    Registration c w (w.handleWriteDrain c r).1 ∧
      (w.handleWriteDrain c r).1.conn.state = w.conn.state := by
  by_cases hwriting : w.isWriting = true
  · rw [w.handleWriteDrain_eq c r hwriting]
    dsimp only
    split
    · exact ⟨.same rfl rfl, rfl⟩
    · split
      · set rest := (w.emit (.handleWrite (r.taken w.pending) r)).retrieveOutput (r.taken w.pending).length
        obtain ⟨hchannel, hpoller, hstate⟩ := (rest.disableWriting c).queued_queueWriteComplete.aside
        refine ⟨.update w.conn.channel (w.conn.channel.events &&& ~~~Channel.kWriteEvent) rfl ?_, hstate⟩
        rw [hchannel, hpoller]
        rfl
      · exact ⟨.same rfl rfl, rfl⟩
  · rw [w.handleWriteDrain_of_not_writing c r (by simpa using hwriting)]
    exact ⟨.refl, rfl⟩

theorem handleWrite_registration (r : WriteResult) :
    Registration c w (w.handleWrite c r) ∧ (w.handleWrite c r).conn.state = w.conn.state := by
  obtain ⟨hdrain, hstate⟩ := w.handleWriteDrain_registration c r
  unfold handleWrite
  generalize w.handleWriteDrain c r = result at *
  obtain ⟨w₁, drained⟩ := result
  dsimp only at *
  split
  · obtain ⟨hchannel, hpoller, hstate'⟩ := w₁.handleWriteFinish_aside
    refine ⟨?_, hstate'.trans hstate⟩
    cases hdrain with
    | same hchannel' hpoller' => exact .same (hchannel.trans hchannel') (hpoller.trans hpoller')
    | update ch events hfd hset =>
      refine .update ch events hfd ?_
      rw [hchannel, hpoller]
      exact hset
  · exact ⟨hdrain, hstate⟩

theorem handleClose_registration :
    Registration c w (w.handleClose c) ∧ (w.handleClose c).conn.state = .kDisconnected :=
  ⟨.update w.conn.channel _ rfl rfl, rfl⟩

theorem handleRead_registration (r : ReadvResult) :
    Registration c w (w.handleRead c r).1 ∧
      (w.handleRead c r).1.conn.state =
        if (w.handleRead c r).2 then .kDisconnected else w.conn.state := by
  unfold handleRead
  dsimp only
  split
  · exact ⟨.same rfl rfl, rfl⟩
  · split
    · exact ⟨.update w.conn.channel _ rfl rfl, rfl⟩
    · exact ⟨.same rfl rfl, rfl⟩

theorem connectEstablished_registration :
    Registration c w (w.connectEstablished c) ∧
      (w.connectEstablished c).conn.state = .kConnected :=
  ⟨.update { w.conn.channel with tied := true } _ rfl rfl, rfl⟩

theorem connectDestroyed_of_not_connected (hstate : w.conn.state ≠ .kConnected) :
    w.connectDestroyed c = w := if_neg hstate

theorem connectDestroyedRest_channels (hknown : w.KnownAtFd c) {fd : Fd} {e : C}
    (he : (w.connectDestroyedRest c).poller.channels fd = some e) :
    e ≠ c ∧ w.poller.channels fd = some e := by
  obtain ⟨hold, hfd⟩ := Channel.remove_channels he
  refine ⟨?_, hold⟩
  intro hec
  rw [hec] at hold
  exact hfd (hknown.channels fd hold)

theorem connectDestroyedRest_kernel (hknown : w.KnownAtFd c) {fd : Fd} {ev : Events} {e : C}
    (he : (w.connectDestroyedRest c).poller.kernel fd = some (ev, e)) :
    e ≠ c ∧ w.poller.kernel fd = some (ev, e) := by
  obtain ⟨hold, hfd⟩ := Channel.remove_kernel he
  refine ⟨?_, hold⟩
  intro hec
  rw [hec] at hold
  obtain ⟨hsame, hadded⟩ := hknown.kernel fd ev hold
  exact hfd hadded hsame

end LTMuduo.Conn
