import LTMuduo.Connection.CloseOnce

/-!
# What `connectDestroyed` leaves behind

`connectDestroyed` comes to a connection that `handleClose` has closed, or from the destructor of the server to one that is still open. Its test is for `kConnected`, and a connection that the user has shut down is open as well: in the state `kDisconnecting` it is neither disconnected nor reported.
-/

namespace LTMuduo.Lifetime

variable {C : Type*} {c : C} {s s' : Lifetime C} {a : LifeStep C}

/-- The connection is disconnected and was reported down, and its channel is without events and out of the poller. -/
structure Destroyed (s : Lifetime C) : Prop where
  state : s.world.conn.state = .kDisconnected
  events : s.world.conn.channel.events = 0
  channels : s.world.poller.channels s.world.conn.channel.fd = none
  kernel : s.world.poller.kernel s.world.conn.channel.fd = none
  reported : .connectionCallback false ∈ s.world.effects

def destroys : LifeStep C → Bool
  | .call .connectDestroyed => true
  | _ => false

/-- `connectDestroyed` does not come to a connection in the state `kDisconnecting`. -/
def notDisconnecting (s : Lifetime C) (a : LifeStep C) : Prop :=
  destroys a = true → s.world.conn.state ≠ .kDisconnecting

instance (s : Lifetime C) (a : LifeStep C) : Decidable (s.notDisconnecting a) :=
  inferInstanceAs (Decidable (_ → _))

/-- From the test in `connectDestroyed` on, the connection is disconnected. -/
def DisconnectedAtEnd (s : Lifetime C) : Prop :=
  s.thread.resume = some .removeChannel ∨ s.returned = true → s.world.conn.state = .kDisconnected

theorem Registered.connectDestroyedRest {w : Conn C} (h : w.Registered c) :
    (w.connectDestroyedRest c).poller.channels w.conn.channel.fd = none ∧
      (w.connectDestroyedRest c).poller.kernel w.conn.channel.fd = none := by
  constructor
  · cases hentry : (w.connectDestroyedRest c).poller.channels w.conn.channel.fd with
    | none => rfl
    | some e => exact absurd rfl (Channel.remove_channels hentry).2
  · cases hentry : (w.connectDestroyedRest c).poller.kernel w.conn.channel.fd with
    | none => rfl
    | some entry =>
      obtain ⟨hold, hfd⟩ := Channel.remove_kernel hentry
      rw [h.kernel, Channel.kernelEntry] at hold
      split at hold
      · rename_i hadded
        exact absurd rfl (hfd hadded)
      · cases hold

/-- Once `connectDestroyed` has returned, the tables do not know the channel. -/
structure Removed (s : Lifetime C) : Prop where
  events : s.world.conn.state = .kDisconnected → s.world.conn.channel.events = 0
  channels : s.world.poller.channels s.world.conn.channel.fd = none
  kernel : s.world.poller.kernel s.world.conn.channel.fd = none

theorem Moves.removed (hmoves : s.Moves c a s') (hreturned : s.returned = false)
    (hregistered : s.world.Registered c) : s'.returned = true → s'.Removed := by
  intro hback
  cases hmoves with
  | destroyReturns hresume =>
    obtain ⟨hchannels, hkernel⟩ := Registered.connectDestroyedRest hregistered
    exact ⟨hregistered.closed, hchannels, hkernel⟩
  | _ =>
    rw [show s.returned = true from hback] at hreturned
    cases hreturned

/-- The invariant of all runs up to the return of `connectDestroyed` and behind it. -/
def Ends (c : C) (s : Lifetime C) : Prop := s.Sound c ∧ (s.returned = true → s.Removed)

theorem Ends.step [DecidableEq C] (h : s.Ends c) (hstep : (machine c).step s a = some s') :
    s'.Ends c := by
  obtain ⟨hsound, _⟩ := h
  obtain ⟨hmoves, hreturned⟩ := step_moves hstep
  refine ⟨hsound.step hstep, ?_⟩
  rcases hsound.2 with hback | hregistered
  · rw [hreturned] at hback
    cases hback
  · exact hmoves.removed hreturned hregistered

/-- `connectDestroyed` disconnects a connection that is connected, and a step behind it changes nothing of that. -/
theorem Moves.ending (hmoves : s.Moves c a s') (hreturned : s.returned = false) :
    (a = .call .connectDestroyed ∧ s.thread.Dispatches ∧
      s'.thread.resume = some .removeChannel ∧ s'.world.conn.state =
        if s.world.conn.state = .kConnected then .kDisconnected else s.world.conn.state) ∨
    (a ≠ .call .connectDestroyed ∧
      (s'.thread.resume = some .removeChannel ∨ s'.returned = true ↔
        s.thread.resume = some .removeChannel) ∧
      (s.thread.resume = some .removeChannel →
        (s'.world.conn.state = .kDisconnected ↔ s.world.conn.state = .kDisconnected))) := by
  have hsame : s.thread.resume = some .removeChannel ∨ s.returned = true ↔
      s.thread.resume = some .removeChannel := by
    rw [hreturned]
    exact or_iff_left Bool.false_ne_true
  cases hmoves with
  | connectDestroyed hdispatches hcallbacks =>
    refine Or.inl ⟨rfl, hdispatches, rfl, ?_⟩
    change (s.world.connectDestroyed c).conn.state = _
    unfold Conn.connectDestroyed
    split
    · rfl
    · rfl
  | poll => exact Or.inr ⟨nofun, hsame, fun _ => Iff.rfl⟩
  | handled read write callback rest w _ _ _ _ hworks =>
    exact Or.inr ⟨nofun, hsame, fun _ => by rw [← hworks.state]; rfl⟩
  | message data write rest w _ _ hworks =>
    exact Or.inr ⟨nofun, hsame, fun _ => by rw [← hworks.state]; rfl⟩
  | user call w hcall hworks =>
    refine Or.inr ⟨?_, hsame, fun _ => by rw [← hworks.state]; rfl⟩
    intro heq
    cases heq
    exact hcall rfl
  | otherChannels poller => exact Or.inr ⟨by simp, hsame, fun _ => Iff.rfl⟩
  | shutdown hconnected =>
    obtain ⟨_, _, hstate⟩ := (s.world.setState .kDisconnecting).shutdownInLoop_aside
    refine Or.inr ⟨by simp, hsame, fun _ => ?_⟩
    rw [hconnected]
    refine iff_of_false ?_ StateE.noConfusion
    intro hclosed
    cases hstate.symm.trans hclosed
  | closed read write callback rest w hdispatches =>
    have hresume := hdispatches.1
    refine Or.inr ⟨nofun, ?_, ?_⟩
    · rw [hresume]
      refine iff_of_false ?_ (by decide)
      exact not_or.mpr ⟨by simp [afterThread], by simpa [afterThread] using hreturned⟩
    · rw [hresume]
      exact fun h => absurd h (by decide)
  | connectEstablished hresume =>
    refine Or.inr ⟨by simp, hsame, ?_⟩
    rw [hresume]
    exact fun h => absurd h (by decide)
  | closeReturns hresume =>
    refine Or.inr ⟨by simp, ?_, ?_⟩
    · rw [hresume]
      refine iff_of_false ?_ (by decide)
      exact not_or.mpr ⟨by simp [afterThread], by simpa [afterThread] using hreturned⟩
    · rw [hresume]
      exact fun h => absurd h (by decide)
  | destroyReturns hresume =>
    exact Or.inr ⟨by simp, iff_of_true (Or.inr rfl) hresume, fun _ => Iff.rfl⟩

theorem Moves.disconnectedAtEnd (hmoves : s.Moves c a s') (hreturned : s.returned = false)
    (hguard : s.notDisconnecting a) (h : s.DisconnectedAtEnd) : s'.DisconnectedAtEnd := by
  intro hend
  rcases hmoves.ending hreturned with ⟨rfl, hdispatches, _, hstate⟩ | ⟨_, hsame, hstate⟩
  · rw [hstate]
    cases hbefore : s.world.conn.state with
    | kDisconnecting => exact absurd hbefore (hguard rfl)
    | kConnecting => exact absurd hbefore hdispatches.2
    | kConnected => rfl
    | kDisconnected => rfl
  · have hresume := hsame.mp hend
    exact (hstate hresume).mpr (h (Or.inl hresume))

theorem Moves.disconnectedAtEnd_lost (hmoves : s.Moves c a s') (hreturned : s.returned = false)
    (hguard : ¬ s.notDisconnecting a) : ¬ s'.DisconnectedAtEnd := by
  intro h
  obtain ⟨hdestroys, hbefore⟩ := Classical.not_imp.mp hguard
  have hbefore := not_not.mp hbefore
  rcases hmoves.ending hreturned with ⟨_, _, hresume, hstate⟩ | ⟨hne, _⟩
  · rw [h (Or.inl hresume), hbefore] at hstate
    cases hstate
  · unfold destroys at hdestroys
    split at hdestroys
    · exact hne rfl
    · cases hdestroys

theorem Moves.disconnectedAtEnd_back (hmoves : s.Moves c a s') (hreturned : s.returned = false)
    (h : s'.DisconnectedAtEnd) : s.DisconnectedAtEnd := by
  intro hend
  have hresume : s.thread.resume = some .removeChannel := by
    rcases hend with hend | hend
    · exact hend
    · rw [hreturned] at hend
      cases hend
  rcases hmoves.ending hreturned with ⟨_, hdispatches, _⟩ | ⟨_, hsame, hstate⟩
  · rw [hdispatches.1] at hresume
    cases hresume
  · exact (hstate hresume).mp (h (hsame.mpr hresume))

/-- Whatever happened to the connection since `connectEstablished`: when `connectDestroyed` returns, it is disconnected, was reported down, and its channel is out of the poller, exactly when it was not in the state `kDisconnecting` at the call. -/
theorem destroyed_iff [DecidableEq C] {as : List (LifeStep C)} (hfresh : s.Fresh)
    (hrun : (machine c).run s as = some s') (hreturned : s'.returned = true) :
    s'.Destroyed ↔
      ((machine c).restrict fun s a => s.notDisconnecting a).run s as = some s' := by
  have hopen : s.returned = false := hfresh.2.2.2.2
  have hstart : s.DisconnectedAtEnd := by
    obtain ⟨_, _, _, _, _, _, hresume⟩ := hfresh.1
    intro hend
    rw [hresume, hopen] at hend
    exact absurd hend (by decide)
  have hends : s'.Ends c := by
    refine Machine.run_preserves (P := Ends c) (fun t a t' _ h hstep => h.step hstep) ?_ hrun
    refine ⟨hfresh.sound, ?_⟩
    intro hback
    rw [hopen] at hback
    cases hback
  have hexact : s'.DisconnectedAtEnd ↔
      ((machine c).restrict fun s a => s.notDisconnecting a).run s as = some s' := by
    refine Machine.run_restrict_iff (I := fun _ => True) (fun _ _ _ _ _ => trivial) ?_ ?_ ?_
      trivial hstart hrun
    · intro t a t' _ h hguard hstep
      obtain ⟨hmoves, hreturned⟩ := step_moves hstep
      exact hmoves.disconnectedAtEnd hreturned hguard h
    · intro t a t' _ hguard hstep
      obtain ⟨hmoves, hreturned⟩ := step_moves hstep
      exact hmoves.disconnectedAtEnd_lost hreturned hguard
    · intro t a t' _ hstep
      obtain ⟨hmoves, hreturned⟩ := step_moves hstep
      exact hmoves.disconnectedAtEnd_back hreturned
  rw [← hexact]
  constructor
  · exact fun h _ => h.state
  · intro h
    obtain ⟨hsound, hremoved⟩ := hends
    obtain ⟨hevents, hchannels, hkernel⟩ := hremoved hreturned
    have hclosed := h (Or.inr hreturned)
    exact ⟨hclosed, hevents hclosed, hchannels, hkernel, Conn.downs_pos.mp (hsound.1.down.mpr hclosed)⟩

/-- The server goes while the connection is open. -/
theorem destroyed_iff_connected :
    ∃ s' : Lifetime Unit,
      (machine ()).run (single 7)
        [.call .connectEstablished, .call .connectDestroyed, .call .resume] = some s' ∧
      (s'.Destroyed ↔ ((machine ()).restrict fun s a => s.notDisconnecting a).run (single 7)
        [.call .connectEstablished, .call .connectDestroyed, .call .resume] = some s') := by
  have hend : ((machine ()).run (single 7)
      [.call .connectEstablished, .call .connectDestroyed, .call .resume]).map
      (fun s => s.returned) = some true := by decide +kernel
  obtain ⟨s', hrun, hreturned⟩ := Option.map_eq_some_iff.mp hend
  exact ⟨s', hrun, destroyed_iff (single_fresh 7) hrun hreturned⟩

/-- The user shuts the connection down, and the server goes before the peer has closed. -/
theorem shutdown_then_destroyed :
    ¬ ∀ (s s' : Lifetime Unit) (as : List (LifeStep Unit)), s.Fresh →
      (machine ()).run s as = some s' → s'.returned = true → s'.Destroyed := by
  intro hclaim
  let steps : List (LifeStep Unit) :=
    [.call .connectEstablished, .call .shutdown, .call .connectDestroyed, .call .resume]
  have hend : ((machine ()).run (single 7) steps).map
      (fun s => (s.returned, s.world.conn.state)) = some (true, .kDisconnecting) := by
    decide +kernel
  obtain ⟨s', hrun, hs'⟩ := Option.map_eq_some_iff.mp hend
  obtain ⟨hreturned, hstate⟩ := Prod.mk.inj hs'
  have hdestroyed := hclaim (single 7) s' steps (single_fresh 7) hrun hreturned
  rw [hdestroyed.state] at hstate
  cases hstate

end LTMuduo.Lifetime
