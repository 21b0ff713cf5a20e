import LTMuduo.Connection.Lifetime
import LTMuduo.Lib.After

/-!
# A connection is closed once

`handleClose` runs whenever it is called, so closing once is a matter of the events. The close empties the mask and takes the channel out of the interest set, and no later batch has events for it; what is left is the rest of the batch, in which `handleEventWithGuard` may still call `handleRead`. The test for `EPOLLIN` in front of the close callback is there to keep the two apart, but `EPOLLPRI` leads to `handleRead` as well.
-/

namespace LTMuduo

/-! ### The callbacks of one event -/

namespace Channel

variable {revents : Events}

/-- `handleEventWithGuard` calls the close callback and then the read callback. -/
def ReadsAfterClose (revents : Events) : Prop :=
  revents &&& EPOLLHUP ≠ 0 ∧ revents &&& EPOLLPRI ≠ 0 ∧ revents &&& EPOLLIN = 0

instance : Decidable (ReadsAfterClose revents) := inferInstanceAs (Decidable (_ ∧ _ ∧ _))

theorem closeCallback_mem : .closeCallback ∈ handleEventWithGuard revents ↔
    revents &&& EPOLLHUP ≠ 0 ∧ revents &&& EPOLLIN = 0 := by
  simp [handleEventWithGuard]

theorem readCallback_mem : .readCallback ∈ handleEventWithGuard revents ↔
    revents &&& (EPOLLIN ||| EPOLLPRI) ≠ 0 := by
  simp [handleEventWithGuard]

theorem readsAfterClose_iff : ReadsAfterClose revents ↔
    .closeCallback ∈ handleEventWithGuard revents ∧
      .readCallback ∈ handleEventWithGuard revents := by
  have hzero (x : Events) : 0 ||| x = x := BitVec.zero_or
  rw [closeCallback_mem, readCallback_mem, BitVec.and_or_distrib_left, ReadsAfterClose]
  constructor
  · intro h
    obtain ⟨hhup, hpri, hin⟩ := h
    refine ⟨⟨hhup, hin⟩, ?_⟩
    rwa [hin, hzero]
  · intro h
    obtain ⟨⟨hhup, hin⟩, hread⟩ := h
    rw [hin, hzero] at hread
    exact ⟨hhup, hread, hin⟩

/-- The order of the callbacks: the close comes first, and no read follows a read. -/
theorem handleEventWithGuard_order (revents : Events) :
    (handleEventWithGuard revents).Pairwise fun x y =>
      y ≠ .closeCallback ∧ (x = .readCallback → y ≠ .readCallback) := by
  unfold handleEventWithGuard
  split <;> split <;> split <;> split <;> decide

theorem order_of_suffix {callback : EventCallback} {rest : List EventCallback}
    (h : callback :: rest <:+ handleEventWithGuard revents) :
    .closeCallback ∉ rest ∧ (callback = .readCallback → .readCallback ∉ rest) := by
  have horder := (handleEventWithGuard_order revents).sublist h.sublist
  obtain ⟨hfirst, _⟩ := List.pairwise_cons.mp horder
  refine ⟨fun hmem => (hfirst _ hmem).1 rfl, ?_⟩
  exact fun hread hmem => (hfirst _ hmem).2 hread rfl

end Channel

/-! ### Counting the reports -/

namespace Conn

variable {C : Type*} (w : Conn C) (c : C)

/-- How often the user was told that the connection is down, and how often the server. -/
def downs : Nat := w.effects.count (.connectionCallback false)

def closes : Nat := w.effects.count .closeCallback

variable {w} {w' : Conn C} {c}

theorem Silent.not_mem {effects : List Effect} (h : Silent effects) {e : Effect}
    (he : e.isCallback = true) : e ∉ effects := by
  intro hmem
  rw [h e hmem] at he
  cases he

theorem Appends.count (h : w.Appends w') {e : Effect} (he : e.isCallback = true) :
    w'.effects.count e = w.effects.count e := by
  obtain ⟨new, hsilent, heffects⟩ := h
  rw [heffects, List.count_append, List.count_eq_zero.mpr (hsilent.not_mem he), Nat.add_zero]

theorem Appends.downs (h : w.Appends w') : w'.downs = w.downs := h.count rfl

theorem Appends.closes (h : w.Appends w') : w'.closes = w.closes := h.count rfl

theorem downs_emit (e : Effect) :
    (w.emit e).downs = w.downs + if e = .connectionCallback false then 1 else 0 := by
  rw [downs, effects_emit, List.count_append, List.count_singleton]
  simp only [beq_iff_eq]
  rfl

theorem closes_emit (e : Effect) :
    (w.emit e).closes = w.closes + if e = .closeCallback then 1 else 0 := by
  rw [closes, effects_emit, List.count_append, List.count_singleton]
  simp only [beq_iff_eq]
  rfl

theorem downs_pos : 0 < w.downs ↔ .connectionCallback false ∈ w.effects := List.count_pos_iff

theorem downs_handleClose : (w.handleClose c).downs = w.downs + 1 :=
  downs_emit (w := (w.setState .kDisconnected).disableAll c) _

theorem closes_handleClose : (w.handleClose c).closes = w.closes :=
  closes_emit (w := (w.setState .kDisconnected).disableAll c) _

/-- At most one message or disconnection is reported on the way from `w` to `w'`, and only under `reports`. -/
def Extends (reports : Prop) (w w' : Conn C) : Prop :=
  ∃ new, w'.effects = w.effects ++ new ∧ new.count (.connectionCallback false) ≤ 1 ∧
    (.connectionCallback false ∉ new ∨ .messageCallback ∉ new) ∧
    (.connectionCallback false ∈ new ∨ .messageCallback ∈ new → reports)

variable {reports : Prop}

theorem Appends.extends (h : w.Appends w') : Extends reports w w' := by
  obtain ⟨new, hsilent, heffects⟩ := h
  have hdown := hsilent.not_mem (e := .connectionCallback false) rfl
  have hmessage := hsilent.not_mem (e := .messageCallback) rfl
  refine ⟨new, heffects, ?_, Or.inl hdown, ?_⟩
  · rw [List.count_eq_zero.mpr hdown]
    exact Nat.zero_le 1
  · exact fun hmem => absurd hmem (not_or.mpr ⟨hdown, hmessage⟩)

theorem Appends.extends_emit (h : w.Appends w') (e : Effect)
    (hreports : e = .connectionCallback false ∨ e = .messageCallback → reports) :
    Extends reports w (w'.emit e) := by
  obtain ⟨new, hsilent, heffects⟩ := h
  have hdown := hsilent.not_mem (e := .connectionCallback false) rfl
  have hmessage := hsilent.not_mem (e := .messageCallback) rfl
  refine ⟨new ++ [e], ?_, ?_, ?_, ?_⟩
  · rw [effects_emit, heffects, List.append_assoc]
  · rw [List.count_append, List.count_eq_zero.mpr hdown, Nat.zero_add, List.count_singleton]
    split
    · exact Nat.le_refl 1
    · exact Nat.zero_le 1
  · simp only [List.mem_append, hdown, hmessage, false_or, List.mem_singleton]
    by_cases he : Effect.messageCallback = e
    · subst he
      exact Or.inl Effect.noConfusion
    · exact Or.inr he
  · simp only [List.mem_append, hdown, hmessage, false_or, List.mem_singleton]
    exact fun he => hreports (he.imp Eq.symm Eq.symm)

end Conn

namespace Lifetime

variable {C : Type*} {c : C} {s s' : Lifetime C} {a : LifeStep C}

/-- What is known about the close in every state of every run. Up to a second close, a closed connection is out of the interest set, and of the event in which it was closed only a read can come. -/
structure Closing (s : Lifetime C) : Prop where
  down : 0 < s.world.downs ↔ s.world.conn.state = .kDisconnected
  closes : s.world.closes + (if s.thread.resume = some .closeCallback then 1 else 0) ≤
    s.world.downs
  suffix : s.callbacks <:+ Channel.handleEventWithGuard s.revents
  called : .closeCallback ∈ Channel.handleEventWithGuard s.revents →
    .closeCallback ∉ s.callbacks → s.world.conn.state = .kDisconnected
  once : s.world.conn.state = .kDisconnected → 2 ≤ s.world.downs ∨
    s.world.conn.channel.index ≠ .kAdded ∧ .closeCallback ∉ s.callbacks ∧
      (.readCallback ∈ s.callbacks → .closeCallback ∈ Channel.handleEventWithGuard s.revents)

theorem Closing.keep (h : s.Closing)
    (hstate : s'.world.conn.state = .kDisconnected ↔ s.world.conn.state = .kDisconnected)
    (hdowns : s'.world.downs = s.world.downs) (hcloses : s'.world.closes = s.world.closes)
    (hresume : s'.thread.resume = some .closeCallback ↔ s.thread.resume = some .closeCallback)
    (hrevents : s'.revents = s.revents)
    (hcallbacks : s'.callbacks = s.callbacks ∨
      ∃ callback, callback ≠ .closeCallback ∧ s.callbacks = callback :: s'.callbacks)
    (hindex : s.world.conn.state = .kDisconnected → s.world.conn.channel.index ≠ .kAdded →
      s'.world.conn.channel.index ≠ .kAdded) : s'.Closing := by
  have hsuffix : s'.callbacks <:+ s.callbacks := by
    rcases hcallbacks with hsame | ⟨callback, _, hcons⟩
    · exact hsame ▸ List.suffix_refl _
    · rw [hcons]
      exact List.suffix_cons callback _
  have hclose : .closeCallback ∉ s'.callbacks → .closeCallback ∉ s.callbacks := by
    rcases hcallbacks with hsame | ⟨callback, hne, hcons⟩
    · rw [hsame]
      exact id
    · rw [hcons, List.mem_cons, not_or]
      exact fun hmem => ⟨hne.symm, hmem⟩
  refine ⟨?_, ?_, ?_, ?_, ?_⟩
  · rw [hdowns, hstate]
    exact h.down
  · rw [hdowns, hcloses]
    simpa only [hresume] using h.closes
  · rw [hrevents]
    exact hsuffix.trans h.suffix
  · rw [hrevents, hstate]
    exact fun hmem hnot => h.called hmem (hclose hnot)
  · rw [hrevents, hdowns, hstate]
    intro hclosed
    rcases h.once hclosed with htwice | ⟨hout, hnot, hread⟩
    · exact Or.inl htwice
    · refine Or.inr ⟨hindex hclosed hout, fun hmem => hnot (hsuffix.mem hmem), ?_⟩
      exact fun hmem => hread (hsuffix.mem hmem)

/-- On a closed connection the calls that go on with an open one leave the channel alone. -/
theorem works_closed {w w' : Conn C} (hregistered : w.Registered c) (hworks : Conn.Works c w w')
    (hclosed : w.conn.state = .kDisconnected) : w'.conn.channel = w.conn.channel := by
  rcases hworks.channel with hsame | ⟨hopen, _⟩
  · exact congrArg Prod.snd hsame
  · rcases hopen with hconnected | hwriting
    · rw [hclosed] at hconnected
      cases hconnected
    · rw [Conn.isWriting_of_events (hregistered.closed hclosed)] at hwriting
      cases hwriting

theorem Closing.close {w : Conn C} {resume : Resume} {rest : List EventCallback}
    (h : s.Closing) (hregistered : s.world.Registered c) (hdispatches : s.thread.Dispatches)
    (hworks : Conn.Works c s.world w) (hsuffix : rest <:+ s.callbacks)
    (hclose : .closeCallback ∉ rest)
    (hread : .readCallback ∈ rest → .closeCallback ∈ Channel.handleEventWithGuard s.revents) :
    (s.afterThread ⟨w.handleClose c, some resume⟩ rest).Closing := by
  have hdowns : (w.handleClose c).downs = s.world.downs + 1 := by
    rw [Conn.downs_handleClose, hworks.appends.downs]
  have hcloses : (w.handleClose c).closes = s.world.closes := by
    rw [Conn.closes_handleClose, hworks.appends.closes]
  refine ⟨iff_of_true ?_ rfl, ?_, hsuffix.trans h.suffix, fun _ _ => rfl, fun _ => ?_⟩
  · change 0 < (w.handleClose c).downs
    omega
  · have hbound := h.closes
    rw [if_neg (by rw [hdispatches.1]; decide)] at hbound
    change (w.handleClose c).closes + _ ≤ (w.handleClose c).downs
    rw [hdowns, hcloses]
    split
    · omega
    · omega
  · change 2 ≤ (w.handleClose c).downs ∨ _
    by_cases hclosed : s.world.conn.state = .kDisconnected
    · have hpos := h.down.mpr hclosed
      left
      omega
    · have hopen : w.conn.state = .kConnected ∨ w.conn.state = .kDisconnecting := by
        rw [hworks.state]
        cases hstate : s.world.conn.state with
        | kDisconnected => exact absurd hstate hclosed
        | kConnecting => exact absurd hstate hdispatches.2
        | kConnected => exact Or.inl rfl
        | kDisconnecting => exact Or.inr rfl
      have hregistered' := hregistered.works hworks
      obtain ⟨_, _, hindex⟩ :=
        Channel.setEvents_entries hregistered'.kernel hregistered'.channels Channel.kNoneEvent
      rw [if_pos ⟨(hregistered'.opened hopen).1, rfl⟩] at hindex
      refine Or.inr ⟨?_, hclose, hread⟩
      intro hadded
      have hdeleted : ((w.handleClose c).conn.channel).index = .kDeleted := hindex
      rw [show ((w.handleClose c).conn.channel).index = .kAdded from hadded] at hdeleted
      cases hdeleted

theorem Moves.closing (h : s.Closing) (hregistered : s.world.Registered c)
    (hmoves : s.Moves c a s') : s'.Closing := by
  cases hmoves with
  | poll revents hdispatches hcallbacks hdelivers =>
    refine ⟨h.down, h.closes, List.suffix_refl _, fun hmem hnot => absurd hmem hnot, ?_⟩
    -- epoll delivers for a descriptor in the interest set only
    intro hclosed
    rcases h.once hclosed with htwice | ⟨hout, _⟩
    · exact Or.inl htwice
    · unfold Delivers at hdelivers
      rw [hregistered.kernel, Channel.kernelEntry, if_neg hout] at hdelivers
      exact hdelivers.elim
  | handled read write callback rest w hdispatches hcallbacks hclose hread hworks =>
    refine h.keep (by rw [← hworks.state]; rfl) hworks.appends.downs hworks.appends.closes Iff.rfl
      rfl (Or.inr ⟨callback, hclose, hcallbacks⟩) ?_
    intro hclosed hout
    rwa [← works_closed hregistered hworks hclosed] at hout
  | message data write rest w hdispatches hcallbacks hworks =>
    refine h.keep (by rw [← hworks.state]; rfl) ?_ ?_ Iff.rfl rfl
      (Or.inr ⟨_, EventCallback.noConfusion, hcallbacks⟩) ?_
    · exact (Conn.downs_emit _).trans hworks.appends.downs
    · exact (Conn.closes_emit _).trans hworks.appends.closes
    · intro hclosed hout
      rwa [← works_closed hregistered hworks hclosed] at hout
  | closed read write callback rest w hdispatches hcallbacks hcallback hworks =>
    have hsuffix := h.suffix
    rw [hcallbacks] at hsuffix
    obtain ⟨hclose, hread⟩ := Channel.order_of_suffix hsuffix
    refine h.close hregistered hdispatches hworks ?_ hclose ?_
    · rw [hcallbacks]
      exact List.suffix_cons _ _
    · intro hmem
      rcases hcallback with rfl | ⟨rfl, _⟩
      · exact hsuffix.mem List.mem_cons_self
      · exact absurd hmem (hread rfl)
  | connectEstablished hresume hconnecting =>
    refine h.keep ?_ ?_ ?_ Iff.rfl rfl (Or.inl rfl) ?_
    · rw [hconnecting]
      exact iff_of_false StateE.noConfusion StateE.noConfusion
    · exact Conn.downs_emit _
    · exact Conn.closes_emit _
    · intro hclosed
      rw [hconnecting] at hclosed
      cases hclosed
  | user call w hcall hworks =>
    refine h.keep (by rw [← hworks.state]; rfl) hworks.appends.downs hworks.appends.closes Iff.rfl
      rfl (Or.inl rfl) ?_
    intro hclosed hout
    rwa [← works_closed hregistered hworks hclosed] at hout
  | shutdown hconnected =>
    have happends := (s.world.setState .kDisconnecting).shutdownInLoop_appends
    obtain ⟨hchannel, _, hstate⟩ := (s.world.setState .kDisconnecting).shutdownInLoop_aside
    refine h.keep ?_ happends.downs happends.closes Iff.rfl rfl (Or.inl rfl) ?_
    · rw [hconnected]
      refine iff_of_false ?_ StateE.noConfusion
      intro hclosed
      cases hstate.symm.trans hclosed
    · intro hclosed
      rw [hconnected] at hclosed
      cases hclosed
  | connectDestroyed hdispatches hcallbacks =>
    by_cases hconnected : s.world.conn.state = .kConnected
    · rw [show s.world.connectDestroyed c = s.world.handleClose c from if_pos hconnected]
      exact h.close hregistered hdispatches .refl List.nil_suffix List.not_mem_nil
        fun hmem => absurd hmem List.not_mem_nil
    · rw [s.world.connectDestroyed_of_not_connected c hconnected]
      refine h.keep Iff.rfl rfl rfl ?_ rfl (Or.inl hcallbacks.symm) fun _ => id
      rw [hdispatches.1]
      exact iff_of_false (by simp [afterThread]) (by simp)
  | closeReturns hresume =>
    have hbound := h.closes
    rw [if_pos hresume] at hbound
    refine ⟨?_, ?_, h.suffix, h.called, ?_⟩
    · rw [show (s.afterThread ⟨s.world.handleCloseRest, none⟩ s.callbacks).world.downs = _ from
        Conn.downs_emit _]
      exact h.down
    · change s.world.handleCloseRest.closes + 0 ≤ s.world.handleCloseRest.downs
      rw [show s.world.handleCloseRest.closes = _ from Conn.closes_emit _,
        show s.world.handleCloseRest.downs = _ from Conn.downs_emit _]
      simpa using hbound
    · rw [show (s.afterThread ⟨s.world.handleCloseRest, none⟩ s.callbacks).world.downs = _ from
        Conn.downs_emit _]
      exact h.once
  | destroyReturns hresume =>
    refine h.keep Iff.rfl rfl rfl ?_ rfl (Or.inl rfl) ?_
    · rw [hresume]
      exact iff_of_false (by simp [afterThread]) (by simp)
    · intro _ _
      exact Index.noConfusion
  | otherChannels poller hkernel hchannels =>
    exact h.keep Iff.rfl rfl rfl Iff.rfl rfl (Or.inl rfl) fun _ => id

/-! ### Runs -/

/-- The invariant of all runs. -/
def Sound (c : C) (s : Lifetime C) : Prop :=
  s.Closing ∧ (s.returned = true ∨ s.world.Registered c)

theorem Fresh.sound (h : s.Fresh) : s.Sound c := by
  refine ⟨?_, Or.inr h.registered⟩
  obtain ⟨⟨sockfd, writeComplete, highWater, mark, poller, hworld, hresume⟩, _, hcallbacks,
    hrevents, _⟩ := h
  have hconnecting : s.world.conn.state = .kConnecting := by rw [show s.world = _ from hworld]; rfl
  have hdowns : s.world.downs = 0 := by rw [show s.world = _ from hworld]; rfl
  have hcloses : s.world.closes = 0 := by rw [show s.world = _ from hworld]; rfl
  refine ⟨?_, ?_, ?_, ?_, ?_⟩
  · rw [hdowns, hconnecting]
    exact iff_of_false (Nat.lt_irrefl 0) StateE.noConfusion
  · simp [hdowns, hcloses, hresume]
  · rw [hcallbacks]
    exact List.nil_suffix
  · intro hmem
    rw [hrevents] at hmem
    exact absurd hmem (by decide)
  · rw [hconnecting]
    exact StateE.noConfusion

theorem Sound.step [DecidableEq C] (h : s.Sound c) (hstep : (machine c).step s a = some s') : s'.Sound c := by
  obtain ⟨hmoves, hreturned⟩ := step_moves hstep
  obtain ⟨hclosing, hregistered⟩ := h
  have hregistered : s.world.Registered c := by
    rcases hregistered with hback | hregistered
    · rw [hreturned] at hback
      cases hback
    · exact hregistered
  exact ⟨hmoves.closing hclosing hregistered, hmoves.registered hregistered⟩

/-- The connection has been reported down at most once, to the user and to the server, and no message has been reported after that. -/
structure ClosedOnce (s : Lifetime C) : Prop where
  down : s.world.effects.count (.connectionCallback false) ≤ 1
  close : s.world.effects.count .closeCallback ≤ 1
  message : s.world.effects.After (.connectionCallback false) fun e => e ≠ .messageCallback

/-- A read callback of an event that has called `handleClose` fails. -/
def noReadAfterClose (s : Lifetime C) : LifeStep C → Prop
  | .callback (.delivered _) _ =>
    s.callbacks.head? = some .readCallback → ¬ Channel.ReadsAfterClose s.revents
  | _ => True

instance : ∀ (s : Lifetime C) (a : LifeStep C), Decidable (s.noReadAfterClose a) := by
  intro s a
  unfold noReadAfterClose
  split <;> infer_instance

/-- The steps that may report a message or the disconnection. -/
def Reports (s : Lifetime C) (a : LifeStep C) : Prop :=
  s.world.conn.state = .kConnected ∨ ∃ callback rest, s.callbacks = callback :: rest ∧
    (callback = .closeCallback ∨
      callback = .readCallback ∧ ∃ data write, a = .callback (.delivered data) write)

theorem Moves.extends (hmoves : s.Moves c a s') : s.world.Extends (s.Reports a) s'.world := by
  have hsame : s.world.Appends s.world := .of_eq rfl
  cases hmoves with
  | poll | destroyReturns | otherChannels => exact hsame.extends
  | handled read write callback rest w _ _ _ _ hworks => exact hworks.appends.extends
  | user call w _ hworks => exact hworks.appends.extends
  | message data write rest w _ hcallbacks hworks =>
    exact hworks.appends.extends_emit .messageCallback fun _ =>
      Or.inr ⟨_, rest, hcallbacks, Or.inr ⟨rfl, data, write, rfl⟩⟩
  | closed read write callback rest w _ hcallbacks hcallback hworks =>
    have hclose : s.world.Appends ((w.setState .kDisconnected).disableAll c) := hworks.appends
    refine hclose.extends_emit (.connectionCallback false) fun _ =>
      Or.inr ⟨callback, rest, hcallbacks, hcallback.imp id ?_⟩
    intro h
    obtain ⟨hread, hdata⟩ := h
    exact ⟨hread, [], write, by rw [hdata]⟩
  | connectEstablished =>
    have hopen : s.world.Appends
        (({ s.world.setState .kConnected with conn.channel.tied := true } : Conn C).enableReading c) :=
      .of_eq rfl
    exact hopen.extends_emit (.connectionCallback true) (by simp)
  | shutdown =>
    have happends := (s.world.setState .kDisconnecting).shutdownInLoop_appends
    exact Conn.Appends.extends (w := s.world) happends
  | connectDestroyed =>
    by_cases hconnected : s.world.conn.state = .kConnected
    · have hclose : s.world.Appends ((s.world.setState .kDisconnected).disableAll c) := .of_eq rfl
      rw [show s.world.connectDestroyed c = s.world.handleClose c from if_pos hconnected]
      exact hclose.extends_emit (.connectionCallback false) fun _ => Or.inl hconnected
    · rw [s.world.connectDestroyed_of_not_connected c hconnected]
      exact hsame.extends
  | closeReturns => exact hsame.extends_emit .closeCallback (by simp)

/-- Under the condition, an open connection only reports a message or the disconnection. -/
theorem Closing.open_of_reports (h : s.Closing) (hdowns : s.world.downs ≤ 1)
    (hguard : s.noReadAfterClose a) (hreports : s.Reports a) :
    s.world.conn.state ≠ .kDisconnected := by
  intro hclosed
  rcases hreports with hconnected | ⟨callback, rest, hcallbacks, hcallback⟩
  · rw [hclosed] at hconnected
    cases hconnected
  · rcases h.once hclosed with htwice | ⟨_, hnot, hread⟩
    · omega
    · have hmem : callback ∈ s.callbacks := by
        rw [hcallbacks]
        exact List.mem_cons_self
      rcases hcallback with rfl | ⟨rfl, data, write, rfl⟩
      · exact hnot hmem
      · refine hguard (by rw [hcallbacks]; rfl) ?_
        exact Channel.readsAfterClose_iff.mpr ⟨hread hmem, h.suffix.mem hmem⟩

theorem Moves.closedOnce (hmoves : s.Moves c a s') (h : s.Closing) (h' : s'.Closing)
    (honce : s.ClosedOnce) (hguard : s.noReadAfterClose a) : s'.ClosedOnce := by
  obtain ⟨new, heffects, hcount, hone, hreports⟩ := hmoves.extends
  have hdown : s'.world.effects.count (.connectionCallback false) ≤ 1 ∧
      s'.world.effects.After (.connectionCallback false) fun e => e ≠ .messageCallback := by
    rw [heffects, List.count_append]
    by_cases hloud : .connectionCallback false ∈ new ∨ .messageCallback ∈ new
    · have hopen := h.open_of_reports honce.down hguard (hreports hloud)
      have hnone : .connectionCallback false ∉ s.world.effects := by
        rw [← Conn.downs_pos, h.down]
        exact hopen
      rw [List.count_eq_zero.mpr hnone, Nat.zero_add]
      refine ⟨hcount, .append_of_not_mem hnone ?_⟩
      rcases hone with hdown | hmessage
      · exact .of_absent hdown
      · exact .of_forall fun e he heq => hmessage (heq ▸ he)
    · obtain ⟨hdown, hmessage⟩ := not_or.mp hloud
      rw [List.count_eq_zero.mpr hdown, Nat.add_zero]
      exact ⟨honce.down, honce.message.append fun e he heq => hmessage (heq ▸ he)⟩
  obtain ⟨hdown, hmessage⟩ := hdown
  have hcloses : s'.world.closes ≤ s'.world.downs := Nat.le_trans (Nat.le_add_right _ _) h'.closes
  exact ⟨hdown, Nat.le_trans hcloses hdown, hmessage⟩

/-- The read behind the close reports once more. -/
theorem Moves.not_closedOnce (hmoves : s.Moves c a s') (h : s.Closing)
    (hguard : ¬ s.noReadAfterClose a) : ¬ s'.ClosedOnce := by
  intro honce
  unfold noReadAfterClose at hguard
  split at hguard
  · rename_i data write
    obtain ⟨hhead, hafter⟩ := Classical.not_imp.mp hguard
    have hafter := not_not.mp hafter
    have hclose : .closeCallback ∉ s.callbacks := by
      obtain ⟨rest, hcallbacks⟩ := List.head?_eq_some_iff.mp hhead
      have hsuffix := h.suffix
      rw [hcallbacks] at hsuffix ⊢
      rw [List.mem_cons, not_or]
      exact ⟨EventCallback.noConfusion, (Channel.order_of_suffix hsuffix).1⟩
    have hclosed := h.called (Channel.readsAfterClose_iff.mp hafter).1 hclose
    have hpos := h.down.mpr hclosed
    cases hmoves with
    | handled _ _ callback rest w _ hcallbacks _ hread hworks =>
      rw [hcallbacks] at hhead
      obtain ⟨errno, hfailed⟩ := hread (Option.some.inj hhead)
      cases hfailed
    | message _ _ rest w _ _ hworks =>
      obtain ⟨quiet, _, heffects⟩ := hworks.appends
      have hmem : .connectionCallback false ∈ w.effects := by
        rw [heffects, List.mem_append]
        exact Or.inl (Conn.downs_pos.mp hpos)
      exact List.After.forall_of_mem honce.message hmem _ List.mem_cons_self rfl
    | closed _ _ callback rest w _ _ _ hworks =>
      have hdown : (w.handleClose c).downs ≤ 1 := honce.down
      rw [Conn.downs_handleClose, hworks.appends.downs] at hdown
      omega
  · exact hguard trivial

theorem ClosedOnce.before (hmoves : s.Moves c a s') (h : s'.ClosedOnce) : s.ClosedOnce := by
  obtain ⟨new, heffects, _⟩ := hmoves.extends
  have hdown := h.down
  have hclose := h.close
  have hmessage := h.message
  rw [heffects, List.count_append] at hdown hclose
  rw [heffects] at hmessage
  exact ⟨by omega, by omega, hmessage.of_append⟩

/-- In every run from a new connection, it is closed once exactly when no event with `EPOLLHUP` and `EPOLLPRI` but without `EPOLLIN` has its read succeed. -/
theorem closed_once_iff [DecidableEq C] {as : List (LifeStep C)} (hfresh : s.Fresh)
    (hrun : (machine c).run s as = some s') :
    s'.ClosedOnce ↔
      ((machine c).restrict fun s a => s.noReadAfterClose a).run s as = some s' := by
  have hempty : s.world.effects = [] := by
    obtain ⟨⟨sockfd, writeComplete, highWater, mark, poller, hworld, _⟩, _⟩ := hfresh
    rw [show s.world = _ from hworld]
  have hstart : s.ClosedOnce := by
    constructor <;> rw [hempty]
    · exact Nat.zero_le 1
    · exact Nat.zero_le 1
    · exact .nil
  refine Machine.run_restrict_iff (P := ClosedOnce) (I := Sound c) ?_ ?_ ?_ ?_ hfresh.sound hstart
    hrun
  · exact fun t a t' h hstep => h.step hstep
  · intro t a t' h honce hguard hstep
    exact (step_moves hstep).1.closedOnce h.1 (h.step hstep).1 honce hguard
  · intro t a t' h hguard hstep
    exact (step_moves hstep).1.not_closedOnce h.1 hguard
  · intro t a t' _ hstep honce
    exact honce.before (step_moves hstep).1

/-- A new connection on a loop without other channels. -/
def single (sockfd : Fd) : Lifetime Unit :=
  ⟨⟨⟨.new sockfd false false 65536, .new, []⟩, none⟩, 0, [], false⟩

theorem single_fresh (sockfd : Fd) : (single sockfd).Fresh :=
  ⟨⟨sockfd, false, false, 65536, .new, rfl, rfl⟩, rfl, rfl, rfl, rfl⟩

/-- A connection that the peer hangs up. -/
theorem closed_once_iff_hangup :
    ∃ s' : Lifetime Unit,
      (machine ()).run (single 7)
        [.call .connectEstablished, .poll EPOLLHUP, .callback (.delivered []) (.accepted 0),
          .call .resume] = some s' ∧
      (s'.ClosedOnce ↔ ((machine ()).restrict fun s a => s.noReadAfterClose a).run (single 7)
        [.call .connectEstablished, .poll EPOLLHUP, .callback (.delivered []) (.accepted 0),
          .call .resume] = some s') := by
  have hend : ((machine ()).run (single 7)
      [.call .connectEstablished, .poll EPOLLHUP, .callback (.delivered []) (.accepted 0),
        .call .resume]).map (fun s => s.returned) = some false := by decide +kernel
  obtain ⟨s', hrun, _⟩ := Option.map_eq_some_iff.mp hend
  exact ⟨s', hrun, closed_once_iff (single_fresh 7) hrun⟩

/-- A hang-up with urgent data: the close callback is followed by a read that finds the end of the stream. -/
theorem closed_twice :
    ¬ ∀ (s s' : Lifetime Unit) (as : List (LifeStep Unit)), s.Fresh →
      (machine ()).run s as = some s' → s'.ClosedOnce := by
  intro hclaim
  let steps : List (LifeStep Unit) :=
    [.call .connectEstablished, .poll (EPOLLHUP ||| EPOLLPRI),
      .callback (.delivered []) (.accepted 0), .call .resume]
  have hend : ((machine ()).run (single 7) steps).map
      (fun t => ((t.callbacks, t.revents), (t.returned, decide t.thread.Dispatches))) =
        some (([.readCallback], EPOLLHUP ||| EPOLLPRI), (false, true)) := by decide +kernel
  obtain ⟨t, hrun, ht⟩ := Option.map_eq_some_iff.mp hend
  obtain ⟨hevent, hopen⟩ := Prod.mk.inj ht
  obtain ⟨hcallbacks, hrevents⟩ := Prod.mk.inj hevent
  obtain ⟨hreturned, hdispatches⟩ := Prod.mk.inj hopen
  have hsound : t.Sound () := Machine.run_preserves (P := Sound ())
    (fun _ _ _ _ h hstep => h.step hstep) (single_fresh 7).sound hrun
  let a : LifeStep Unit := .callback (.delivered []) (.accepted 0)
  obtain ⟨s', hstep⟩ := callback_enabled (c := ()) hreturned (of_decide_eq_true hdispatches)
    hcallbacks (.delivered []) (.accepted 0)
  have hboth : (machine ()).run (single 7) (steps ++ [a]) = some s' :=
    Machine.run_concat hrun hstep
  have hmoves : t.Moves () a s' := (step_moves (show step () t a = some s' from hstep)).1
  refine hmoves.not_closedOnce hsound.1 ?_ (hclaim _ s' _ (single_fresh 7) hboth)
  intro hguard
  refine hguard (by rw [hcallbacks]; rfl) ?_
  rw [hrevents]
  decide

end Lifetime

end LTMuduo
