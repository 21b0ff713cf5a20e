import LTMuduo.Connection.LoopThread
import LTMuduo.Connection.Works
import LTMuduo.Poller.Bookkeeping

/-!
# The life of one connection

A connection from `connectEstablished` to the return of `connectDestroyed`, with the events that epoll delivers for it. `poll` puts a mask into `revents_` and fixes the callbacks of `handleEventWithGuard`; they are then called one after the other, and user code can make its calls between them and inside of them. A mask has only bits that the interest set asks for and the two that epoll always reports.

`Moves` lists the steps. `Registered` is the invariant between `state_`, the channel and the tables of the poller.
-/

namespace LTMuduo

/-- `returned` says that `connectDestroyed` has returned. -/
structure Lifetime (C : Type*) where
  thread : LoopThread C
  revents : Events
  callbacks : List EventCallback
  returned : Bool

inductive LifeStep (C : Type*)
  | poll (revents : Events)
  | callback (read : ReadvResult) (write : WriteResult)
  | call (call : LoopCall C)

/-- The function behind a callback of the channel. -/
def EventCallback.call {C : Type*} (read : ReadvResult) (write : WriteResult) :
    EventCallback → LoopCall C
  | .closeCallback => .handleClose
  | .errorCallback => .handleError
  | .readCallback => .handleRead read
  | .writeCallback => .handleWrite write

namespace Lifetime

variable {C : Type*} [DecidableEq C] (c : C) (s : Lifetime C)

abbrev world : Conn C := s.thread.world

/-- The masks that epoll can deliver for the descriptor. -/
def Delivers (revents : Events) : Prop :=
  match s.world.poller.kernel s.world.conn.channel.fd with
  | some (events, _) => revents &&& ~~~(events ||| EPOLLERR ||| EPOLLHUP) = 0
  | none => False

instance (revents : Events) : Decidable (s.Delivers revents) := by
  unfold Delivers
  split <;> infer_instance

/-- The functor `connectDestroyed` runs between two batches of events. The calls behind events have their own step, and the other channels of the loop do not touch the entries of this one. -/
def Allows : LoopCall C → Prop
  | .handleRead _ => False
  | .handleWrite _ => False
  | .handleClose => False
  | .handleError => False
  | .connectDestroyed => s.callbacks = []
  | .otherChannels poller =>
    poller.kernel s.world.conn.channel.fd = s.world.poller.kernel s.world.conn.channel.fd ∧
      poller.channels s.world.conn.channel.fd = s.world.poller.channels s.world.conn.channel.fd
  | _ => True

instance (call : LoopCall C) : Decidable (s.Allows call) := by
  unfold Allows
  split <;> infer_instance

def step : LifeStep C → Option (Lifetime C)
  | .poll revents =>
    if s.returned = false ∧ s.thread.Dispatches ∧ s.callbacks = [] ∧ s.Delivers revents then
      some { s with revents := revents, callbacks := Channel.handleEventWithGuard revents }
    else none
  | .callback read write =>
    match s.callbacks with
    | [] => none
    | callback :: rest =>
      if s.returned = false then
        (s.thread.step c (callback.call read write)).map fun t =>
          { s with thread := t, callbacks := rest }
      else none
  | .call call =>
    if s.returned = false ∧ s.Allows call then
      (s.thread.step c call).map fun t =>
        { s with
          thread := t
          returned := s.thread.resume == some .removeChannel && t.resume == none }
    else none

/-- A connection as `TcpServer::newConnection` constructs it, for a descriptor that is new to the interest set. -/
def Fresh : Prop :=
  s.thread.Fresh ∧ s.world.poller.kernel s.world.conn.channel.fd = none ∧ s.callbacks = [] ∧
    s.revents = 0 ∧ s.returned = false

def machine : Machine (Lifetime C) (LifeStep C) where
  init := Fresh
  step := step c

end Lifetime

/-! ### What a step does -/

namespace Lifetime

variable {C : Type*} (c : C) (s : Lifetime C)

def afterThread (thread : LoopThread C) (callbacks : List EventCallback) : Lifetime C :=
  { s with thread := thread, callbacks := callbacks }

/-- What the thread has still to do is as before. -/
def afterWorld (w : Conn C) (callbacks : List EventCallback) : Lifetime C :=
  s.afterThread (s.thread.onWorld w) callbacks

/-- The steps. In `handled` the callback reports nothing, and in `closed` it has gone into `handleClose`. -/
inductive Moves : LifeStep C → Lifetime C → Prop
  | poll (revents : Events) (hdispatches : s.thread.Dispatches) (hcallbacks : s.callbacks = [])
      (hdelivers : s.Delivers revents) :
      Moves (.poll revents)
        { s with revents := revents, callbacks := Channel.handleEventWithGuard revents }
  | handled (read : ReadvResult) (write : WriteResult) (callback : EventCallback)
      (rest : List EventCallback) (w : Conn C) (hdispatches : s.thread.Dispatches)
      (hcallbacks : s.callbacks = callback :: rest) (hclose : callback ≠ .closeCallback)
      (hread : callback = .readCallback → ∃ errno, read = .failed errno)
      (hworks : Conn.Works c s.world w) :
      Moves (.callback read write) (s.afterWorld w rest)
  | message (data : List Byte) (write : WriteResult) (rest : List EventCallback) (w : Conn C)
      (hdispatches : s.thread.Dispatches) (hcallbacks : s.callbacks = .readCallback :: rest)
      (hworks : Conn.Works c s.world w) :
      Moves (.callback (.delivered data) write) (s.afterWorld (w.emit .messageCallback) rest)
  | closed (read : ReadvResult) (write : WriteResult) (callback : EventCallback)
      (rest : List EventCallback) (w : Conn C) (hdispatches : s.thread.Dispatches)
      (hcallbacks : s.callbacks = callback :: rest)
      (hcallback : callback = .closeCallback ∨ callback = .readCallback ∧ read = .delivered [])
      (hworks : Conn.Works c s.world w) :
      Moves (.callback read write) (s.afterThread ⟨w.handleClose c, some .closeCallback⟩ rest)
  | connectEstablished (hresume : s.thread.resume = none)
      (hconnecting : s.world.conn.state = .kConnecting) :
      Moves (.call .connectEstablished) (s.afterWorld (s.world.connectEstablished c) s.callbacks)
  | user (call : LoopCall C) (w : Conn C) (hcall : call ≠ .connectDestroyed)
      (hworks : Conn.Works c s.world w) : Moves (.call call) (s.afterWorld w s.callbacks)
  | shutdown (hconnected : s.world.conn.state = .kConnected) :
      Moves (.call .shutdown)
        (s.afterWorld (s.world.setState .kDisconnecting).shutdownInLoop s.callbacks)
  | connectDestroyed (hdispatches : s.thread.Dispatches) (hcallbacks : s.callbacks = []) :
      Moves (.call .connectDestroyed)
        (s.afterThread ⟨s.world.connectDestroyed c, some .removeChannel⟩ [])
  | closeReturns (hresume : s.thread.resume = some .closeCallback) :
      Moves (.call .resume) (s.afterThread ⟨s.world.handleCloseRest, none⟩ s.callbacks)
  | destroyReturns (hresume : s.thread.resume = some .removeChannel) :
      Moves (.call .resume)
        { s.afterThread ⟨s.world.connectDestroyedRest c, none⟩ s.callbacks with returned := true }
  | otherChannels (poller : EPollPoller C)
      (hkernel : poller.kernel s.world.conn.channel.fd =
        s.world.poller.kernel s.world.conn.channel.fd)
      (hchannels : poller.channels s.world.conn.channel.fd =
        s.world.poller.channels s.world.conn.channel.fd) :
      Moves (.call (.otherChannels poller))
        (s.afterWorld { s.world with poller := poller } s.callbacks)

variable {c s} {s' : Lifetime C} {a : LifeStep C}

theorem callback_moves {read : ReadvResult} {write : WriteResult} {callback : EventCallback}
    {rest : List EventCallback} {t : LoopThread C} (hcallbacks : s.callbacks = callback :: rest)
    (h : s.thread.step c (callback.call read write) = some t) :
    s.Moves c (.callback read write) (s.afterThread t rest) := by
  cases callback with
  | closeCallback =>
    obtain ⟨hdispatches, hsome⟩ := Option.ite_none_right_eq_some.mp h
    cases hsome
    exact .closed read write _ rest s.world hdispatches hcallbacks (Or.inl rfl) .refl
  | errorCallback =>
    obtain ⟨hdispatches, hsome⟩ := Option.ite_none_right_eq_some.mp h
    cases hsome
    exact .handled read write _ rest s.world hdispatches hcallbacks EventCallback.noConfusion
      EventCallback.noConfusion .refl
  | writeCallback =>
    obtain ⟨hdispatches, hsome⟩ := Option.ite_none_right_eq_some.mp h
    cases hsome
    exact .handled read write _ rest _ hdispatches hcallbacks EventCallback.noConfusion
      EventCallback.noConfusion (s.world.handleWrite_works c write)
  | readCallback =>
    obtain ⟨hdispatches, hsome⟩ := Option.ite_none_right_eq_some.mp h
    have hresume : s.thread.resume = none := hdispatches.1
    cases read with
    | failed errno =>
      rw [Conn.handleRead_failed] at hsome
      cases hsome
      have hworks := s.world.readInput_works c (.failed errno)
      have hmoves := Moves.handled (.failed errno) write _ rest _ hdispatches hcallbacks
        EventCallback.noConfusion (fun _ => ⟨errno, rfl⟩) hworks
      rw [afterWorld, LoopThread.onWorld, hresume] at hmoves
      exact hmoves
    | delivered data =>
      by_cases hdata : data = []
      · subst hdata
        rw [Conn.handleRead_end] at hsome
        cases hsome
        exact .closed _ write _ rest _ hdispatches hcallbacks (Or.inr ⟨rfl, rfl⟩)
          (s.world.readInput_works c _)
      · rw [Conn.handleRead_message _ _ hdata] at hsome
        cases hsome
        have hworks := s.world.readInput_works c (.delivered data)
        have hmoves := Moves.message data write rest _ hdispatches hcallbacks hworks
        rw [afterWorld, LoopThread.onWorld, hresume] at hmoves
        exact hmoves

theorem call_moves [DecidableEq C] {call : LoopCall C} {t : LoopThread C} (hallows : s.Allows call)
    (hreturned : s.returned = false) (h : s.thread.step c call = some t) :
    s.Moves c (.call call)
      { s with
        thread := t
        returned := s.thread.resume == some .removeChannel && t.resume == none } := by
  have hstays (w : Conn C) :
      { s with
        thread := s.thread.onWorld w
        returned := s.thread.resume == some .removeChannel && (s.thread.onWorld w).resume == none } =
      s.afterWorld w s.callbacks := by
    rw [afterWorld, afterThread, hreturned, LoopThread.onWorld]
    cases s.thread.resume with
    | none => rfl
    | some r => cases r <;> rfl
  cases call with
  | handleRead r => exact hallows.elim
  | handleWrite r => exact hallows.elim
  | handleClose => exact hallows.elim
  | handleError => exact hallows.elim
  | connectEstablished =>
    obtain ⟨⟨hresume, hconnecting⟩, hsome⟩ := Option.ite_none_right_eq_some.mp h
    cases hsome
    rw [hstays]
    exact .connectEstablished hresume hconnecting
  | send buf r =>
    cases h
    rw [hstays]
    exact .user _ _ (by simp) (s.world.send_works c buf r)
  | shutdown =>
    cases h
    rw [hstays]
    by_cases hconnected : s.world.conn.state = .kConnected
    · have hmoves := Moves.shutdown (c := c) hconnected
      rwa [← show s.world.shutdown = _ from if_pos hconnected] at hmoves
    · rw [show s.thread.world.shutdown = s.world from if_neg hconnected]
      exact .user _ _ (by simp) .refl
  | retrieveInput len =>
    cases h
    rw [hstays]
    exact .user _ _ (by simp) (.of_aside ⟨rfl, rfl, rfl⟩ (.of_eq rfl))
  | connectDestroyed =>
    have hcallbacks : s.callbacks = [] := hallows
    obtain ⟨hdispatches, hsome⟩ := Option.ite_none_right_eq_some.mp h
    cases hsome
    have hmoves := Moves.connectDestroyed (c := c) hdispatches hcallbacks
    rw [afterThread, ← hcallbacks] at hmoves
    simpa [hreturned] using hmoves
  | resume =>
    unfold LoopThread.step at h
    dsimp only at h
    split at h
    · rename_i hresume
      cases h
      have hmoves := Moves.closeReturns (c := c) hresume
      rw [afterThread, hreturned] at hmoves
      rw [hresume]
      exact hmoves
    · rename_i hresume
      cases h
      have hmoves := Moves.destroyReturns (c := c) hresume
      simpa [afterThread, hresume] using hmoves
    · cases h
  | otherChannels poller =>
    obtain ⟨hkernel, hchannels⟩ := hallows
    cases h
    rw [hstays]
    exact .otherChannels poller hkernel hchannels

theorem step_moves [DecidableEq C] (h : s.step c a = some s') : s.Moves c a s' ∧ s.returned = false := by
  cases a with
  | poll revents =>
    obtain ⟨⟨hreturned, hdispatches, hcallbacks, hdelivers⟩, hsome⟩ :=
      Option.ite_none_right_eq_some.mp h
    cases hsome
    exact ⟨.poll revents hdispatches hcallbacks hdelivers, hreturned⟩
  | callback read write =>
    unfold step at h
    dsimp only at h
    split at h
    · cases h
    · rename_i callback rest hcallbacks
      obtain ⟨hreturned, hsome⟩ := Option.ite_none_right_eq_some.mp h
      obtain ⟨t, ht, hs'⟩ := Option.map_eq_some_iff.mp hsome
      cases hs'
      exact ⟨callback_moves hcallbacks ht, hreturned⟩
  | call call =>
    obtain ⟨⟨hreturned, hallows⟩, hsome⟩ := Option.ite_none_right_eq_some.mp h
    obtain ⟨t, ht, hs'⟩ := Option.map_eq_some_iff.mp hsome
    cases hs'
    exact ⟨call_moves hallows hreturned ht, hreturned⟩

/-- While the thread stands in an event, its next callback can be called, whatever the socket answers. -/
theorem callback_enabled [DecidableEq C] {callback : EventCallback} {rest : List EventCallback}
    (hreturned : s.returned = false) (hdispatches : s.thread.Dispatches)
    (hcallbacks : s.callbacks = callback :: rest) (read : ReadvResult) (write : WriteResult) :
    ∃ s', (machine c).step s (.callback read write) = some s' := by
  obtain ⟨t, ht⟩ : ∃ t, s.thread.step c (callback.call read write) = some t := by
    cases callback with
    | _ => exact ⟨_, if_pos hdispatches⟩
  refine ⟨{ s with thread := t, callbacks := rest }, ?_⟩
  change step c s (.callback read write) = _
  unfold step
  dsimp only
  rw [hcallbacks]
  dsimp only
  rw [if_pos hreturned, ht]
  rfl

end Lifetime

/-! ### The registration -/

theorem Channel.setEvents_entries {C : Type*} {p : EPollPoller C} {c : C} {ch : Channel}
    (hkernel : p.kernel ch.fd = ch.kernelEntry c)
    (hchannels : ch.index ≠ .kNew → p.channels ch.fd = some c) (events : Events) :
    (ch.setEvents p c events).1.kernel ch.fd = (ch.setEvents p c events).2.kernelEntry c ∧
      (ch.setEvents p c events).1.channels ch.fd = some c ∧
      (ch.setEvents p c events).2.index =
        if ch.index = .kAdded ∧ events = 0 then .kDeleted else .kAdded := by
  cases hindex : ch.index with
  | kNew =>
    simp only [kernelEntry, hindex, reduceCtorEq, if_false] at hkernel
    simp [setEvents, EPollPoller.updateChannel, EPollPoller.update, epollCtl, kernelEntry, hindex,
      hkernel]
  | kDeleted =>
    have hmap := hchannels (by simp [hindex])
    simp only [kernelEntry, hindex, reduceCtorEq, if_false] at hkernel
    simp [setEvents, EPollPoller.updateChannel, EPollPoller.update, epollCtl, kernelEntry, hindex,
      hkernel, hmap]
  | kAdded =>
    have hmap := hchannels (by simp [hindex])
    simp only [kernelEntry, hindex, if_true] at hkernel
    by_cases hevents : events = 0#32
    · simp [setEvents, EPollPoller.updateChannel, EPollPoller.update, epollCtl, kernelEntry,
        hindex, hkernel, hmap, isNoneEvent, kNoneEvent, hevents]
    · simp [setEvents, EPollPoller.updateChannel, EPollPoller.update, epollCtl, kernelEntry,
        hindex, hkernel, hmap, isNoneEvent, kNoneEvent, hevents]

namespace Conn

variable {C : Type*} {w w' : Conn C} {c : C}

/-- The tables hold what the channel asks for at its descriptor, and the mask of an open connection is one of two. -/
structure Registered (c : C) (w : Conn C) : Prop where
  kernel : w.poller.kernel w.conn.channel.fd = w.conn.channel.kernelEntry c
  channels : w.conn.channel.index ≠ .kNew → w.poller.channels w.conn.channel.fd = some c
  connecting : w.conn.state = .kConnecting →
    w.conn.channel.index = .kNew ∧ w.conn.channel.events = 0
  opened : w.conn.state = .kConnected ∨ w.conn.state = .kDisconnecting →
    w.conn.channel.index = .kAdded ∧ (w.conn.channel.events = Channel.kReadEvent ∨
      w.conn.channel.events = Channel.kReadEvent ||| Channel.kWriteEvent)
  closed : w.conn.state = .kDisconnected → w.conn.channel.events = 0

theorem isWriting_of_events (h : w.conn.channel.events = 0) : w.isWriting = false := by
  rw [isWriting, Channel.isWriting, h]
  decide

theorem Registered.congr (h : w.Registered c) (hstate : w'.conn.state = w.conn.state)
    (hchannel : w'.conn.channel = w.conn.channel)
    (hkernel : w'.poller.kernel w.conn.channel.fd = w.poller.kernel w.conn.channel.fd)
    (hchannels : w'.poller.channels w.conn.channel.fd = w.poller.channels w.conn.channel.fd) :
    w'.Registered c := by
  constructor
  · rw [hchannel, hkernel]
    exact h.kernel
  · rw [hchannel, hchannels]
    exact h.channels
  · rw [hchannel, hstate]
    exact h.connecting
  · rw [hchannel, hstate]
    exact h.opened
  · rw [hchannel, hstate]
    exact h.closed

theorem Registered.setEvents (h : w.Registered c) (ch : Channel) (events : Events)
    (hfd : ch.fd = w.conn.channel.fd) (hindex : ch.index = w.conn.channel.index)
    (hevents : ch.events = w.conn.channel.events)
    (hset : (w'.poller, w'.conn.channel) = ch.setEvents w.poller c events)
    (hopened : w'.conn.state = .kConnected ∨ w'.conn.state = .kDisconnecting →
      events = Channel.kReadEvent ∨ events = Channel.kReadEvent ||| Channel.kWriteEvent)
    (hclosed : w'.conn.state = .kDisconnected → events = 0)
    (hconnecting : w'.conn.state ≠ .kConnecting) : w'.Registered c := by
  have hpoller : w'.poller = (ch.setEvents w.poller c events).1 := congrArg Prod.fst hset
  have hchannel : w'.conn.channel = (ch.setEvents w.poller c events).2 := congrArg Prod.snd hset
  have hmask : w'.conn.channel.events = events := by
    rw [hchannel]
    exact Channel.updateChannel_events _ _ _
  obtain ⟨hkernel, hchannels, hnew⟩ := Channel.setEvents_entries (p := w.poller) (c := c)
    (show w.poller.kernel ch.fd = ch.kernelEntry c by
      rw [hfd, h.kernel, Channel.kernelEntry, Channel.kernelEntry, hindex, hevents])
    (by rw [hfd, hindex]; exact h.channels) events
  constructor
  · rw [hpoller, hchannel, Channel.setEvents_fd]
    exact hkernel
  · intro _
    rw [hpoller, hchannel, Channel.setEvents_fd]
    exact hchannels
  · exact fun h => absurd h hconnecting
  · intro hstate
    refine ⟨?_, by rw [hmask]; exact hopened hstate⟩
    rw [hchannel, hnew, if_neg]
    intro hzero
    rcases hopened hstate with hread | hboth
    · exact absurd (hzero.2.symm.trans hread) (by decide)
    · exact absurd (hzero.2.symm.trans hboth) (by decide)
  · intro hstate
    rw [hmask]
    exact hclosed hstate

theorem Registered.works (h : w.Registered c) (hworks : Works c w w') : w'.Registered c := by
  rcases hworks.channel with hsame | ⟨hopen, on, hset⟩
  · have hpoller : w'.poller = w.poller := congrArg Prod.fst hsame
    exact h.congr hworks.state (congrArg Prod.snd hsame) (by rw [hpoller]) (by rw [hpoller])
  · have hstate : w.conn.state = .kConnected ∨ w.conn.state = .kDisconnecting := by
      rcases hopen with hconnected | hwriting
      · exact Or.inl hconnected
      · cases hstate : w.conn.state with
        | kConnecting =>
          rw [isWriting_of_events (h.connecting hstate).2] at hwriting
          cases hwriting
        | kDisconnected =>
          rw [isWriting_of_events (h.closed hstate)] at hwriting
          cases hwriting
        | kConnected => exact Or.inl rfl
        | kDisconnecting => exact Or.inr rfl
    obtain ⟨_, hmask⟩ := h.opened hstate
    refine h.setEvents _ _ rfl rfl rfl hset (fun _ => ?_) ?_ ?_
    · rcases hmask with hmask | hmask <;> cases on <;> rw [hmask] <;> decide
    · intro hclosed
      rw [hworks.state] at hclosed
      rcases hstate with hstate | hstate <;> rw [hstate] at hclosed <;> cases hclosed
    · intro hconnecting
      rw [hworks.state] at hconnecting
      rcases hstate with hstate | hstate <;> rw [hstate] at hconnecting <;> cases hconnecting

theorem Registered.handleClose (h : w.Registered c) : (w.handleClose c).Registered c := by
  refine h.setEvents w.conn.channel 0 rfl rfl rfl rfl ?_ (fun _ => rfl) ?_
  · intro hstate
    rcases hstate with hstate | hstate <;> cases hstate
  · exact StateE.noConfusion

theorem Registered.connectEstablished (h : w.Registered c) (hconnecting : w.conn.state = .kConnecting) :
    (w.connectEstablished c).Registered c := by
  have hmask : w.conn.channel.events ||| Channel.kReadEvent = Channel.kReadEvent := by
    rw [(h.connecting hconnecting).2]
    decide
  exact h.setEvents { w.conn.channel with tied := true }
    (w.conn.channel.events ||| Channel.kReadEvent) rfl rfl rfl rfl (fun _ => Or.inl hmask)
    StateE.noConfusion StateE.noConfusion

theorem Registered.connectDestroyed (h : w.Registered c) : (w.connectDestroyed c).Registered c := by
  by_cases hconnected : w.conn.state = .kConnected
  · rw [show w.connectDestroyed c = w.handleClose c from if_pos hconnected]
    exact h.handleClose
  · rw [w.connectDestroyed_of_not_connected c hconnected]
    exact h

end Conn

namespace Lifetime

variable {C : Type*} {c : C} {s s' : Lifetime C} {a : LifeStep C}

theorem Moves.registered (h : s.world.Registered c) (hmoves : s.Moves c a s') :
    s'.returned = true ∨ s'.world.Registered c := by
  cases hmoves with
  | poll => exact Or.inr h
  | handled read write callback rest w _ _ _ _ hworks => exact Or.inr (h.works hworks)
  | message data write rest w _ _ hworks => exact Or.inr ((h.works hworks).congr rfl rfl rfl rfl)
  | closed read write callback rest w _ _ _ hworks => exact Or.inr (h.works hworks).handleClose
  | connectEstablished _ hconnecting => exact Or.inr (h.connectEstablished hconnecting)
  | user call w _ hworks => exact Or.inr (h.works hworks)
  | shutdown hconnected =>
    obtain ⟨hchannel, hpoller, hstate⟩ := (s.world.setState .kDisconnecting).shutdownInLoop_aside
    right
    have hstore : (s.world.setState .kDisconnecting).Registered c := by
      refine ⟨h.kernel, h.channels, StateE.noConfusion, fun _ => ?_, StateE.noConfusion⟩
      exact h.opened (Or.inl hconnected)
    have hsame : (s.world.setState .kDisconnecting).shutdownInLoop.Registered c :=
      hstore.congr hstate hchannel (by rw [hpoller]) (by rw [hpoller])
    exact hsame
  | connectDestroyed => exact Or.inr h.connectDestroyed
  | closeReturns => exact Or.inr (h.congr rfl rfl rfl rfl)
  | destroyReturns => exact Or.inl rfl
  | otherChannels poller hkernel hchannels => exact Or.inr (h.congr rfl rfl hkernel hchannels)

theorem Fresh.registered (h : s.Fresh) : s.world.Registered c := by
  obtain ⟨⟨sockfd, writeComplete, highWater, mark, poller, hworld, _⟩, hkernel, _⟩ := h
  rw [show s.world = _ from hworld] at hkernel ⊢
  refine ⟨hkernel, fun hindex => absurd rfl hindex, fun _ => ⟨rfl, rfl⟩, ?_, StateE.noConfusion⟩
  intro hstate
  rcases hstate with hstate | hstate <;> cases hstate

end Lifetime

end LTMuduo
