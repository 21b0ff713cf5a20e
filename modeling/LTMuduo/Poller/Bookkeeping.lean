import LTMuduo.Poller.Code
import LTMuduo.Lib.Keyed
import LTMuduo.Lib.Machine

/-!
# The three representations of a registration agree

The channels of one loop, with distinct descriptors, under any calls of the functions that change what they are interested in. `Agrees` is the invariant. Everything a call does to a channel is one of two step lemmas, since `enableReading`, `disableReading`, `enableWriting`, `disableWriting` and `disableAll` are all `setEvents`; and what either of them has to show is `Agrees.put`, that the two tables got the entries the new state of the channel asks for.
-/

namespace LTMuduo

/-- A call on a channel. -/
inductive ChannelCall
  | enableReading
  | disableReading
  | enableWriting
  | disableWriting
  | disableAll
  | remove

def ChannelCall.exec {C : Type*} (p : EPollPoller C) (c : C) (ch : Channel) :
    ChannelCall → EPollPoller C × Channel
  | .enableReading => ch.enableReading p c
  | .disableReading => ch.disableReading p c
  | .enableWriting => ch.enableWriting p c
  | .disableWriting => ch.disableWriting p c
  | .disableAll => ch.disableAll p c
  | .remove => ch.remove p c

/-- The entry a channel asks for in the interest set. -/
def Channel.kernelEntry {C : Type*} (c : C) (ch : Channel) : Option (Events × C) :=
  if ch.index = .kAdded then some (ch.events, c) else none

/-- The entry a channel asks for in `channels_`. -/
def Channel.mapEntry {C : Type*} (c : C) (ch : Channel) : Option C :=
  if ch.index = .kNew then none else some c

/-- The poller of a loop and the channels on it. -/
structure PollerState (C : Type*) where
  poller : EPollPoller C
  channel : C → Channel

namespace PollerState

variable {C : Type*}

/-- The channels `fd c` before any call, and an empty poller. -/
def initial (fd : C → Fd) : PollerState C where
  poller := .new
  channel := fun c => .new (fd c)

structure Agrees (fd : C → Fd) (s : PollerState C) : Prop where
  fds : ∀ c, (s.channel c).fd = fd c
  kernel : Keyed s.poller.kernel fd fun c => (s.channel c).kernelEntry c
  channels : Keyed s.poller.channels fd fun c => (s.channel c).mapEntry c
  failed : s.poller.failed = []

variable {fd : C → Fd} {s : PollerState C} {c : C}

theorem initial_agrees (fd : C → Fd) : (initial fd).Agrees fd :=
  ⟨fun _ => rfl, Keyed.empty fd, Keyed.empty fd, rfl⟩

theorem Agrees.kernel_fd (h : s.Agrees fd) :
    s.poller.kernel (s.channel c).fd = (s.channel c).kernelEntry c := by
  rw [h.fds]
  exact h.kernel.lookup c

theorem Agrees.channels_fd (h : s.Agrees fd) :
    s.poller.channels (s.channel c).fd = (s.channel c).mapEntry c := by
  rw [h.fds]
  exact h.channels.lookup c

variable [DecidableEq C]

/-- Stores what a call on channel `c` returns. -/
def put (s : PollerState C) (c : C) (result : EPollPoller C × Channel) : PollerState C where
  poller := result.1
  channel := Function.update s.channel c result.2

theorem Agrees.put (h : s.Agrees fd) (hfd : Function.Injective fd) {p : EPollPoller C}
    {ch : Channel} (hch : ch.fd = (s.channel c).fd)
    (hkernel : p.kernel = Function.update s.poller.kernel ch.fd (ch.kernelEntry c))
    (hchannels : p.channels = Function.update s.poller.channels ch.fd (ch.mapEntry c))
    (hfailed : p.failed = []) : (s.put c (p, ch)).Agrees fd := by
  have hfdc : ch.fd = fd c := hch.trans (h.fds c)
  rw [hfdc] at hkernel hchannels
  refine ⟨fun d => ?_, ?_, ?_, hfailed⟩
  · by_cases hd : d = c
    · subst d
      simpa only [PollerState.put, Function.update_self] using hfdc
    · simpa only [PollerState.put, Function.update_of_ne hd] using h.fds d
  · have hrecord : (fun d => ((s.put c (p, ch)).channel d).kernelEntry d)
        = Function.update (fun d => (s.channel d).kernelEntry d) c (ch.kernelEntry c) :=
      funext fun d => Function.apply_update (fun d ch => ch.kernelEntry d) s.channel c ch d
    rw [hrecord, PollerState.put, hkernel]
    exact h.kernel.update hfd c _
  · have hrecord : (fun d => ((s.put c (p, ch)).channel d).mapEntry d)
        = Function.update (fun d => (s.channel d).mapEntry d) c (ch.mapEntry c) :=
      funext fun d => Function.apply_update (fun d ch => ch.mapEntry d) s.channel c ch d
    rw [hrecord, PollerState.put, hchannels]
    exact h.channels.update hfd c _

/-- `updateChannel` after a mask has been stored, for each value of the index. -/
theorem Agrees.setEvents (h : s.Agrees fd) (hfd : Function.Injective fd) (events : Events) :
    (s.put c ((s.channel c).setEvents s.poller c events)).Agrees fd := by
  have hkernel := h.kernel_fd (c := c)
  have hmap := h.channels_fd (c := c)
  cases hindex : (s.channel c).index with
  | kNew =>
    simp only [Channel.kernelEntry, hindex, reduceCtorEq, if_false] at hkernel
    simp only [Channel.setEvents, EPollPoller.updateChannel, hindex, true_or, if_true,
      EPollPoller.update, epollCtl, hkernel]
    exact h.put hfd rfl rfl rfl h.failed
  | kDeleted =>
    simp only [Channel.kernelEntry, Channel.mapEntry, hindex, reduceCtorEq, if_false]
      at hkernel hmap
    simp only [Channel.setEvents, EPollPoller.updateChannel, hindex, or_true, if_true,
      reduceCtorEq, if_false, EPollPoller.update, epollCtl, hkernel]
    refine h.put hfd rfl rfl ?_ h.failed
    exact (Function.update_eq_self_iff.mpr hmap.symm).symm
  | kAdded =>
    simp only [Channel.kernelEntry, Channel.mapEntry, hindex, reduceCtorEq, if_true, if_false]
      at hkernel hmap
    simp only [Channel.setEvents, EPollPoller.updateChannel, hindex, reduceCtorEq, or_self,
      if_false, EPollPoller.update, epollCtl, hkernel]
    split
    · refine h.put hfd rfl rfl ?_ h.failed
      exact (Function.update_eq_self_iff.mpr hmap.symm).symm
    · refine h.put hfd rfl ?_ ?_ h.failed
      · simp only [Channel.kernelEntry, if_true]
      · simp only [Channel.mapEntry, reduceCtorEq, if_false]
        exact (Function.update_eq_self_iff.mpr hmap.symm).symm

theorem Agrees.remove (h : s.Agrees fd) (hfd : Function.Injective fd) :
    (s.put c ((s.channel c).remove s.poller c)).Agrees fd := by
  have hkernel := h.kernel_fd (c := c)
  by_cases hindex : (s.channel c).index = .kAdded
  · simp only [Channel.kernelEntry, hindex, if_true] at hkernel
    simp only [Channel.remove, EPollPoller.removeChannel, hindex, if_true, EPollPoller.update,
      epollCtl, hkernel]
    exact h.put hfd rfl rfl rfl h.failed
  · simp only [Channel.kernelEntry, hindex, if_false] at hkernel
    simp only [Channel.remove, EPollPoller.removeChannel, if_neg hindex]
    refine h.put hfd rfl ?_ rfl h.failed
    exact (Function.update_eq_self_iff.mpr hkernel.symm).symm

theorem Agrees.exec (h : s.Agrees fd) (hfd : Function.Injective fd) (call : ChannelCall) :
    (s.put c (call.exec s.poller c (s.channel c))).Agrees fd := by
  cases call with
  | remove => exact h.remove hfd
  | _ => exact h.setEvents hfd _

/-! ### Runs -/

/-- The calls on the channels of one loop. After the exit of `LOG_FATAL` there is no next step. -/
def machine (fd : C → Fd) : Machine (PollerState C) (C × ChannelCall) where
  init s := s = initial fd
  step s call :=
    if s.poller.exited then none
    else some (s.put call.1 (call.2.exec s.poller call.1 (s.channel call.1)))

theorem Agrees.step (h : s.Agrees fd) (hfd : Function.Injective fd) (call : C × ChannelCall) :
    ∃ s', (machine fd).step s call = some s' ∧ s'.Agrees fd := by
  refine ⟨_, if_neg ?_, h.exec hfd call.2⟩
  simp [EPollPoller.exited, h.failed]

theorem Agrees.run (h : s.Agrees fd) (hfd : Function.Injective fd)
    (calls : List (C × ChannelCall)) :
    ∃ s', (machine fd).run s calls = some s' ∧ s'.Agrees fd := by
  induction calls generalizing s with
  | nil => exact ⟨s, rfl, h⟩
  | cons call calls ih =>
    obtain ⟨t, hstep, ht⟩ := h.step hfd call
    obtain ⟨s', hrun, hs'⟩ := ih ht
    exact ⟨s', by rw [Machine.run_cons, hstep]; exact hrun, hs'⟩

/-- Whatever is called on the channels of a loop, in whatever order: the run never ends in the exit of `LOG_FATAL` and no `epoll_ctl` fails, the interest set holds exactly the added channels with their masks, and the map and `hasChannel` know exactly the channels that are not new. -/
theorem bookkeeping_agrees (fd : C → Fd) (hfd : Function.Injective fd)
    (calls : List (C × ChannelCall)) :
    ∃ s, (machine fd).run (initial fd) calls = some s ∧
      (∀ x events c, s.poller.kernel x = some (events, c) ↔
        fd c = x ∧ (s.channel c).index = .kAdded ∧ (s.channel c).events = events) ∧
      (∀ x c, s.poller.channels x = some c ↔
        fd c = x ∧ ((s.channel c).index = .kAdded ∨ (s.channel c).index = .kDeleted)) ∧
      (∀ c, s.poller.hasChannel c (s.channel c) = true ↔
        ((s.channel c).index = .kAdded ∨ (s.channel c).index = .kDeleted)) ∧
      s.poller.failed = [] := by
  obtain ⟨s, hrun, hagrees⟩ := (initial_agrees fd).run hfd calls
  have hchannels (x : Fd) (c : C) : s.poller.channels x = some c ↔
      fd c = x ∧ ((s.channel c).index = .kAdded ∨ (s.channel c).index = .kDeleted) := by
    rw [hagrees.channels.eq_some_iff]
    constructor
    · intro h
      obtain ⟨d, hd, hentry⟩ := h
      cases hindex : (s.channel d).index <;> simp_all [Channel.mapEntry]
    · intro h
      obtain ⟨hc, hindex⟩ := h
      exact ⟨c, hc, by rcases hindex with h | h <;> simp [Channel.mapEntry, h]⟩
  refine ⟨s, hrun, fun x events c => ?_, hchannels, fun c => ?_, hagrees.failed⟩
  · rw [hagrees.kernel.eq_some_iff]
    constructor
    · intro h
      obtain ⟨d, hd, hentry⟩ := h
      unfold Channel.kernelEntry at hentry
      split at hentry
      · cases hentry
        exact ⟨hd, ‹_›, rfl⟩
      · cases hentry
    · intro h
      obtain ⟨hc, hindex, rfl⟩ := h
      exact ⟨c, hc, if_pos hindex⟩
  · rw [EPollPoller.hasChannel, beq_iff_eq, hchannels, hagrees.fds]
    exact and_iff_right rfl

/-- Two channels, a repeated `disableAll` and a removal followed by another call. -/
theorem bookkeeping_agrees_two_channels :
    let fd : Bool → Fd := fun c => if c then 7 else 5
    let calls : List (Bool × ChannelCall) :=
      [(true, .enableReading), (false, .enableWriting), (true, .disableAll), (true, .disableAll),
        (true, .remove), (true, .disableReading), (false, .remove)]
    ∃ s, (machine fd).run (initial fd) calls = some s ∧
      (s.poller.kernel 7 = some (0, true) ↔
        fd true = 7 ∧ (s.channel true).index = .kAdded ∧ (s.channel true).events = 0) ∧
      s.poller.failed = [] := by
  intro fd calls
  have hfd : Function.Injective fd := by
    rintro (_ | _) (_ | _) h
    · rfl
    · exact absurd h (by decide)
    · exact absurd h (by decide)
    · rfl
  obtain ⟨s, hrun, hkernel, _, _, hfailed⟩ := bookkeeping_agrees fd hfd calls
  exact ⟨s, hrun, hkernel 7 0 true, hfailed⟩

end PollerState

end LTMuduo
