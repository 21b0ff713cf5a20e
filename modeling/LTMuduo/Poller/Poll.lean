import LTMuduo.Poller.Bookkeeping
import Mathlib.Algebra.Group.Nat.Defs
import Mathlib.Data.Fintype.Card
import Mathlib.Data.Nat.Size

/-!
# The polls of a loop

`EPollPoller::poll` hands `::epoll_wait` the array `events_`, which has room for 16 events in the beginning and is doubled whenever it comes back full. Which of the ready descriptors a full array names is up to the kernel, and so a ready channel may be passed over. `poll_reports` says how often, over all the polls of a run.
-/

namespace LTMuduo

variable {C : Type*}

/-- An answer to `::epoll_wait`: the events it has stored, each with its user data, or the value of `errno`. -/
inductive WaitResult (C : Type*)
  | ready (events : List (Events × C))
  | failed (errno : Errno)

namespace InterestSet

/-- What there is to report of a descriptor, of which `pending` is everything that has happened. Errors and hang-ups are reported for every mask. -/
def report (kernel : InterestSet C) (pending : Fd → Events) (fd : Fd) : Option (Events × C) :=
  match kernel fd with
  | none => none
  | some (mask, c) =>
    let revents := pending fd &&& (mask ||| EPOLLERR ||| EPOLLHUP)
    if revents = 0 then none else some (revents, c)

/-- The answers of `::epoll_wait`: the reports of different descriptors, `maxevents` at most, and of all that have one if there is room left. -/
def Waits (kernel : InterestSet C) (pending : Fd → Events) (maxevents : Int) :
    WaitResult C → Prop
  | .ready events =>
    0 < maxevents ∧ events.length ≤ maxevents ∧
      ∃ fds : List Fd, fds.Nodup ∧ fds.map (report kernel pending) = events.map some ∧
        (events.length < maxevents → ∀ fd, report kernel pending fd ≠ none → fd ∈ fds)
  | .failed _ => True

end InterestSet

/-- The poller of a loop and its channels, with `events_.size()`, the `revents_` of the channels, and the `activeChannels_` of the loop. -/
structure Polling (C : Type*) where
  registered : PollerState C
  eventListSize : Nat
  revents : C → Events
  activeChannels : List C

def kInitEventListSize : Nat := 16

namespace Polling

/-- `static_cast<int>(events_.size())`. -/
def maxevents (s : Polling C) : Int := (BitVec.ofNat 32 s.eventListSize).toInt

variable [DecidableEq C]

/-- The body of the loop: `set_revents` and `push_back`. `Channel::set_revents` is declared to return an `int` and has no `return` statement, which is undefined behaviour; it is taken to return, and nobody reads the `int`. -/
def fillActiveChannel (s : Polling C) (event : Events × C) : Polling C :=
  { s with
    revents := Function.update s.revents event.2 event.1
    activeChannels := s.activeChannels ++ [event.2] }

def fillActiveChannels (s : Polling C) (events : List (Events × C)) : Polling C :=
  events.foldl fillActiveChannel s

/-- `EPollPoller::poll`. A timeout and an error change nothing. -/
def poll (s : Polling C) : WaitResult C → Polling C
  | .ready events =>
    let numEvents := events.length
    if 0 < numEvents then
      let s := s.fillActiveChannels events
      if numEvents = s.eventListSize then { s with eventListSize := s.eventListSize * 2 } else s
    else s
  | .failed _ => s

end Polling

/-- What the thread of a loop does: calls on its channels, and the `poll` of the next iteration. -/
inductive PollCall (C : Type*)
  | channel (c : C) (call : ChannelCall)
  | poll (pending : Fd → Events) (answer : WaitResult C)

namespace Polling

variable [DecidableEq C] (fd : C → Fd)

def initial : Polling C where
  registered := .initial fd
  eventListSize := kInitEventListSize
  revents := fun _ => 0
  activeChannels := []

def step (s : Polling C) : PollCall C → Option (Polling C)
  | .channel c call =>
    ((PollerState.machine fd).step s.registered (c, call)).map fun registered => { s with registered }
  | .poll _ answer => some ({ s with activeChannels := [] }.poll answer)

def machine : Machine (Polling C) (PollCall C) where
  init s := s = initial fd
  step := step fd

/-- The kernel answers a `poll`, and at most `n` descriptors have something to report. -/
def Answered (n : Nat) (s : Polling C) (a : PollCall C) (_ : Polling C) : Prop :=
  match a with
  | .channel _ _ => True
  | .poll pending answer =>
    s.registered.poller.kernel.Waits pending s.maxevents answer ∧
      ∀ fds : List Fd, fds.Nodup →
        (∀ x ∈ fds, s.registered.poller.kernel.report pending x ≠ none) → fds.length ≤ n

/-- The events a channel waits for that have happened. -/
def due (s : Polling C) (pending : Fd → Events) (c : C) : Events :=
  if (s.registered.channel c).index = .kAdded then
    pending (fd c) &&& ((s.registered.channel c).events ||| EPOLLERR ||| EPOLLHUP)
  else 0

/-- After a `poll` the active channels are different ones, all of them registered and ready, and each is handed the events it waits for. -/
def Reports (s : Polling C) (a : PollCall C) (s' : Polling C) : Prop :=
  match a with
  | .channel _ _ => True
  | .poll pending _ =>
    s'.activeChannels.Nodup ∧
      ∀ c ∈ s'.activeChannels, s'.revents c = s.due fd pending c ∧ s.due fd pending c ≠ 0

/-- A `poll` that reports other channels and passes over a ready one. -/
def missed (c : C) (s : Polling C) : PollCall C → List Unit
  | .poll pending (.ready events) =>
    if s.due fd pending c ≠ 0 ∧ c ∉ events.map Prod.snd then [()] else []
  | _ => []

end Polling

namespace Polling

variable {fd : C → Fd} {s s' : Polling C} {c : C} {events : List (Events × C)}
  {pending : Fd → Events} {answer : WaitResult C} {n : Nat}

/-! ### The answers -/

theorem kernel_eq (hagrees : s.registered.Agrees fd)
    (hadded : (s.registered.channel c).index = .kAdded) :
    s.registered.poller.kernel (fd c) = some ((s.registered.channel c).events, c) :=
  (hagrees.kernel.lookup c).trans (if_pos hadded)

theorem report_eq (hagrees : s.registered.Agrees fd) {x : Fd} {event : Events × C} :
    s.registered.poller.kernel.report pending x = some event ↔
      fd event.2 = x ∧ event.1 = s.due fd pending event.2 ∧ s.due fd pending event.2 ≠ 0 := by
  constructor
  · intro hreport
    unfold InterestSet.report at hreport
    split at hreport
    · cases hreport
    · rename_i mask c hentry
      obtain ⟨d, hd, hrecord⟩ := (hagrees.kernel.eq_some_iff x (mask, c)).mp hentry
      obtain ⟨hadded, hsame⟩ := Option.ite_none_right_eq_some.mp hrecord
      obtain ⟨rfl, rfl⟩ := Prod.mk.inj (Option.some.inj hsame)
      obtain ⟨hne, hevent⟩ := Option.ite_none_left_eq_some.mp hreport
      have hdue : s.due fd pending d =
          pending x &&& ((s.registered.channel d).events ||| EPOLLERR ||| EPOLLHUP) := by
        rw [due, if_pos hadded, hd]
      cases hevent
      rw [hdue]
      exact ⟨hd, rfl, hne⟩
  · intro h
    obtain ⟨revents, c⟩ := event
    obtain ⟨rfl, hevent, hne⟩ := h
    dsimp only at hevent hne ⊢
    rw [hevent]
    have hadded : (s.registered.channel c).index = .kAdded := by
      by_contra hother
      exact hne (if_neg hother)
    unfold due at hne ⊢
    rw [if_pos hadded] at hne ⊢
    rw [InterestSet.report, kernel_eq hagrees hadded]
    exact if_neg hne

theorem fds_eq {g : Fd → Option (Events × C)} {k : Events × C → Fd}
    (hkey : ∀ x event, g x = some event → k event = x) {fds : List Fd}
    (hfds : fds.map g = events.map some) : events.map k = fds := by
  induction fds generalizing events with
  | nil =>
    cases events with
    | nil => rfl
    | cons event events => cases hfds
  | cons x fds ih =>
    cases events with
    | nil => cases hfds
    | cons event events =>
      obtain ⟨hhead, htail⟩ := List.cons.inj hfds
      rw [List.map_cons, hkey x event hhead, ih htail]

/-- An answer, seen from the channels: different ones, all of them ready, and every ready one if there is room left. -/
def Names (fd : C → Fd) (s : Polling C) (pending : Fd → Events) (events : List (Events × C)) :
    Prop :=
  0 < s.maxevents ∧ events.length ≤ s.maxevents ∧ (events.map Prod.snd).Nodup ∧
    (∀ event ∈ events, event.1 = s.due fd pending event.2 ∧ s.due fd pending event.2 ≠ 0) ∧
    (events.length < s.maxevents → ∀ c, s.due fd pending c ≠ 0 → c ∈ events.map Prod.snd)

-- A search through `events`, not through all the pairs there are.
instance [DecidableEq C] [Fintype C] : Decidable (s.Names fd pending events) :=
  have : Decidable (∀ event ∈ events,
      event.1 = s.due fd pending event.2 ∧ s.due fd pending event.2 ≠ 0) :=
    List.decidableBAll _ events
  inferInstanceAs (Decidable (_ ∧ _))

theorem waits_iff (hagrees : s.registered.Agrees fd) (hfd : Function.Injective fd) :
    s.registered.poller.kernel.Waits pending s.maxevents (.ready events) ↔
      s.Names fd pending events := by
  constructor
  · intro hwaits
    obtain ⟨hpos, hle, fds, hnodup, hfds, hall⟩ := hwaits
    refine ⟨hpos, hle, ?_, ?_, ?_⟩
    · have hkey := fds_eq (fun x event h => ((report_eq hagrees).mp h).1) hfds
      rw [← hkey, ← Function.comp_def, ← List.map_map] at hnodup
      exact List.Nodup.of_map fd hnodup
    · intro event hevent
      have hmem : some event ∈ fds.map (s.registered.poller.kernel.report pending) := by
        rw [hfds]
        exact List.mem_map_of_mem hevent
      obtain ⟨x, _, hx⟩ := List.mem_map.mp hmem
      exact ((report_eq hagrees).mp hx).2
    · intro hroom c hdue
      have hreport : s.registered.poller.kernel.report pending (fd c) =
          some (s.due fd pending c, c) := (report_eq hagrees).mpr ⟨rfl, rfl, hdue⟩
      have hmem : fd c ∈ fds := by
        refine hall hroom (fd c) ?_
        rw [hreport]
        exact Option.some_ne_none _
      have hthere := List.mem_map_of_mem (f := s.registered.poller.kernel.report pending) hmem
      rw [hreport, hfds] at hthere
      obtain ⟨event, hevent, heq⟩ := List.mem_map.mp hthere
      cases heq
      exact List.mem_map_of_mem hevent
  · intro hnames
    obtain ⟨hpos, hle, hnodup, hevents, hall⟩ := hnames
    refine ⟨hpos, hle, (events.map Prod.snd).map fd, hnodup.map hfd, ?_, ?_⟩
    · rw [List.map_map, List.map_map]
      refine List.map_congr_left fun event hevent => ?_
      exact (report_eq hagrees).mpr ⟨rfl, hevents event hevent⟩
    · intro hroom x hx
      obtain ⟨event, hreport⟩ := Option.ne_none_iff_exists'.mp hx
      obtain ⟨rfl, _, hdue⟩ := (report_eq hagrees).mp hreport
      exact List.mem_map_of_mem (hall hroom event.2 hdue)

theorem ready_length_le [Fintype C] (hagrees : s.registered.Agrees fd) {fds : List Fd}
    (hnodup : fds.Nodup)
    (hready : ∀ x ∈ fds, s.registered.poller.kernel.report pending x ≠ none) :
    fds.length ≤ Fintype.card C := by
  have hsub : fds.toFinset ⊆ Finset.univ.image fd := by
    intro x hx
    obtain ⟨event, hreport⟩ := Option.ne_none_iff_exists'.mp (hready x (List.mem_toFinset.mp hx))
    exact Finset.mem_image.mpr ⟨event.2, Finset.mem_univ _, ((report_eq hagrees).mp hreport).1⟩
  calc fds.length = fds.toFinset.card := (List.toFinset_card_of_nodup hnodup).symm
    _ ≤ (Finset.univ.image fd).card := Finset.card_le_card hsub
    _ ≤ Fintype.card C := Finset.card_image_le

/-! ### The array -/

/-- The array has been doubled `k` times, each time to make room for descriptors that there are. -/
def Doubled (n k : Nat) (s : Polling C) : Prop :=
  s.eventListSize = 2 ^ (k + 4) ∧ k ≤ Nat.size (n / 16)

theorem Doubled.maxevents {k : Nat} (h : Doubled n k s) (hn : n < 2 ^ 30) :
    s.maxevents = s.eventListSize := by
  obtain ⟨hsize, hk⟩ := h
  have hbits : Nat.size (n / 16) ≤ 26 := Nat.size_le.mpr (by omega)
  have hpow : 2 ^ (k + 4) ≤ 2 ^ 30 := Nat.pow_le_pow_right (by decide) (by omega)
  rw [Polling.maxevents, BitVec.toInt_ofNat', hsize]
  exact Int.bmod_eq_of_le (by omega) (by omega)

theorem Doubled.le {k : Nat} (h : Doubled n k s) : s.eventListSize ≤ max 16 (2 * n) := by
  obtain ⟨hsize, hk⟩ := h
  rw [hsize]
  cases k with
  | zero => exact Nat.le_max_left _ _
  | succ k =>
    have hpow : 2 ^ k ≤ n / 16 := Nat.lt_size.mp hk
    rw [show k + 1 + 4 = k + 5 from rfl, Nat.pow_add]
    omega

theorem Answered.length_le (h : Answered n s (.poll pending (.ready events)) s') :
    events.length ≤ n := by
  obtain ⟨⟨_, _, fds, hnodup, hfds, _⟩, hready⟩ := h
  have hlength := congrArg List.length hfds
  rw [List.length_map, List.length_map] at hlength
  rw [← hlength]
  refine hready fds hnodup ?_
  intro x hx
  have hthere := List.mem_map_of_mem (f := s.registered.poller.kernel.report pending) hx
  rw [hfds] at hthere
  obtain ⟨event, _, heq⟩ := List.mem_map.mp hthere
  rw [← heq]
  exact Option.some_ne_none event

variable [DecidableEq C]

/-! ### `poll` -/

@[simp] theorem fillActiveChannel_revents (event : Events × C) :
    (s.fillActiveChannel event).revents = Function.update s.revents event.2 event.1 := rfl

@[simp] theorem fillActiveChannels_registered :
    (s.fillActiveChannels events).registered = s.registered := by
  unfold fillActiveChannels
  induction events generalizing s with
  | nil => rfl
  | cons event events ih => exact ih

@[simp] theorem fillActiveChannels_eventListSize :
    (s.fillActiveChannels events).eventListSize = s.eventListSize := by
  unfold fillActiveChannels
  induction events generalizing s with
  | nil => rfl
  | cons event events ih => exact ih

theorem fillActiveChannels_activeChannels (s : Polling C) (events : List (Events × C)) :
    (s.fillActiveChannels events).activeChannels = s.activeChannels ++ events.map Prod.snd := by
  unfold fillActiveChannels
  induction events generalizing s with
  | nil => exact (List.append_nil _).symm
  | cons event events ih =>
    rw [List.foldl_cons, ih, fillActiveChannel, List.append_assoc]
    rfl

/-- Where the events of a channel are the same in all of its entries, this is what it gets. -/
theorem fillActiveChannels_revents {f : C → Events} (hevents : ∀ event ∈ events, event.1 = f event.2)
    (hc : c ∈ events.map Prod.snd ∨ s.revents c = f c) :
    (s.fillActiveChannels events).revents c = f c := by
  unfold fillActiveChannels
  induction events generalizing s with
  | nil =>
    rcases hc with hc | hc
    · cases hc
    · exact hc
  | cons event events ih =>
    refine ih (fun e he => hevents e (List.mem_cons_of_mem _ he)) ?_
    by_cases hsame : c = event.2
    · right
      rw [hsame, fillActiveChannel_revents, Function.update_self]
      exact hevents event List.mem_cons_self
    · rw [fillActiveChannel_revents, Function.update_of_ne hsame]
      rcases hc with hc | hc
      · rcases List.mem_cons.mp hc with h | h
        · exact absurd h hsame
        · exact Or.inl h
      · exact Or.inr hc

theorem poll_registered : (s.poll answer).registered = s.registered := by
  unfold poll
  cases answer with
  | failed errno => rfl
  | ready events =>
    dsimp only
    split
    · split <;> exact fillActiveChannels_registered
    · rfl

theorem poll_eventListSize (s : Polling C) (events : List (Events × C)) :
    (s.poll (.ready events)).eventListSize =
      if 0 < events.length ∧ events.length = s.eventListSize then s.eventListSize * 2
      else s.eventListSize := by
  unfold poll
  dsimp only
  rw [fillActiveChannels_eventListSize]
  by_cases hpos : 0 < events.length
  · by_cases hfull : events.length = s.eventListSize
    · rw [if_pos hpos, if_pos hfull, if_pos ⟨hpos, hfull⟩]
    · rw [if_pos hpos, if_neg hfull, if_neg fun h => hfull h.2, fillActiveChannels_eventListSize]
  · rw [if_neg hpos, if_neg fun h => hpos h.1]

theorem poll_ready (s : Polling C) (events : List (Events × C)) (hactive : s.activeChannels = []) :
    (s.poll (.ready events)).activeChannels = events.map Prod.snd ∧
      (s.poll (.ready events)).revents = (s.fillActiveChannels events).revents := by
  have hfill := s.fillActiveChannels_activeChannels events
  rw [hactive, List.nil_append] at hfill
  unfold poll
  dsimp only
  split
  · split
    · exact ⟨hfill, rfl⟩
    · exact ⟨hfill, rfl⟩
  · rename_i hnone
    have hempty : events = [] := List.eq_nil_of_length_eq_zero (by omega)
    rw [hempty]
    exact ⟨hactive, rfl⟩

/-! ### Runs -/

theorem length_missed_le (a : PollCall C) : (s.missed fd c a).length ≤ 1 := by
  unfold missed
  split
  · split
    · exact Nat.le_refl 1
    · exact Nat.zero_le 1
  · exact Nat.zero_le 1

theorem step_channel {call : ChannelCall} (hagrees : s.registered.Agrees fd)
    (hfd : Function.Injective fd) (hstep : (machine fd).step s (.channel c call) = some s') :
    s'.registered.Agrees fd ∧ s'.eventListSize = s.eventListSize := by
  obtain ⟨registered, hcall, rfl⟩ := Option.map_eq_some_iff.mp hstep
  obtain ⟨t, ht, hthere⟩ := hagrees.step hfd (c, call)
  cases hcall.symm.trans ht
  exact ⟨hthere, rfl⟩

theorem step_agrees {a : PollCall C} (hagrees : s.registered.Agrees fd)
    (hfd : Function.Injective fd) (hstep : (machine fd).step s a = some s') :
    s'.registered.Agrees fd := by
  cases a with
  | channel c call => exact (step_channel hagrees hfd hstep).1
  | poll pending answer =>
    cases hstep
    rw [poll_registered]
    exact hagrees

theorem step_reports {a : PollCall C} (hagrees : s.registered.Agrees fd)
    (hfd : Function.Injective fd) (hstep : (machine fd).step s a = some s')
    (hanswered : Answered n s a s') : s.Reports fd a s' := by
  cases a with
  | channel c call => trivial
  | poll pending answer =>
    cases hstep
    cases answer with
    | failed errno => exact ⟨List.nodup_nil, fun _ h => nomatch h⟩
    | ready events =>
      obtain ⟨_, _, hnodup, hevents, _⟩ := (waits_iff hagrees hfd).mp hanswered.1
      obtain ⟨hactive, hrevents⟩ :=
        poll_ready { s with activeChannels := [] } events rfl
      rw [Reports, hactive, hrevents]
      refine ⟨hnodup, ?_⟩
      intro c hc
      obtain ⟨event, hevent, rfl⟩ := List.mem_map.mp hc
      exact ⟨fillActiveChannels_revents (fun e he => (hevents e he).1) (Or.inl hc),
        (hevents event hevent).2⟩

/-- A missed channel pays for a doubling. -/
theorem step_doubled {k : Nat} {a : PollCall C} (hagrees : s.registered.Agrees fd)
    (hfd : Function.Injective fd) (hn : n < 2 ^ 30) (hdoubled : Doubled n k s)
    (hstep : (machine fd).step s a = some s') (hanswered : Answered n s a s') :
    ∃ k', Doubled n k' s' ∧ k ≤ k' ∧ ∀ c, k + (s.missed fd c a).length ≤ k' := by
  cases a with
  | channel d call =>
    have hsame := (step_channel hagrees hfd hstep).2
    exact ⟨k, ⟨hsame.trans hdoubled.1, hdoubled.2⟩, Nat.le_refl k, fun _ => Nat.le_refl k⟩
  | poll pending answer =>
    cases hstep
    cases answer with
    | failed errno => exact ⟨k, hdoubled, Nat.le_refl k, fun _ => Nat.le_refl k⟩
    | ready events =>
      obtain ⟨hsize, hk⟩ := hdoubled
      have hgrows := poll_eventListSize { s with activeChannels := [] } events
      have hpos : 0 < 2 ^ (k + 4) := Nat.two_pow_pos _
      dsimp only at hgrows
      by_cases hfull : events.length = s.eventListSize
      · have hroom : 2 ^ k ≤ n / 16 := by
          have hle := hanswered.length_le
          rw [hfull, hsize, Nat.pow_add] at hle
          omega
        rw [if_pos ⟨by omega, hfull⟩] at hgrows
        refine ⟨k + 1, ⟨hgrows.trans ?_, Nat.lt_size.mpr hroom⟩, Nat.le_succ k, ?_⟩
        · rw [hsize, ← Nat.pow_succ, Nat.succ_eq_add_one, Nat.add_right_comm]
        · exact fun c => Nat.add_le_add_left (length_missed_le _) k
      · have hseen (c : C) : s.missed fd c (.poll pending (.ready events)) = [] := by
          obtain ⟨_, hle, _, _, hall⟩ := (waits_iff hagrees hfd).mp hanswered.1
          rw [Doubled.maxevents ⟨hsize, hk⟩ hn] at hle hall
          exact if_neg fun h => h.2 (hall (by omega) c h.1)
        rw [if_neg fun h => hfull h.2] at hgrows
        refine ⟨k, ⟨hgrows.trans hsize, hk⟩, Nat.le_refl k, fun c => ?_⟩
        rw [hseen c]
        exact Nat.le_refl k

theorem run_doubled (hfd : Function.Injective fd) (hn : n < 2 ^ 30) {as : List (PollCall C)}
    (hrun : (machine fd).run (initial fd) as = some s')
    (hall : (machine fd).EveryStep (Answered n) (initial fd) as)
    {f : Polling C → PollCall C → List Unit}
    (hf : ∀ s a, (∀ k k', k ≤ k' → (∀ c, k + (s.missed fd c a).length ≤ k') →
      k + (f s a).length ≤ k')) :
    ∃ k, Doubled n k s' ∧ ((machine fd).collect f (initial fd) as).length ≤ k := by
  have hpotential {k : Nat} {s : Polling C} (h : Doubled n k s) :
      Nat.size s.eventListSize = k + 5 := by
    rw [h.1, Nat.size_pow]
  have hstart : Doubled n 0 (initial fd) := ⟨rfl, Nat.zero_le _⟩
  have hstep (s : Polling C) (a : PollCall C) (s' : Polling C)
      (hs : s.registered.Agrees fd ∧ ∃ k, Doubled n k s) (hanswered : Answered n s a s')
      (hstep : (machine fd).step s a = some s') :
      (s'.registered.Agrees fd ∧ ∃ k, Doubled n k s') ∧
        Nat.size s.eventListSize + (f s a).length ≤ Nat.size s'.eventListSize := by
    obtain ⟨hagrees, k, hdoubled⟩ := hs
    obtain ⟨k', hdoubled', hle, hpays⟩ := step_doubled hagrees hfd hn hdoubled hstep hanswered
    have hpaid := hf s a k k' hle hpays
    rw [hpotential hdoubled, hpotential hdoubled']
    exact ⟨⟨step_agrees hagrees hfd hstep, k', hdoubled'⟩, by omega⟩
  obtain ⟨⟨_, k, hdoubled⟩, hle⟩ := Machine.EveryStep.collect_length_le
    (fun s => Nat.size s.eventListSize) hstep ⟨PollerState.initial_agrees fd, 0, hstart⟩ hall hrun
  rw [hpotential hstart, hpotential hdoubled] at hle
  exact ⟨k, hdoubled, by omega⟩

/-- Whatever the kernel chooses to report and whatever happens to the channels between the polls: the active channels are different ones, registered and ready, each with the events it waits for. With at most `n` descriptors ready at a time the array stays in proportion to them, and over the whole run a channel that is ready is passed over at most `Nat.size (n / 16)` times. -/
theorem polls_report (hfd : Function.Injective fd) (hn : n < 2 ^ 30) {as : List (PollCall C)}
    (hrun : (machine fd).run (initial fd) as = some s')
    (hall : (machine fd).EveryStep (Answered n) (initial fd) as) :
    (machine fd).EveryStep (Reports fd) (initial fd) as ∧
      s'.eventListSize ≤ max 16 (2 * n) ∧
      ∀ c, ((machine fd).collect (missed fd c) (initial fd) as).length ≤ Nat.size (n / 16) := by
  refine ⟨?_, ?_, ?_⟩
  · refine hall.imp (I := fun s => s.registered.Agrees fd) ?_ (PollerState.initial_agrees fd)
    intro s a s' _ hagrees hstep hanswered
    exact ⟨step_reports hagrees hfd hstep hanswered, step_agrees hagrees hfd hstep⟩
  · obtain ⟨k, hdoubled, _⟩ := run_doubled hfd hn hrun hall (f := fun _ _ => [])
      fun _ _ _ _ hle _ => hle
    exact hdoubled.le
  · intro c
    obtain ⟨k, hdoubled, hmissed⟩ := run_doubled hfd hn hrun hall (f := missed fd c)
      fun _ _ _ _ _ hpays => hpays c
    exact Nat.le_trans hmissed hdoubled.2

/-- The answers of a run, checked by the channels they name. -/
def Checked (fd : C → Fd) (s : Polling C) (a : PollCall C) (_ : Polling C) : Prop :=
  match a with
  | .poll pending (.ready events) => s.Names fd pending events
  | _ => True

instance [Fintype C] (a : PollCall C) : Decidable (s.Checked fd a s') :=
  match a with
  | .poll _ (.ready _) => inferInstanceAs (Decidable (Names _ _ _ _))
  | .poll _ (.failed _) => .isTrue trivial
  | .channel _ _ => .isTrue trivial

theorem everyStep_answered [Fintype C] (hfd : Function.Injective fd) {as : List (PollCall C)}
    (hall : (machine fd).EveryStep (Checked fd) (initial fd) as) :
    (machine fd).EveryStep (Answered (Fintype.card C)) (initial fd) as := by
  refine hall.imp (I := fun s => s.registered.Agrees fd) ?_ (PollerState.initial_agrees fd)
  intro s a s' _ hagrees hstep hchecked
  refine ⟨?_, step_agrees hagrees hfd hstep⟩
  cases a with
  | channel c call => trivial
  | poll pending answer =>
    refine ⟨?_, fun fds hnodup hready => ready_length_le hagrees hnodup hready⟩
    cases answer with
    | failed errno => trivial
    | ready events => exact (waits_iff hagrees hfd).mpr hchecked

/-- Seventeen channels are ready: the first `poll` has room for sixteen of them, the second one for all. -/
theorem polls_report_seventeen :
    let fd : Fin 17 → Fd := fun c => c + 5
    let pending : Fd → Events := fun _ => EPOLLIN
    let all : List (Events × Fin 17) := (List.finRange 17).map fun c => (EPOLLIN, c)
    let as : List (PollCall (Fin 17)) := (List.finRange 17).map (.channel · .enableReading) ++
      [.poll pending (.ready all.dropLast), .poll pending (.ready all)]
    ∃ s', (machine fd).run (initial fd) as = some s' ∧
      ((machine fd).collect (missed fd 16) (initial fd) as).length = 1 ∧
      (machine fd).EveryStep (Reports fd) (initial fd) as ∧
      s'.eventListSize ≤ max 16 (2 * 17) ∧
      ∀ c, ((machine fd).collect (missed fd c) (initial fd) as).length ≤ Nat.size (17 / 16) := by
  intro fd pending all as
  have hfd : Function.Injective fd := by
    intro c d h
    exact Fin.ext (Nat.add_right_cancel h)
  have hruns : ((machine fd).run (initial fd) as).isSome ∧
      (machine fd).EveryStep (Checked fd) (initial fd) as ∧
      ((machine fd).collect (missed fd 16) (initial fd) as).length = 1 := by decide +kernel
  obtain ⟨hsome, hchecked, hmissed⟩ := hruns
  obtain ⟨s', hrun⟩ := Option.isSome_iff_exists.mp hsome
  exact ⟨s', hrun, hmissed, polls_report hfd (by decide) hrun (everyStep_answered hfd hchecked)⟩

end Polling

end LTMuduo
