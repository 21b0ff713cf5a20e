import LTMuduo.Poller.Bookkeeping

/-!
# `disableAll` and the index of a channel

`updateChannel` looks at the mask only when the index is `kAdded`. For a channel that is new or deleted, `disableAll` therefore adds its descriptor with the empty mask, and a second `disableAll` takes back what the first one did.
-/

namespace LTMuduo

theorem Channel.disableAll_index {C : Type*} (p : EPollPoller C) (c : C) (ch : Channel) :
    (ch.disableAll p c).2.index = if ch.index = .kAdded then .kDeleted else .kAdded := by
  cases hindex : ch.index with
  | kAdded => simp [disableAll, setEvents, EPollPoller.updateChannel, hindex, isNoneEvent]
  | _ => simp [disableAll, setEvents, EPollPoller.updateChannel, hindex]

namespace PollerState

variable {C : Type*} [DecidableEq C] {fd : C → Fd} {s : PollerState C} {c : C}

def disableAll (s : PollerState C) (c : C) : PollerState C :=
  s.put c ((s.channel c).disableAll s.poller c)

/-- After `disableAll` the descriptor is in no interest set, and calling it again changes nothing. -/
structure DisabledForGood (s : PollerState C) (fd : C → Fd) (c : C) : Prop where
  out : (s.disableAll c).poller.kernel (fd c) = none
  index : (((s.disableAll c).disableAll c).channel c).index = ((s.disableAll c).channel c).index
  channels : ((s.disableAll c).disableAll c).poller.channels = (s.disableAll c).poller.channels
  kernel : ((s.disableAll c).disableAll c).poller.kernel = (s.disableAll c).poller.kernel

theorem agrees_of_reachable (hfd : Function.Injective fd) (h : (machine fd).Reachable s) :
    s.Agrees fd := by
  refine h.invariant (P := fun s => s.Agrees fd) ?_ ?_
  · intro s hinit
    rw [show s = initial fd from hinit]
    exact initial_agrees fd
  · intro s call s' _ _ hstep hagrees
    obtain ⟨t, ht, hagrees'⟩ := hagrees.step hfd call
    rw [hstep] at ht
    cases ht
    exact hagrees'

theorem disableAll_index (s : PollerState C) (c : C) :
    ((s.disableAll c).channel c).index =
      if (s.channel c).index = .kAdded then .kDeleted else .kAdded := by
  have hchannel : (s.disableAll c).channel c = ((s.channel c).disableAll s.poller c).2 :=
    Function.update_self _ _ _
  rw [hchannel]
  exact Channel.disableAll_index _ _ _

theorem Agrees.disableAll (h : s.Agrees fd) (hfd : Function.Injective fd) :
    (s.disableAll c).Agrees fd := h.setEvents hfd _

theorem Agrees.disableAll_kernel (h : s.Agrees fd) (hfd : Function.Injective fd) :
    (s.disableAll c).poller.kernel (fd c) = none ↔ (s.channel c).index = .kAdded := by
  have hentry := (h.disableAll hfd (c := c)).kernel.lookup c
  rw [hentry, Channel.kernelEntry, disableAll_index]
  by_cases hindex : (s.channel c).index = .kAdded
  · simp [hindex]
  · simp [hindex]

/-- In every reachable state `disableAll` takes its channel out of the interest set exactly when the channel was added, and a second call changes the index and puts the entry in or out once more. -/
theorem disableAll_not_for_good (hfd : Function.Injective fd) (h : (machine fd).Reachable s)
    (c : C) :
    ¬ s.DisabledForGood fd c ∧
      ((s.disableAll c).poller.kernel (fd c) = none ↔ (s.channel c).index = .kAdded) ∧
      (((s.disableAll c).disableAll c).channel c).index ≠ ((s.disableAll c).channel c).index ∧
      ((s.disableAll c).poller.kernel (fd c) = none ↔
        ((s.disableAll c).disableAll c).poller.kernel (fd c) ≠ none) := by
  have hagrees := agrees_of_reachable hfd h
  have hagrees' := hagrees.disableAll hfd (c := c)
  have hindex := disableAll_index s c
  have htwice : (((s.disableAll c).disableAll c).channel c).index ≠
      ((s.disableAll c).channel c).index := by
    rw [disableAll_index, hindex]
    split
    · decide
    · decide
  refine ⟨fun hgood => htwice hgood.index, hagrees.disableAll_kernel hfd, htwice, ?_⟩
  rw [ne_eq, hagrees.disableAll_kernel hfd, hagrees'.disableAll_kernel hfd, hindex]
  split
  · rename_i hadded
    exact iff_of_true hadded (by decide)
  · rename_i hadded
    exact iff_of_false hadded (by decide)

/-- A channel that has been enabled. -/
theorem disableAll_not_for_good_added :
    let s := (initial fun _ : Unit => 7).put () ((Channel.new 7).enableReading .new ())
    ¬ s.DisabledForGood (fun _ => 7) () ∧
      ((s.disableAll ()).poller.kernel 7 = none ↔ (s.channel ()).index = .kAdded) := by
  intro s
  have hfd : Function.Injective fun _ : Unit => (7 : Fd) := fun _ _ _ => rfl
  have hreach : (machine fun _ : Unit => (7 : Fd)).Reachable s :=
    .step (a := ((), .enableReading)) (.init rfl) trivial rfl
  obtain ⟨hnot, hout, _⟩ := disableAll_not_for_good hfd hreach ()
  exact ⟨hnot, hout⟩

/-- The second of two calls adds the descriptor with the empty mask. -/
theorem disableAll_adds_again :
    ¬ ∀ (fd : Unit → Fd), Function.Injective fd → ∀ s, (machine fd).Reachable s →
      ∀ c, s.DisabledForGood fd c := by
  intro hclaim
  let calls : List (Unit × ChannelCall) := [((), .enableReading), ((), .disableAll)]
  have hend : ((machine fun _ => 7).run (initial fun _ => 7) calls).map
      (fun s => ((s.disableAll ()).poller.kernel 7)) = some (some (0, ())) := by decide
  obtain ⟨s, hrun, hs⟩ := Option.map_eq_some_iff.mp hend
  have hreach : (machine fun _ : Unit => (7 : Fd)).Reachable s := Machine.Reachable.run (.init rfl) hrun
  have hout := (hclaim (fun _ => 7) (fun _ _ _ => rfl) s hreach ()).out
  rw [hs] at hout
  cases hout

end PollerState

end LTMuduo
