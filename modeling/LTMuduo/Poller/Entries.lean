import LTMuduo.Poller.Code
import LTMuduo.Lib.Keyed

/-!
# What a call leaves in the tables of a poller

For loops whose descriptors come and go: an entry that a table holds after a call on a channel is either the entry of that channel or was there before.
-/

namespace LTMuduo

variable {C : Type*} {p : EPollPoller C} {c e : C} {ch : Channel} {fd : Fd} {ev : Events}

namespace EPollPoller

theorem update_channels (operation : CtlOp) : (p.update operation c ch).channels = p.channels := by
  unfold update
  split
  · rfl
  · rfl

theorem update_kernel {operation : CtlOp}
    (h : (p.update operation c ch).kernel fd = some (ev, e)) :
    (fd = ch.fd ∧ e = c ∧ operation ≠ .EPOLL_CTL_DEL) ∨
      (p.kernel fd = some (ev, e) ∧ (operation = .EPOLL_CTL_DEL → fd ≠ ch.fd)) := by
  have hput (hadd : operation ≠ .EPOLL_CTL_DEL)
      (hentry : Function.update p.kernel ch.fd (some (ch.events, c)) fd = some (ev, e)) :
      (fd = ch.fd ∧ e = c ∧ operation ≠ .EPOLL_CTL_DEL) ∨
        (p.kernel fd = some (ev, e) ∧ (operation = .EPOLL_CTL_DEL → fd ≠ ch.fd)) := by
    rcases Function.update_eq_some hentry with ⟨hfd, hnew⟩ | ⟨_, hold⟩
    · cases hnew
      exact Or.inl ⟨hfd, rfl, hadd⟩
    · exact Or.inr ⟨hold, fun hdel => absurd hdel hadd⟩
  unfold update epollCtl at h
  cases hold : p.kernel ch.fd with
  | none =>
    cases operation with
    | EPOLL_CTL_ADD =>
      simp only [hold] at h
      exact hput nofun h
    | EPOLL_CTL_MOD =>
      simp only [hold] at h
      exact Or.inr ⟨h, nofun⟩
    | EPOLL_CTL_DEL =>
      simp only [hold] at h
      refine Or.inr ⟨h, fun _ => ?_⟩
      intro hfd
      rw [hfd, hold] at h
      cases h
  | some _ =>
    cases operation with
    | EPOLL_CTL_ADD =>
      simp only [hold] at h
      exact Or.inr ⟨h, nofun⟩
    | EPOLL_CTL_MOD =>
      simp only [hold] at h
      exact hput nofun h
    | EPOLL_CTL_DEL =>
      simp only [hold] at h
      rcases Function.update_eq_some h with ⟨_, hnone⟩ | ⟨hfd, hentry⟩
      · cases hnone
      · exact Or.inr ⟨hentry, fun _ => hfd⟩

end EPollPoller

namespace Channel

variable {events : Events}

theorem setEvents_fd : (ch.setEvents p c events).2.fd = ch.fd := by
  unfold setEvents EPollPoller.updateChannel
  split
  · rfl
  · split <;> rfl

theorem setEvents_channels (h : (ch.setEvents p c events).1.channels fd = some e) :
    (fd = ch.fd ∧ e = c) ∨ p.channels fd = some e := by
  unfold setEvents EPollPoller.updateChannel at h
  split at h
  · rw [EPollPoller.update_channels] at h
    split at h
    · rcases Function.update_eq_some h with ⟨hfd, hnew⟩ | ⟨_, hold⟩
      · cases hnew
        exact Or.inl ⟨hfd, rfl⟩
      · exact Or.inr hold
    · exact Or.inr h
  · split at h
    · rw [EPollPoller.update_channels] at h
      exact Or.inr h
    · rw [EPollPoller.update_channels] at h
      exact Or.inr h

theorem setEvents_kernel (h : (ch.setEvents p c events).1.kernel fd = some (ev, e)) :
    (fd = ch.fd ∧ e = c ∨ p.kernel fd = some (ev, e)) ∧
      (fd = ch.fd → (ch.setEvents p c events).2.index = .kAdded) := by
  unfold setEvents EPollPoller.updateChannel at h ⊢
  split at h
  · rename_i hindex
    rw [if_pos hindex]
    refine ⟨?_, fun _ => rfl⟩
    rcases EPollPoller.update_kernel h with ⟨hfd, he, _⟩ | ⟨hold, _⟩
    · exact Or.inl ⟨hfd, he⟩
    · right
      split at hold
      · exact hold
      · exact hold
  · rename_i hindex
    rw [if_neg hindex]
    split at h
    · rename_i hnone
      rw [if_pos hnone]
      rcases EPollPoller.update_kernel h with ⟨_, _, hdel⟩ | ⟨hold, hfd⟩
      · exact absurd rfl hdel
      · exact ⟨Or.inr hold, fun hsame => absurd hsame (hfd rfl)⟩
    · rename_i hnone
      rw [if_neg hnone]
      have hadded : ch.index = .kAdded := by
        cases hi : ch.index with
        | kAdded => rfl
        | kNew => exact absurd (Or.inl hi) hindex
        | kDeleted => exact absurd (Or.inr hi) hindex
      refine ⟨?_, fun _ => hadded⟩
      rcases EPollPoller.update_kernel h with ⟨hfd, he, _⟩ | ⟨hold, _⟩
      · exact Or.inl ⟨hfd, he⟩
      · exact Or.inr hold

theorem remove_channels (h : (ch.remove p c).1.channels fd = some e) :
    p.channels fd = some e ∧ fd ≠ ch.fd := by
  unfold remove EPollPoller.removeChannel at h
  have hchannels : Function.update p.channels ch.fd none fd = some e := by
    split at h
    · rwa [EPollPoller.update_channels] at h
    · exact h
  rcases Function.update_eq_some hchannels with ⟨_, hnone⟩ | ⟨hfd, hold⟩
  · cases hnone
  · exact ⟨hold, hfd⟩

theorem remove_kernel (h : (ch.remove p c).1.kernel fd = some (ev, e)) :
    p.kernel fd = some (ev, e) ∧ (ch.index = .kAdded → fd ≠ ch.fd) := by
  unfold remove EPollPoller.removeChannel at h
  split at h
  · rcases EPollPoller.update_kernel h with ⟨_, _, hdel⟩ | ⟨hold, hfd⟩
    · exact absurd rfl hdel
    · exact ⟨hold, fun _ => hfd rfl⟩
  · rename_i hindex
    exact ⟨h, fun hadded => absurd hadded hindex⟩

end Channel

end LTMuduo
