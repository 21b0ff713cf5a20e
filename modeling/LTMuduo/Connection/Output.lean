import LTMuduo.Connection.LoopThread
import LTMuduo.Lib.After

/-!
# The output of a connection on its loop thread

Two results about every run of one connection on its loop thread, from the constructor on. What `::write` has accepted, with the output buffer behind it, is the concatenation of the accepted payloads; these are the intended ones as long as no log line changes the `errno` of a failed `::write`. The half-close is issued at most once, behind all of them, and it is not forgotten.
-/

namespace LTMuduo

/-! ### The stream -/

namespace Conn

variable {C : Type*} {w : Conn C}

/-- What a call would add to the stream if the `errno` of the `::write` itself decided: the payload of a `send` in the state `kConnected`, unless its direct `::write` fails with `EPIPE` or `ECONNRESET`. -/
def intended (w : Conn C) : LoopCall C → List Byte
  | .send buf r =>
    if w.conn.state = .kConnected ∧ ¬ (w.writesDirectly = true ∧ r.Broken) then buf else []
  | _ => []

/-- In a direct write that fails, the log line leaves `errno` as it was, as far as `EPIPE` and `ECONNRESET` are concerned. -/
def KeepsErrno (w : Conn C) : LoopCall C → Prop
  | .send buf r => w.conn.state = .kConnected ∧ w.writesDirectly = true ∧ buf ≠ [] → r.KeepsErrno
  | _ => True

instance decidableKeepsErrno (w : Conn C) : (call : LoopCall C) → Decidable (w.KeepsErrno call)
  | .send _ _ => inferInstanceAs (Decidable (_ → _))
  | .connectEstablished | .shutdown | .retrieveInput _ | .handleRead _ | .handleWrite _
  | .handleClose | .handleError | .connectDestroyed | .resume | .otherChannels _ => .isTrue trivial

theorem accepted_eq_intended_iff (call : LoopCall C) :
    w.accepted call = w.intended call ↔ w.KeepsErrno call := by
  cases call with
  | send buf r =>
    simp only [accepted, intended, KeepsErrno, Dropped, WriteResult.keepsErrno_iff]
    by_cases hconnected : w.conn.state = .kConnected
    · by_cases hdirect : w.writesDirectly = true
      · by_cases hfaults : r.Faults <;> by_cases hbroken : r.Broken <;>
          simp [hconnected, hdirect, hfaults, hbroken, eq_comm]
      · simp [hconnected, hdirect]
    · simp [hconnected]
  | _ => exact iff_of_true rfl trivial

end Conn

namespace LoopThread

variable {C : Type*} {c : C} {s s' : LoopThread C}

/-- No byte is lost, repeated or reordered on its way through the direct write and the output buffer, in any state of the run, and until the connection is disconnected the write interest says whether the buffer is empty. Which payloads are left out is decided by `errno` as the log line leaves it, so the account in terms of the `errno` of `::write` is right if and only if no log line changes the answer. -/
theorem stream_integrity_iff {calls : List (LoopCall C)} (hfresh : s.Fresh)
    (hrun : (machine c).run s calls = some s') :
    (∀ before t, before <+: calls → (machine c).run s before = some t →
      t.world.wire ++ t.world.pending =
          (machine c).collect (fun u call => u.world.intended call) s before ∧
        (t.world.conn.state ≠ .kDisconnected →
          (t.world.isWriting = true ↔ t.world.pending ≠ []))) ↔
      ((machine c).restrict fun t call => t.world.KeepsErrno call).run s calls = some s' := by
  have hcoupled (before : List (LoopCall C)) (t : LoopThread C)
      (hrun : (machine c).run s before = some t) (hstate : t.world.conn.state ≠ .kDisconnected) :
      t.world.isWriting = true ↔ t.world.pending ≠ [] := (run_settled hfresh hrun).coupled hstate
  rw [← Machine.everyStep_iff_restrict (I := fun t => t.world.Settled)
    (Q := fun t call t' => t'.world.wire ++ t'.world.pending =
      t.world.wire ++ t.world.pending ++ t.world.intended call) ?_ ?_ hfresh.settled hrun,
    ← Machine.everyStep_collect_iff fun t : LoopThread C => t.world.wire ++ t.world.pending,
    hfresh.stream]
  · constructor
    · exact fun hall before t hbefore ht => (hall before t hbefore ht).1
    · exact fun hall before t hbefore ht => ⟨hall before t hbefore ht, hcoupled before t ht⟩
  · intro t call t' hsettled hstep
    rw [(step_change hsettled hstep).stream, List.append_cancel_left_eq]
    exact Conn.accepted_eq_intended_iff call
  · intro t call t' hsettled _ hstep
    exact (step_change hsettled hstep).settled hsettled

/-- A payload dropped, a direct write in part, a send onto the backlog, a full socket and a drain in part. -/
theorem stream_integrity_iff_backlog :
    let s : LoopThread Unit :=
      ⟨⟨.new 7 true false 65536, ⟨fun _ => none, fun _ => none, []⟩, []⟩, none⟩
    let calls : List (LoopCall Unit) :=
      [.connectEstablished, .send [9] (.failed .EPIPE .EPIPE), .send [1, 2, 3] (.accepted 1),
        .send [4] (.accepted 1), .handleWrite (.failed .EWOULDBLOCK (.other 2)),
        .handleWrite (.accepted 2), .shutdown, .send [5] (.accepted 1)]
    ∃ s', (machine ()).run s calls = some s' ∧
      s'.world.wire ++ s'.world.pending = [1, 2, 3, 4] := by
  intro s calls
  have hfresh : s.Fresh := ⟨7, true, false, 65536, _, rfl, rfl⟩
  have hruns : (((machine ()).restrict fun t call => t.world.KeepsErrno call).run s calls).isSome := by
    decide +kernel
  obtain ⟨s', hkept⟩ := Option.isSome_iff_exists.mp hruns
  have hrun := Machine.run_of_restrict hkept
  have hall := (stream_integrity_iff hfresh hrun).mpr hkept
  exact ⟨s', hrun, (hall calls s' (List.prefix_refl _) hrun).1.trans (by decide +kernel)⟩

/-- The direct write fails with `EPIPE`, and the log line, which finds no time zone file, leaves `ENOENT` in `errno`: the payload is kept. -/
theorem errno_lost_to_log_line :
    let s : LoopThread Unit :=
      ⟨⟨.new 7 true false 65536, ⟨fun _ => none, fun _ => none, []⟩, []⟩, none⟩
    let calls : List (LoopCall Unit) :=
      [.connectEstablished, .send [1, 2, 3] (.failed .EPIPE (.other 2))]
    s.Fresh ∧ ∃ s', (machine ()).run s calls = some s' ∧
      s'.world.wire ++ s'.world.pending ≠
        (machine ()).collect (fun t call => t.world.intended call) s calls := by
  intro s calls
  refine ⟨⟨7, true, false, 65536, _, rfl, rfl⟩, ?_⟩
  have hend : ((machine ()).run s calls).map (fun t => t.world.wire ++ t.world.pending) =
      some [1, 2, 3] := by decide +kernel
  obtain ⟨s', hrun, hs'⟩ := Option.map_eq_some_iff.mp hend
  refine ⟨s', hrun, ?_⟩
  rw [hs']
  decide +kernel

end LoopThread

/-! ### The half-close -/

namespace Conn

variable {C : Type*} {w w' : Conn C} {call : LoopCall C}

/-- `::shutdown(SHUT_WR)` has been issued. -/
def HalfClosed (w : Conn C) : Prop := .shutdownWrite ∈ w.effects

/-- Behind the half-close there is neither a second one nor a `::write`. -/
def Ordered (effects : List Effect) : Prop :=
  effects.After .shutdownWrite fun f => f ≠ .shutdownWrite ∧ ¬ f.IsWrite

theorem Quiet.not_mem {effects : List Effect} (h : Quiet effects) : .shutdownWrite ∉ effects :=
  fun hmem => (h _ hmem).1 rfl

/-- The invariant of the half-close. -/
structure Closing (w : Conn C) : Prop where
  settled : w.Settled
  early : w.HalfClosed → w.conn.state = .kDisconnecting ∨ w.conn.state = .kDisconnected
  empty : w.HalfClosed → w.pending = []
  issued : w.conn.state = .kDisconnecting → w.pending = [] → w.HalfClosed
  ordered : Ordered w.effects

theorem Closing.not_halfClosed (h : w.Closing)
    (hstate : w.conn.state = .kConnecting ∨ w.conn.state = .kConnected) : ¬ w.HalfClosed := by
  intro hclosed
  have hearly := h.early hclosed
  rcases hstate with hstate | hstate <;> rw [hstate] at hearly <;> simp at hearly

theorem halfClosed_append_quiet {quiet : List Effect} (hquiet : Quiet quiet)
    (heffects : w'.effects = w.effects ++ quiet) : w'.HalfClosed ↔ w.HalfClosed := by
  rw [HalfClosed, heffects, List.mem_append]
  exact or_iff_left hquiet.not_mem

theorem Change.closing (hclosing : w.Closing) (h : w.Change w' call) : w'.Closing := by
  have hsettled := h.settled hclosing.settled
  cases h with
  | quiet _ _ quiet hquiet heffects hpending _ hstate =>
    have hsame := halfClosed_append_quiet hquiet heffects
    have hordered := hclosing.ordered.append hquiet
    rcases hstate with hstate | ⟨hbefore, hafter⟩
    · refine ⟨hsettled, ?_, ?_, ?_, heffects ▸ hordered⟩
      · rw [hsame, hstate]
        exact hclosing.early
      · rw [hsame, hpending]
        exact hclosing.empty
      · rw [hsame, hpending, hstate]
        exact hclosing.issued
    · have hopen : ¬ w'.HalfClosed := by
        rw [hsame]
        exact hclosing.not_halfClosed (Or.inl hbefore)
      refine ⟨hsettled, (absurd · hopen), (absurd · hopen), ?_, heffects ▸ hordered⟩
      intro hdisconnecting
      rw [hafter] at hdisconnecting
      cases hdisconnecting
  | sent buf r quiet hquiet hconnected hstate heffects =>
    have hopen := hclosing.not_halfClosed (Or.inr hconnected)
    have hopen' : ¬ w'.HalfClosed := by
      rw [HalfClosed, heffects]
      simp [hquiet.not_mem, show .shutdownWrite ∉ w.effects from hopen]
    refine ⟨hsettled, (absurd · hopen'), (absurd · hopen'), ?_, ?_⟩
    · intro hdisconnecting
      rw [hstate] at hdisconnecting
      cases hdisconnecting
    · exact .of_absent hopen'
  | drained r quiet hquiet hwriting hstate heffects hcoupled =>
    have hconnection : w.conn.state ≠ .kDisconnected := by
      intro hdisconnected
      rw [hclosing.settled.not_writing hdisconnected] at hwriting
      exact Bool.false_ne_true hwriting
    have hnonempty : w.pending ≠ [] := (hclosing.settled.coupled hconnection).mp hwriting
    have hopen : ¬ w.HalfClosed := fun hclosed => hnonempty (hclosing.empty hclosed)
    have hbase : .shutdownWrite ∉ w.effects ++ .handleWrite (r.taken w.pending) r :: quiet := by
      simp [hquiet.not_mem, show .shutdownWrite ∉ w.effects from hopen]
    rw [← List.append_assoc] at heffects
    have hclosed : w'.HalfClosed ↔ w.conn.state = .kDisconnecting ∧ w'.pending = [] := by
      rw [HalfClosed, heffects, List.mem_append, or_iff_right hbase]
      split <;> simp [*]
    refine ⟨hsettled, ?_, fun h => (hclosed.mp h).2, ?_, ?_⟩
    · intro h
      exact Or.inl (hstate.trans (hclosed.mp h).1)
    · intro hdisconnecting hempty
      exact hclosed.mpr ⟨hstate ▸ hdisconnecting, hempty⟩
    · rw [heffects]
      exact .of_not_mem hbase (by split <;> simp)
  | shutdown hconnected hstate heffects hpending =>
    have hopen := hclosing.not_halfClosed (Or.inr hconnected)
    have hcoupled : w.Coupled := hclosing.settled.coupled (by rw [hconnected]; decide)
    have hclosed : w'.HalfClosed ↔ w.pending = [] := by
      unfold HalfClosed Coupled at *
      rw [heffects, List.mem_append, or_iff_right hopen]
      by_cases hwriting : w.isWriting = true
      · simp [hwriting, hcoupled.mp hwriting]
      · have hempty : w.pending = [] := by
          rw [hcoupled] at hwriting
          exact not_not.mp hwriting
        simp [hwriting, hempty]
    refine ⟨hsettled, fun _ => Or.inl hstate, ?_, ?_, ?_⟩
    · rw [hclosed, hpending]
      exact id
    · rw [hclosed, hpending]
      exact fun _ => id
    · rw [heffects]
      exact .of_not_mem hopen (by split <;> simp)
  | disconnected _ _ quiet hquiet heffects hpending _ hstate =>
    have hsame := halfClosed_append_quiet hquiet heffects
    refine ⟨hsettled, fun _ => Or.inr hstate, ?_, ?_, heffects ▸ hclosing.ordered.append hquiet⟩
    · rw [hsame, hpending]
      exact hclosing.empty
    · intro hdisconnecting
      rw [hstate] at hdisconnecting
      cases hdisconnecting

/-- The connection enters the half-close only by `shutdown` in the state `kConnected`. -/
theorem Change.enters (h : w.Change w' call)
    (hbefore : w.conn.state ≠ .kDisconnecting ∧ ¬ w.HalfClosed)
    (hafter : w'.conn.state = .kDisconnecting ∨ w'.HalfClosed) :
    call = .shutdown ∧ w.conn.state = .kConnected := by
  cases h with
  | quiet _ _ quiet hquiet heffects _ _ hstate =>
    rw [halfClosed_append_quiet hquiet heffects] at hafter
    rcases hafter with hafter | hafter
    · rcases hstate with hstate | ⟨_, hconnected⟩
      · exact absurd (hstate ▸ hafter) hbefore.1
      · rw [hconnected] at hafter
        cases hafter
    · exact absurd hafter hbefore.2
  | sent buf r quiet hquiet hconnected hstate heffects =>
    have hopen : .shutdownWrite ∉ w.effects := hbefore.2
    rw [HalfClosed, hstate, heffects] at hafter
    simp [hquiet.not_mem, hopen] at hafter
  | drained r quiet hquiet _ hstate heffects =>
    have hopen : .shutdownWrite ∉ w.effects := hbefore.2
    rw [HalfClosed, hstate, heffects] at hafter
    simp [hquiet.not_mem, hopen, hbefore.1] at hafter
  | shutdown hconnected => exact ⟨rfl, hconnected⟩
  | disconnected _ _ quiet hquiet heffects _ _ hstate =>
    rw [halfClosed_append_quiet hquiet heffects, hstate] at hafter
    rcases hafter with hafter | hafter
    · cases hafter
    · exact absurd hafter hbefore.2

end Conn

namespace LoopThread

variable {C : Type*} {c : C} {s s' : LoopThread C}

theorem Fresh.closing (hfresh : s.Fresh) : s.world.Closing := by
  have hsettled := hfresh.settled
  obtain ⟨sockfd, writeComplete, highWater, mark, poller, hworld, _⟩ := hfresh
  rw [hworld] at hsettled ⊢
  have hopen : ¬ (Conn.mk (.new sockfd writeComplete highWater mark) poller []).HalfClosed :=
    List.not_mem_nil
  exact ⟨hsettled, (absurd · hopen), (absurd · hopen), StateE.noConfusion, .of_absent hopen⟩

theorem run_closing {calls : List (LoopCall C)} (hfresh : s.Fresh)
    (hrun : (machine c).run s calls = some s') : s'.world.Closing :=
  Machine.run_preserves (P := fun t : LoopThread C => t.world.Closing)
    (fun _ _ _ _ h hstep => (step_change h.settled hstep).closing h) hfresh.closing hrun

/-- The half-close is issued at most once and no `::write` follows it. It is issued after `shutdown` was called in the state `kConnected`, with all the accepted payloads on the socket, and in the state `kDisconnecting` as soon as the output buffer is empty. -/
theorem graceful_half_close {calls : List (LoopCall C)} (hfresh : s.Fresh)
    (hrun : (machine c).run s calls = some s') :
    Conn.Ordered s'.world.effects ∧
      (s'.world.HalfClosed →
        s'.world.pending = [] ∧
        s'.world.wire = (machine c).collect (fun t call => t.world.accepted call) s calls ∧
        ∃ before after t, calls = before ++ .shutdown :: after ∧
          (machine c).run s before = some t ∧ t.world.conn.state = .kConnected ∧
          ¬ t.world.HalfClosed) ∧
      (s'.world.conn.state = .kDisconnecting →
        (s'.world.HalfClosed ↔ s'.world.pending = [])) := by
  have hclosing := run_closing hfresh hrun
  refine ⟨hclosing.ordered, ?_, fun h => ⟨hclosing.empty, hclosing.issued h⟩⟩
  intro hclosed
  have hempty := hclosing.empty hclosed
  have hstream := run_stream hfresh hrun
  rw [hempty, List.append_nil] at hstream
  refine ⟨hempty, hstream, ?_⟩
  have hstart : ¬ (s.world.conn.state = .kDisconnecting ∨ s.world.HalfClosed) := by
    obtain ⟨sockfd, writeComplete, highWater, mark, poller, hworld, _⟩ := hfresh
    rw [hworld]
    intro h
    rcases h with h | h
    · cases h
    · cases h
  obtain ⟨before, call, after, t, t', rfl, hbefore, hstep, hopen, hentered⟩ :=
    Machine.run_crossing (fun t : LoopThread C => t.world.conn.state = .kDisconnecting ∨
      t.world.HalfClosed) hstart (Or.inr hclosed) hrun
  have hthere := run_closing hfresh hbefore
  obtain ⟨rfl, hconnected⟩ :=
    (step_change hthere.settled hstep).enters (not_or.mp hopen) hentered
  exact ⟨before, after, t, rfl, hbefore, hconnected, (not_or.mp hopen).2⟩

/-- A `shutdown` with bytes in the buffer: the drain half-closes. -/
theorem graceful_half_close_backlog :
    let s : LoopThread Unit :=
      ⟨⟨.new 7 true false 65536, ⟨fun _ => none, fun _ => none, []⟩, []⟩, none⟩
    let calls : List (LoopCall Unit) :=
      [.connectEstablished, .send [1, 2, 3] (.accepted 1), .shutdown, .handleWrite (.accepted 2)]
    ∃ s', (machine ()).run s calls = some s' ∧ s'.world.HalfClosed ∧
      s'.world.wire = [1, 2, 3] := by
  intro s calls
  have hfresh : s.Fresh := ⟨7, true, false, 65536, _, rfl, rfl⟩
  have hend : ((machine ()).run s calls).map (fun t => (t.world.conn.state, t.world.pending)) =
      some (.kDisconnecting, []) := by decide +kernel
  obtain ⟨s', hrun, hs'⟩ := Option.map_eq_some_iff.mp hend
  obtain ⟨hstate, hempty⟩ := Prod.mk.inj hs'
  obtain ⟨_, hissued, hforgotten⟩ := graceful_half_close hfresh hrun
  have hclosed := (hforgotten hstate).mpr hempty
  obtain ⟨_, hwire, _⟩ := hissued hclosed
  exact ⟨s', hrun, hclosed, hwire.trans (by decide +kernel)⟩

end LoopThread

end LTMuduo
