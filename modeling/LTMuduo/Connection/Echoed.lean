import LTMuduo.Connection.EchoServer

/-!
# The echo comes back

A client of the echo server that goes on reading gets its first message back, and then the end of the stream, unless the connection is disconnected before. The message is served in one `handleRead`; what the direct `::write` leaves over is drained by the `handleWrite`s, and the one that empties the output buffer half-closes.
-/

namespace LTMuduo

namespace EchoServer

open Conn

variable {C : Type*} {c : C} {s s' : LoopThread C} {a : EchoCall C} {r : (machine c).Trace}
  {msg : List Byte} {write : WriteResult}

/-- While the connection waits for output, some of it is written. -/
def PeerReads (r : (machine c).Trace) : Prop :=
  ∀ n, (∀ k, n ≤ k → (r.state k).world.isWriting = true) →
    ∃ k, n ≤ k ∧ r.Takes (fun a => a.call.Writes) k

theorem step_log (hsettled : s.world.Settled) (hstep : step c s a = some s') :
    s.world.effects <+: s'.world.effects := by
  have hrun := Machine.run_preserves
    (P := fun t : LoopThread C => t.world.Settled ∧ s.world.effects <+: t.world.effects) ?_
    ⟨hsettled, List.prefix_rfl⟩ (step_run hstep)
  · exact hrun.2
  · intro t call t' _ ht hcall
    have hchange := LoopThread.step_change ht.1 hcall
    exact ⟨hchange.settled ht.1, ht.2.trans hchange.log_grows⟩

theorem step_writes (hcoupled : s.world.Coupled) (hpending : s.world.pending ≠ [])
    (hstep : step c s a = some s') (hwrites : a.call.Writes) :
    s.world.wire.length < s'.world.wire.length := by
  obtain ⟨t, hcall, rfl⟩ := Option.map_eq_some_iff.mp hstep
  have hgrows := LoopThread.step_writes hcoupled hpending hcall hwrites
  cases a with
  | handleWrite => exact hgrows
  | _ => exact absurd hwrites id

theorem reachable_serves (h : (machine c).Reachable s) : ∃ msgs, Serves msgs s.world := by
  refine h.invariant (P := fun s : LoopThread C => ∃ msgs, Serves msgs s.world)
    (fun _ hfresh => ⟨[], fresh_serves hfresh⟩) ?_
  intro s a s' hreach _ hstep hserves
  obtain ⟨msgs, hserves⟩ := hserves
  exact ⟨_, step_serves (reachable_closing hreach).settled hserves hstep⟩

/-! ### The message that is served -/

theorem served_eq (h : (msg, write) ∈ served s a) :
    s.world.conn.state = .kConnected ∧ served s a = [(msg, write)] := by
  cases a with
  | handleRead read answer =>
    unfold served at *
    dsimp only at *
    split at h
    · rename_i hboth
      rw [List.mem_singleton] at h
      rw [if_pos hboth, h]
      exact ⟨hboth.1, rfl⟩
    · cases h
  | _ => cases h

theorem Serves.one {w : Conn C} (h : Serves [(msg, write)] w) :
    w.wire ++ w.pending = echo msg write ∧
      (w.conn.state = .kDisconnecting ∨ w.conn.state = .kDisconnected) := by
  rcases h.stage with ⟨hnone, _⟩ | ⟨_, _, hone, _, hecho, hclosed⟩
  · cases hnone
  · cases hone
    exact ⟨hecho, hclosed⟩

/-- A message can be the first one only. -/
theorem serves_first (hreach : (machine c).Reachable s) (hstep : step c s a = some s')
    (hserved : (msg, write) ∈ served s a) : Serves [(msg, write)] s'.world := by
  obtain ⟨msgs, hserves⟩ := reachable_serves hreach
  obtain ⟨hconnected, hone⟩ := served_eq hserved
  have hafter := step_serves (reachable_closing hreach).settled hserves hstep
  rw [hone] at hafter
  rcases hserves.stage with ⟨rfl, _⟩ | ⟨_, _, _, _, _, hclosed⟩
  · exact hafter
  · rw [hconnected] at hclosed
    rcases hclosed with hclosed | hclosed
    · cases hclosed
    · cases hclosed

theorem serves_step (hreach : (machine c).Reachable s) (hserves : Serves [(msg, write)] s.world)
    (hstep : step c s a = some s') : Serves [(msg, write)] s'.world := by
  have hnothing : served s a = [] := by
    rw [List.eq_nil_iff_forall_not_mem]
    intro p hp
    have hclosed := hserves.one.2
    rw [(served_eq hp).1] at hclosed
    rcases hclosed with hclosed | hclosed
    · cases hclosed
    · cases hclosed
  have hafter := step_serves (reachable_closing hreach).settled hserves hstep
  rwa [hnothing, List.append_nil] at hafter

/-! ### The way of the echo -/

theorem echo_drained (hreads : PeerReads r) :
    r.LeadsTo (fun s => Serves [(msg, write)] s.world)
      (fun s => s.world.conn.state = .kDisconnected ∨
        Serves [(msg, write)] s.world ∧ s.world.HalfClosed) := by
  have hmain : r.LeadsTo
      (fun s => Serves [(msg, write)] s.world ∧ s.world.conn.state = .kDisconnecting ∧
        s.world.pending ≠ [])
      (fun s => s.world.conn.state = .kDisconnected ∨
        Serves [(msg, write)] s.world ∧ s.world.HalfClosed) := by
    refine Machine.Trace.leadsTo_of_taken (A := fun a : EchoCall C => a.call.Writes)
      (fun s => s.world.pending.length) ?_ ?_
    · intro n hP
      refine hreads n fun k hk => ?_
      obtain ⟨_, hstate, hpending⟩ := hP k hk
      refine ((reachable_closing (r.reachable k)).settled.coupled ?_).mpr hpending
      rw [hstate]
      exact StateE.noConfusion
    · intro s a s' hreach hs hstep
      obtain ⟨hserves, hstate, hpending⟩ := hs
      have hserves' := serves_step hreach hserves hstep
      obtain ⟨hecho, _⟩ := hserves.one
      obtain ⟨hecho', hclosed⟩ := hserves'.one
      rcases hclosed with hstate' | hdisconnected
      · by_cases hempty : s'.world.pending = []
        · have hclosing := reachable_closing (.step hreach trivial hstep)
          exact Or.inl (Or.inr ⟨hserves', hclosing.issued hstate' hempty⟩)
        · have hsettled := (reachable_closing hreach).settled
          have hwire := wire_le_of_log (step_log hsettled hstep)
          have hlength := congrArg List.length (hecho'.trans hecho.symm)
          simp only [List.length_append] at hlength
          refine Or.inr ⟨⟨hserves', hstate', hempty⟩, by omega, ?_⟩
          intro hwrites
          have hcoupled := hsettled.coupled (by rw [hstate]; exact StateE.noConfusion)
          have hgrows := step_writes hcoupled hpending hstep hwrites
          omega
      · exact Or.inl (Or.inl hdisconnected)
  intro n hn
  rcases hn.one.2 with hstate | hdisconnected
  · by_cases hempty : (r.state n).world.pending = []
    · have hclosing := reachable_closing (r.reachable n)
      exact ⟨n, Nat.le_refl n, Or.inr ⟨hn, hclosing.issued hstate hempty⟩⟩
    · exact hmain n ⟨hn, hstate, hempty⟩
  · exact ⟨n, Nat.le_refl n, Or.inl hdisconnected⟩

/-- While the peer reads, the message that a connection serves comes back to it in one piece with the half-close behind it, and from then on nothing else is sent, unless the connection is disconnected before. -/
theorem echo_returned (hreads : PeerReads r) {n : Nat} (hact : r.act n = some a)
    (hserved : (msg, write) ∈ served (r.state n) a) :
    ∃ k, n < k ∧ ((r.state k).world.conn.state = .kDisconnected ∨
      ∀ j, k ≤ j → (r.state j).world.HalfClosed ∧ Ordered (r.state j).world.effects ∧
        (r.state j).world.wire = echo msg write) := by
  have hstart : Serves [(msg, write)] (r.state (n + 1)).world :=
    serves_first (r.reachable n) (r.step_of_act hact) hserved
  obtain ⟨k, hk, hdone⟩ := echo_drained hreads (n + 1) hstart
  refine ⟨k, hk, hdone.imp_right fun hdone j hj => ?_⟩
  have hstays := r.invariant
    (I := fun s => (machine c).Reachable s ∧ Serves [(msg, write)] s.world ∧ s.world.HalfClosed)
    ?_ ⟨r.reachable k, hdone⟩ j hj
  · obtain ⟨hreach, hserves, hhalf⟩ := hstays
    have hecho := hserves.one.1
    rw [(reachable_closing hreach).empty hhalf, List.append_nil] at hecho
    exact ⟨hhalf, (reachable_closing hreach).ordered, hecho⟩
  · intro s a s' hs hstep
    obtain ⟨hreach, hserves, hhalf⟩ := hs
    have hlog := step_log (reachable_closing hreach).settled hstep
    exact ⟨.step hreach trivial hstep, serves_step hreach hserves hstep, hlog.subset hhalf⟩

/-- The socket takes the echo in two pieces, after it was full once. -/
theorem echo_returned_backlog :
    let s : LoopThread Unit :=
      ⟨⟨.new 7 true false 65536, ⟨fun _ => none, fun _ => none, []⟩, []⟩, none⟩
    ∃ r : (machine ()).Trace, r.state 0 = s ∧
      r.act 1 = some (.handleRead (.delivered [1, 2, 3]) (.accepted 1)) ∧ PeerReads r ∧
      ∃ k, 1 < k ∧ ((r.state k).world.conn.state = .kDisconnected ∨
        ∀ j, k ≤ j → (r.state j).world.HalfClosed ∧ Ordered (r.state j).world.effects ∧
          (r.state j).world.wire = echo [1, 2, 3] (.accepted 1)) := by
  intro s
  let calls : List (EchoCall Unit) := [.connectEstablished,
    .handleRead (.delivered [1, 2, 3]) (.accepted 1), .handleWrite (.failed .EWOULDBLOCK .EWOULDBLOCK),
    .handleWrite (.accepted 2)]
  have hfresh : s.Fresh := ⟨7, true, false, 65536, _, rfl, rfl⟩
  have hend : ((machine ()).run s calls).map (fun t => t.world.isWriting) = some false := by
    decide +kernel
  obtain ⟨s', hrun, hs'⟩ := Option.map_eq_some_iff.mp hend
  let r : (machine ()).Trace := .ofRun hfresh hrun
  have hreads : PeerReads r := by
    intro n hwriting
    have hstate : r.state (max n calls.length) = s' :=
      Machine.Trace.ofRun_state (Nat.le_max_right _ _)
    have hlate := hwriting (max n calls.length) (Nat.le_max_left _ _)
    rw [hstate, hs'] at hlate
    cases hlate
  have hserved : ([1, 2, 3], .accepted 1) ∈ served (((machine ()).run s [.connectEstablished]).getD s)
      (.handleRead (.delivered [1, 2, 3]) (.accepted 1)) := by decide +kernel
  exact ⟨r, rfl, rfl, hreads, echo_returned hreads rfl hserved⟩

end EchoServer

end LTMuduo
