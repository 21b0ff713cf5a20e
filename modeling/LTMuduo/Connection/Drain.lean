import LTMuduo.Connection.Output
import LTMuduo.Lib.LeadsTo

/-!
# What is sent is written

As long as a connection waits for output, its peer reads, and so a `handleWrite` gets rid of a byte sooner or later. Then every byte that the connection has taken over is accepted by the kernel, and `shutdown` half-closes, unless the connection is disconnected before.
-/

namespace LTMuduo

variable {C : Type*}

/-- A `handleWrite` whose `::write` accepts something. -/
def LoopCall.Writes : LoopCall C → Prop
  | .handleWrite (.accepted n) => 0 < n
  | _ => False

namespace Conn

variable {w w' : Conn C} {c : C} {call : LoopCall C}

theorem length_stream (w : Conn C) :
    (w.wire ++ w.pending).length = w.wire.length + w.pending.length := List.length_append

theorem Change.log_grows (h : w.Change w' call) : w.effects <+: w'.effects := by
  cases h with
  | quiet _ _ _ _ heffects => exact ⟨_, heffects.symm⟩
  | sent _ _ _ _ _ _ heffects => exact ⟨_, heffects.symm⟩
  | drained _ _ _ _ _ heffects => exact ⟨_, heffects.symm⟩
  | shutdown _ _ heffects => exact ⟨_, heffects.symm⟩
  | disconnected _ _ _ _ heffects => exact ⟨_, heffects.symm⟩

theorem wire_le_of_log (h : w.effects <+: w'.effects) : w.wire.length ≤ w'.wire.length := by
  obtain ⟨new, heffects⟩ := h
  rw [wire_of_effects heffects.symm, List.length_append]
  exact Nat.le_add_right _ _

theorem Change.wire_le (h : w.Change w' call) : w.wire.length ≤ w'.wire.length :=
  wire_le_of_log h.log_grows

theorem Change.stream_le (h : w.Change w' call) :
    w.wire.length + w.pending.length ≤ w'.wire.length + w'.pending.length := by
  have hstream := congrArg List.length h.stream
  simp only [List.length_append] at hstream
  omega

/-- A state that is left is not `kDisconnecting`, unless the connection is disconnected. -/
theorem Change.disconnecting (h : w.Change w' call) (hstate : w.conn.state = .kDisconnecting) :
    w'.conn.state = .kDisconnected ∨
      w'.conn.state = .kDisconnecting ∧ w'.wire ++ w'.pending = w.wire ++ w.pending := by
  have hstream := h.stream
  have hnothing : w.accepted call = [] := by
    cases call with
    | send buf r =>
      refine if_neg fun hconnected => ?_
      rw [hstate] at hconnected
      exact StateE.noConfusion hconnected.1
    | _ => rfl
  rw [hnothing, List.append_nil] at hstream
  cases h with
  | quiet _ _ _ _ _ _ _ hafter =>
    rcases hafter with hsame | ⟨hbefore, _⟩
    · exact Or.inr ⟨hsame.trans hstate, hstream⟩
    · exact absurd (hstate.symm.trans hbefore) StateE.noConfusion
  | sent _ _ _ _ hconnected => exact absurd (hstate.symm.trans hconnected) StateE.noConfusion
  | drained _ _ _ _ hsame => exact Or.inr ⟨hsame.trans hstate, hstream⟩
  | shutdown hconnected => exact absurd (hstate.symm.trans hconnected) StateE.noConfusion
  | disconnected _ _ _ _ _ _ _ hafter => exact Or.inl hafter

theorem handleWrite_wire_lt (hcoupled : w.Coupled) (hpending : w.pending ≠ []) {n : Nat}
    (hn : 0 < n) : w.wire.length < (w.handleWrite c (.accepted n)).wire.length := by
  obtain ⟨_, _, _, queued, _, heffects⟩ :=
    w.handleWrite_spec c (.accepted n) hcoupled (hcoupled.mpr hpending)
  have hpos := List.length_pos_iff.mpr hpending
  rw [wire_of_effects heffects]
  simp only [List.cons_append, List.flatMap_cons, List.length_append, Effect.wire,
    WriteResult.length_taken]
  omega

end Conn

namespace LoopThread

variable {c : C} {s s' : LoopThread C} {call : LoopCall C} {r : (machine c).Trace}

/-- While the connection waits for output, some of it is written. -/
def PeerReads (r : (machine c).Trace) : Prop :=
  ∀ n, (∀ k, n ≤ k → (r.state k).world.isWriting = true) → ∃ k, n ≤ k ∧ r.Takes LoopCall.Writes k

theorem reachable_closing (h : (machine c).Reachable s) : s.world.Closing := by
  refine h.invariant (P := fun s : LoopThread C => s.world.Closing) (fun _ => Fresh.closing) ?_
  intro s a s' _ _ hstep hclosing
  exact (step_change hclosing.settled hstep).closing hclosing

theorem step_writes (hcoupled : s.world.Coupled) (hpending : s.world.pending ≠ [])
    (hstep : step c s call = some s') (hwrites : call.Writes) :
    s.world.wire.length < s'.world.wire.length := by
  cases call with
  | handleWrite r =>
    obtain ⟨_, hsome⟩ := Option.ite_none_right_eq_some.mp hstep
    cases hsome
    cases r with
    | accepted n => exact Conn.handleWrite_wire_lt hcoupled hpending hwrites
    | failed errno => exact absurd hwrites id
  | _ => exact absurd hwrites id

/-- The bytes up to the `m`th have been taken over, and not all of them are on the socket. -/
def Owes (m : Nat) (s : LoopThread C) : Prop :=
  s.world.conn.state ≠ .kDisconnected ∧ m ≤ s.world.wire.length + s.world.pending.length ∧
    s.world.wire.length < m

theorem Owes.pending {m : Nat} (h : s.Owes m) : s.world.pending ≠ [] := by
  obtain ⟨_, htaken, hleft⟩ := h
  intro hempty
  rw [hempty, List.length_nil] at htaken
  omega

theorem Owes.isWriting {m : Nat} (h : s.Owes m) (hreach : (machine c).Reachable s) :
    s.world.isWriting = true :=
  ((reachable_closing hreach).settled.coupled h.1).mpr h.pending

theorem byte_written (hreads : PeerReads r) (m : Nat) :
    r.LeadsTo (Owes m)
      (fun s => s.world.conn.state = .kDisconnected ∨ m ≤ s.world.wire.length) := by
  refine Machine.Trace.leadsTo_of_taken (fun s => m - s.world.wire.length)
    (fun n hP => hreads n fun k hk => (hP k hk).isWriting (r.reachable k)) ?_
  intro s a s' hreach howes hstep
  have ⟨hstate, htaken, hleft⟩ := howes
  have hsettled := (reachable_closing hreach).settled
  have hchange := step_change hsettled hstep
  have hwire := hchange.wire_le
  have hstream := hchange.stream_le
  by_cases hdisconnected : s'.world.conn.state = .kDisconnected
  · exact Or.inl (Or.inl hdisconnected)
  · by_cases hdone : m ≤ s'.world.wire.length
    · exact Or.inl (Or.inr hdone)
    · refine Or.inr ⟨⟨hdisconnected, by omega, by omega⟩, by omega, ?_⟩
      intro hwrites
      have hgrows := step_writes (hsettled.coupled hstate) howes.pending hstep hwrites
      omega

theorem bytes_written (hreads : PeerReads r) (m : Nat) :
    r.LeadsTo (fun s => m ≤ (s.world.wire ++ s.world.pending).length)
      (fun s => s.world.conn.state = .kDisconnected ∨ m ≤ s.world.wire.length) := by
  intro n hm
  rw [Conn.length_stream] at hm
  by_cases hdisconnected : (r.state n).world.conn.state = .kDisconnected
  · exact ⟨n, Nat.le_refl n, Or.inl hdisconnected⟩
  · by_cases hdone : m ≤ (r.state n).world.wire.length
    · exact ⟨n, Nat.le_refl n, Or.inr hdone⟩
    · exact byte_written hreads m n ⟨hdisconnected, hm, Nat.lt_of_not_le hdone⟩

theorem backlog_shutdown (hreads : PeerReads r) :
    r.LeadsTo (fun s => s.world.conn.state = .kDisconnecting)
      (fun s => s.world.conn.state = .kDisconnected ∨ s.world.HalfClosed) := by
  have hmain : r.LeadsTo
      (fun s => s.world.conn.state = .kDisconnecting ∧ s.world.pending ≠ [])
      (fun s => s.world.conn.state = .kDisconnected ∨ s.world.HalfClosed) := by
    refine Machine.Trace.leadsTo_of_taken (A := LoopCall.Writes) (fun s => s.world.pending.length)
      ?_ ?_
    · intro n hP
      refine hreads n fun k hk => ?_
      obtain ⟨hstate, hpending⟩ := hP k hk
      refine ((reachable_closing (r.reachable k)).settled.coupled ?_).mpr hpending
      rw [hstate]
      exact StateE.noConfusion
    · intro s a s' hreach hs hstep
      obtain ⟨hstate, hpending⟩ := hs
      have hclosing := reachable_closing hreach
      have hchange := step_change hclosing.settled hstep
      rcases hchange.disconnecting hstate with hdisconnected | ⟨hstays, hstream⟩
      · exact Or.inl (Or.inl hdisconnected)
      · by_cases hempty : s'.world.pending = []
        · exact Or.inl (Or.inr ((hchange.closing hclosing).issued hstays hempty))
        · have hwire := hchange.wire_le
          have hlength := congrArg List.length hstream
          simp only [List.length_append] at hlength
          refine Or.inr ⟨⟨hstays, hempty⟩, by omega, ?_⟩
          intro hwrites
          have hcoupled := hclosing.settled.coupled (by rw [hstate]; exact StateE.noConfusion)
          have hgrows := step_writes hcoupled hpending hstep hwrites
          omega
  intro n hn
  by_cases hempty : (r.state n).world.pending = []
  · exact ⟨n, Nat.le_refl n, Or.inr ((reachable_closing (r.reachable n)).issued hn hempty)⟩
  · exact hmain n ⟨hn, hempty⟩

/-- While the peer reads, every byte that a connection has taken over is accepted by the kernel, however the sends and the partial or failed writes are interleaved, and a connection that was shut down half-closes, unless the connection is disconnected before. -/
theorem output_progress (hreads : PeerReads r) :
    (∀ m, r.LeadsTo (fun s => m ≤ (s.world.wire ++ s.world.pending).length)
      (fun s => s.world.conn.state = .kDisconnected ∨ m ≤ s.world.wire.length)) ∧
    r.LeadsTo (fun s => s.world.conn.state = .kDisconnecting)
      (fun s => s.world.conn.state = .kDisconnected ∨ s.world.HalfClosed) :=
  ⟨bytes_written hreads, backlog_shutdown hreads⟩

/-- Two sends and a shutdown, which the peer reads byte by byte. -/
theorem output_progress_backlog :
    let s : LoopThread Unit :=
      ⟨⟨.new 7 true false 65536, ⟨fun _ => none, fun _ => none, []⟩, []⟩, none⟩
    ∃ r : (machine ()).Trace, r.state 0 = s ∧ r.act 1 = some (.send [1, 2] (.accepted 1)) ∧
      r.act 3 = some .shutdown ∧ PeerReads r ∧
      (∀ m, r.LeadsTo (fun s => m ≤ (s.world.wire ++ s.world.pending).length)
        (fun s => s.world.conn.state = .kDisconnected ∨ m ≤ s.world.wire.length)) ∧
      r.LeadsTo (fun s => s.world.conn.state = .kDisconnecting)
        (fun s => s.world.conn.state = .kDisconnected ∨ s.world.HalfClosed) := by
  intro s
  let calls : List (LoopCall Unit) := [.connectEstablished, .send [1, 2] (.accepted 1),
    .send [3] (.accepted 0), .shutdown, .handleWrite (.failed .EWOULDBLOCK .EWOULDBLOCK),
    .handleWrite (.accepted 1), .handleWrite (.accepted 1)]
  have hfresh : s.Fresh := ⟨7, true, false, 65536, _, rfl, rfl⟩
  have hend : ((machine ()).run s calls).map (fun t => t.world.isWriting) = some false := by
    decide +kernel
  obtain ⟨s', hrun, hs'⟩ := Option.map_eq_some_iff.mp hend
  have hreads : PeerReads (.ofRun hfresh hrun) := by
    intro n hwriting
    have hstate : (Machine.Trace.ofRun hfresh hrun).state (max n calls.length) = s' :=
      Machine.Trace.ofRun_state (Nat.le_max_right _ _)
    have hlate := hwriting (max n calls.length) (Nat.le_max_left _ _)
    rw [hstate, hs'] at hlate
    cases hlate
  exact ⟨_, rfl, rfl, rfl, hreads, output_progress hreads⟩

end LoopThread

end LTMuduo
