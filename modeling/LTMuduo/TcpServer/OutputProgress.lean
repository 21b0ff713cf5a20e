import LTMuduo.Connection.Drain
import LTMuduo.Lib.Component
import LTMuduo.TcpServer.Descriptors
import LTMuduo.TcpServer.PerConnection
import LTMuduo.TcpServer.Progress

/-!
# What the connections of a server send is written

From `epoll_wait` to `::write`, with all the loops and connections of a server: a connection with output has its descriptor registered for it, `epoll_wait` reports the descriptor, the loop comes to the write callback in its batch, and `handleWrite` drains the output buffer. The connection is seen on its loop thread, where the progress of its output was proved; what is left is that the server keeps calling `handleWrite`.
-/

namespace LTMuduo

/-! ### The batch -/

theorem Channel.writeCallback_mem {revents : Events} :
    .writeCallback ∈ handleEventWithGuard revents ↔ revents &&& EPOLLOUT ≠ 0 := by
  simp [handleEventWithGuard]

namespace IoLoop

/-- The write callback of connection `c` is still to come in the batch. -/
def WriteDue (c : Nat) (x : IoLoop) : Prop :=
  ∃ active rest callbacks, x.phase = .dispatch active rest ∧ (c, callbacks) ∈ rest ∧
    .writeCallback ∈ callbacks

/-- It is the next one. -/
def AtWrite (c : Nat) (x : IoLoop) : Prop :=
  x.frame = .idle ∧ ∃ active callbacks rest,
    x.phase = .dispatch active ((c, .writeCallback :: callbacks) :: rest)

/-- What is left of a batch of events. -/
def stepsToEnd (x : IoLoop) : Nat :=
  match x.phase with
  | .dispatch _ rest =>
    3 * ((rest.flatMap Prod.snd).length + rest.length) + x.frame.stepsToIdle
  | _ => 0

end IoLoop

namespace LoopMoves

variable {n : Nat} {l : Fin (n + 1)} {x y : IoLoop} {a : ServerStep n} {c : Nat}

theorem extends_of_other (h : LoopMoves l x a y) (hother : ¬ a.OfLoop l) : x.Extends y := by
  cases h with
  | aside _ hext => exact hext
  | _ => exact absurd rfl hother

theorem toWrite (h : LoopMoves l x a y) (hdue : x.WriteDue c) :
    x.AtWrite c ∨ y.WriteDue c ∧ y.stepsToEnd ≤ x.stepsToEnd ∧
      (a.OfLoop l → y.stepsToEnd < x.stepsToEnd) := by
  obtain ⟨active, rest, callbacks, hphase, hmem, hwrite⟩ := hdue
  have hsteps (frame : Frame) (next : List (Nat × List EventCallback))
      (hnext : (c, callbacks) ∈ next ∨ ∃ cs, (c, cs) ∈ next ∧ .writeCallback ∈ cs)
      (hext : IoLoop.Extends { x with phase := .dispatch active next, frame := frame } y)
      (hless : 3 * ((next.flatMap Prod.snd).length + next.length) + frame.stepsToIdle <
        3 * ((rest.flatMap Prod.snd).length + rest.length) + x.frame.stepsToIdle) :
      x.AtWrite c ∨ y.WriteDue c ∧ y.stepsToEnd ≤ x.stepsToEnd ∧
        (a.OfLoop l → y.stepsToEnd < x.stepsToEnd) := by
    have hlt : y.stepsToEnd < x.stepsToEnd := by
      rw [IoLoop.stepsToEnd, IoLoop.stepsToEnd, hext.phase, hext.frame, hphase]
      exact hless
    refine Or.inr ⟨?_, Nat.le_of_lt hlt, fun _ => hlt⟩
    rcases hnext with hsame | ⟨cs, hcs, hwrite'⟩
    · exact ⟨active, next, callbacks, hext.phase, hsame, hwrite⟩
    · exact ⟨active, next, cs, hext.phase, hcs, hwrite'⟩
  cases h with
  | aside hother hext =>
    have hsame : y.stepsToEnd = x.stepsToEnd := by
      rw [IoLoop.stepsToEnd, IoLoop.stepsToEnd, hext.phase, hext.frame]
    exact Or.inr ⟨⟨active, rest, callbacks, hext.phase.trans hphase, hmem, hwrite⟩,
      Nat.le_of_eq hsame, (absurd · hother)⟩
  | poll _ _ _ hphase' | runFunctor _ _ _ hphase' | endFunctors hphase' =>
    cases hphase.symm.trans hphase'
  | swapFunctors _ hphase' =>
    cases hphase.symm.trans hphase'
    cases hmem
  | eventCallback read write _ d callback others batch frame hphase' hidle hext =>
    cases hphase.symm.trans hphase'
    have hcost := frame.stepsToIdle_le
    have hless : 3 * ((((d, others) :: batch).flatMap Prod.snd).length +
        ((d, others) :: batch).length) + frame.stepsToIdle <
          3 * ((((d, callback :: others) :: batch).flatMap Prod.snd).length +
            ((d, callback :: others) :: batch).length) + x.frame.stepsToIdle := by
      simp only [List.flatMap_cons, List.length_append, List.length_cons]
      omega
    rcases List.mem_cons.mp hmem with hhead | hrest
    · cases hhead
      rcases List.mem_cons.mp hwrite with hfirst | hlater
      · subst hfirst
        exact Or.inl ⟨hidle, active, others, batch, hphase⟩
      · exact hsteps _ _ (Or.inr ⟨others, List.mem_cons_self, hlater⟩) hext hless
    · exact hsteps _ _ (Or.inl (List.mem_cons_of_mem _ hrest)) hext hless
  | nextChannel _ d batch hphase' hidle hext =>
    cases hphase.symm.trans hphase'
    rcases List.mem_cons.mp hmem with hhead | hrest
    · cases hhead
      cases hwrite
    · refine hsteps x.frame _ (Or.inl hrest) hext ?_
      simp only [List.flatMap_cons, List.nil_append, List.length_cons]
      omega
  | resume frame hbusy hframe hext =>
    have hcost := Frame.stepsToIdle_lt hbusy hframe
    refine hsteps frame rest (Or.inl hmem) ?_ (by omega)
    rw [← hphase]
    exact hext

theorem of_atWrite (h : LoopMoves l x a y) (hat : x.AtWrite c) (hown : a.OfLoop l) :
    ∃ read write, a = .eventCallback l read write := by
  obtain ⟨hidle, active, callbacks, rest, hphase⟩ := hat
  cases h with
  | aside hother => exact absurd hown hother
  | eventCallback read write => exact ⟨read, write, rfl⟩
  | poll _ _ _ hphase' | runFunctor _ _ _ hphase' | endFunctors hphase'
  | swapFunctors _ hphase' | nextChannel _ _ _ hphase' => cases hphase.symm.trans hphase'
  | resume _ hbusy => exact absurd hidle hbusy

end LoopMoves

namespace TcpServer

variable {n : Nat} {cfg : ServerConfig} {s s' : TcpServer n} {l : Fin (n + 1)} {c : Nat}
  {k : ServerConn n} {a : ServerStep n} {call : LoopCall Nat} {write : WriteResult}

/-- The server with fewer than 2^31 connections, none of which gets a descriptor that is in use. -/
def admitted (cfg : ServerConfig) : Machine (TcpServer n) (ServerStep n) :=
  (machine cfg).restrict (Admissible cfg)

theorem admitted_moves (h : (admitted cfg).step s a = some s') : s.Moves cfg a s' :=
  step_moves (Option.ite_none_right_eq_some.mp h).2

theorem admitted_tidy (h : (admitted cfg).Reachable s) : s.Owned cfg ∧ s.Tidy (s.Held cfg) :=
  reachable_tidy (.of_restrict h)

/-- A poller waits for the connection to be ready for output. -/
def WaitsForOutput (c : Nat) (s : TcpServer n) : Prop :=
  ∃ k events, s.conns c = some k ∧
    (s.loops k.loop).poller.kernel k.conn.channel.fd = some (events, c) ∧ events &&& EPOLLOUT ≠ 0

/-- `epoll_wait` says that the connection is ready for output. -/
def ReportsWritable (c : Nat) (s : TcpServer n) : ServerStep n → Prop
  | .poll l ready => ∃ fd revents events, (fd, revents) ∈ ready ∧ revents &&& EPOLLOUT ≠ 0 ∧
      (s.loops l).poller.kernel fd = some (events, c)
  | _ => False

/-- The write callback of the connection is called, with the answer to its `::write`. -/
def HandlesWrite (c : Nat) (write : WriteResult) (s : TcpServer n) : ServerStep n → Prop
  | .eventCallback l _ answer => answer = write ∧ ∃ active callbacks rest,
      (s.loops l).phase = .dispatch active ((c, .writeCallback :: callbacks) :: rest)
  | _ => False

/-- Such a step is taken at time `i`. -/
def Does (r : (admitted (n := n) cfg).Trace) (A : TcpServer n → ServerStep n → Prop) (i : Nat) :
    Prop := ∃ a, r.act i = some a ∧ A (r.state i) a

/-- The loop threads keep going, `epoll_wait` reports what stays ready again and again, and the peer of the connection reads: of the writes that are made again and again, one accepts something. -/
structure Fair (r : (admitted (n := n) cfg).Trace) (c : Nat) : Prop where
  goes : ∀ l, r.Recurs (ServerStep.OfLoop l)
  reports : ∀ i, (∀ j, i ≤ j → (r.state j).WaitsForOutput c) →
    ∃ j, i ≤ j ∧ Does r (ReportsWritable c) j
  reads : ∀ i, (∀ j, i ≤ j → (r.state j).WaitsForOutput c) →
    (∀ j, i ≤ j → ∃ k write, j ≤ k ∧ Does r (HandlesWrite c write) k) →
    ∃ j m, i ≤ j ∧ 0 < m ∧ Does r (HandlesWrite c (.accepted m)) j

/-! ### From `epoll_wait` to `handleWrite` -/

theorem waits_of_writing (h : (admitted cfg).Reachable s) (hk : s.conns c = some k)
    (hwriting : (s.world k).isWriting = true) : s.WaitsForOutput c := by
  obtain ⟨howned, htidy⟩ := admitted_tidy h
  have hstate : k.conn.state ≠ .kDisconnected := by
    intro hdisconnected
    rw [(htidy.settled c k hk).not_writing hdisconnected] at hwriting
    cases hwriting
  have hregistered := htidy.registered c k hk (howned.held_of_state hk hstate)
  have hopen : k.conn.IsOpen := by
    cases hs : k.conn.state with
    | kDisconnected => exact absurd hs hstate
    | kConnecting =>
      rw [Conn.isWriting_of_events (hregistered.connecting hs).2] at hwriting
      cases hwriting
    | kConnected => exact Or.inl hs
    | kDisconnecting => exact Or.inr hs
  have hkernel : (s.loops k.loop).poller.kernel k.conn.channel.fd =
      k.conn.channel.kernelEntry c := hregistered.kernel
  have hindex : k.conn.channel.index = .kAdded := (hregistered.opened hopen).1
  refine ⟨k, k.conn.channel.events, hk, ?_, ?_⟩
  · rw [hkernel, Channel.kernelEntry, if_pos hindex]
  · exact bne_iff_ne.mp hwriting

theorem writeDue_of_reports (hmoves : s.Moves cfg a s') (hreports : s.ReportsWritable c a) :
    ∃ l, (s'.loops l).WriteDue c := by
  cases hmoves with
  | poll l ready batch hbatch =>
    obtain ⟨fd, revents, events, hready, hout, hentry⟩ := hreports
    refine ⟨l, batch.map Prod.fst, batch, Channel.handleEventWithGuard revents, ?_, ?_,
      Channel.writeCallback_mem.mpr hout⟩
    · rw [setPhase, setLoop_self]
    · rw [hbatch]
      refine List.mem_filterMap.mpr ⟨(fd, revents), hready, ?_⟩
      dsimp only
      rw [hentry]
      rfl
  | _ => exact hreports.elim

variable {r : (admitted (n := n) cfg).Trace}

theorem write_handled (hgo : r.Recurs (ServerStep.OfLoop l)) {i : Nat}
    (hdue : ((r.state i).loops l).WriteDue c) :
    ∃ j write, i ≤ j ∧ Does r (HandlesWrite c write) j := by
  have hnext : r.LeadsTo (fun s => (s.loops l).WriteDue c ∧ ¬ (s.loops l).AtWrite c)
      (fun s => (s.loops l).AtWrite c) := by
    refine Machine.Trace.leadsTo_of_recurs (fun s => (s.loops l).stepsToEnd) hgo ?_
    intro s a s' _ hs hstep
    obtain ⟨hdue, hnot⟩ := hs
    rcases (loopMoves (admitted_moves hstep) l).toWrite hdue with hat | ⟨hdue', hle, hlt⟩
    · exact absurd hat hnot
    · by_cases hat' : (s'.loops l).AtWrite c
      · exact Or.inl hat'
      · exact Or.inr ⟨⟨hdue', hat'⟩, hle, hlt⟩
  have hat : ∃ j, i ≤ j ∧ ((r.state j).loops l).AtWrite c := by
    by_cases hnow : ((r.state i).loops l).AtWrite c
    · exact ⟨i, Nat.le_refl i, hnow⟩
    · exact hnext i ⟨hdue, hnow⟩
  obtain ⟨j, hj, hat⟩ := hat
  have hkeeps : ∀ s a s', (s.loops l).AtWrite c → ¬ a.OfLoop l → (admitted cfg).step s a = some s' →
      (s'.loops l).AtWrite c := by
    intro s a s' hs hother hstep
    have hext := (loopMoves (admitted_moves hstep) l).extends_of_other hother
    rw [IoLoop.AtWrite, hext.frame, hext.phase]
    exact hs
  obtain ⟨k, hk, hat, a, ha, hown⟩ := hgo.next hkeeps hat
  have hmoves := admitted_moves (r.step_of_act ha)
  obtain ⟨read, write, rfl⟩ := (loopMoves hmoves l).of_atWrite hat hown
  exact ⟨k, write, Nat.le_trans hj hk, _, ha, rfl, hat.2⟩

theorem something_written (hfair : Fair r c) {i : Nat}
    (hwaits : ∀ j, i ≤ j → (r.state j).WaitsForOutput c) :
    ∃ j m, i ≤ j ∧ 0 < m ∧ Does r (HandlesWrite c (.accepted m)) j := by
  refine hfair.reads i hwaits fun j hj => ?_
  obtain ⟨k, hk, a, ha, hreports⟩ :=
    hfair.reports j fun j' hj' => hwaits j' (Nat.le_trans hj hj')
  obtain ⟨l, hdue⟩ := writeDue_of_reports (admitted_moves (r.step_of_act ha)) hreports
  obtain ⟨i', write, hi', hhandles⟩ := write_handled (hfair.goes l) hdue
  exact ⟨i', write, by omega, hhandles⟩

/-! ### The loop thread of the connection -/

/-- The connection on its loop thread, with what has been logged of it. -/
def IsThread (c : Nat) (s : TcpServer n) (t : LoopThread Nat) : Prop :=
  ∃ k log, s.conns c = some k ∧ t = (s.thread c k).logged log

/-- The call on the connection that a step of the server is. -/
def IsCall (c : Nat) (s : TcpServer n) (a : ServerStep n) (call : LoopCall Nat) : Prop :=
  call.user = a.user c ∧ ∀ write, s.HandlesWrite c write a → call = .handleWrite write

theorem thread_putWorld (w : Conn Nat) :
    ((s.putWorld c k w).thread c { k with conn := w.conn }).logged w.effects =
      ⟨w, (s.thread c k).resume⟩ := by
  unfold thread world
  dsimp only
  rw [putWorld_loops, LoopThread.logged, Conn.logged, List.append_nil]

theorem handlesWrite_call (howned : s.Owned cfg) (hk : s.conns c = some k) (hmoves : s.Moves cfg a s')
    (hhandles : s.HandlesWrite c write a) :
    ∃ k' log, s'.conns c = some k' ∧
      LoopThread.step c (s.thread c k) (.handleWrite write) = some ((s'.thread c k').logged log) := by
  cases hmoves with
  | eventCallback l read answer active d callback callbacks rest j hphase hidle hj =>
    obtain ⟨rfl, active', callbacks', rest', hphase'⟩ := hhandles
    cases hphase.symm.trans hphase'
    cases hk.symm.trans hj
    have hlisted : c ∈ (s.loops l).phase.active := by
      refine (howned.wellFormed l).rest c (.writeCallback :: callbacks) ?_
      rw [hphase]
      exact List.mem_cons_self
    obtain ⟨i, hi, hloop, hestablished, _⟩ := howned.token (mem_tokens_listed hlisted)
    cases hk.symm.trans hi
    subst l
    let next : TcpServer n := s.setPhase k.loop (.dispatch active ((c, callbacks) :: rest))
    have hthread : next.thread c k = s.thread c k := thread_setLoop rfl rfl
    have hdispatches : (next.thread c k).Dispatches := by
      rw [hthread]
      exact ⟨Frame.resume_idle hidle, (howned.life c k hk).established.mp hestablished⟩
    refine ⟨_, ((next.world k).handleWrite c answer).effects, putWorld_conns _, ?_⟩
    rw [← hthread]
    exact (if_pos hdispatches).trans (congrArg some (thread_putWorld _).symm)
  | _ => exact hhandles.elim

theorem isThread_step {t : LoopThread Nat} (hreach : (admitted cfg).Reachable s)
    (hstep : (admitted cfg).step s a = some s') (ht : s.IsThread c t) :
    ∃ call t', LoopThread.step c t call = some t' ∧ s'.IsThread c t' ∧ s.IsCall c a call := by
  obtain ⟨k, log, hk, rfl⟩ := ht
  have howned := (admitted_tidy hreach).1
  have hmoves := admitted_moves hstep
  have hlogged {call : LoopCall Nat} {k' : ServerConn n} {log' : List Effect}
      (hk' : s'.conns c = some k')
      (hcall : LoopThread.step c (s.thread c k) call = some ((s'.thread c k').logged log')) :
      ∃ t', LoopThread.step c ((s.thread c k).logged log) call = some t' ∧ s'.IsThread c t' := by
    refine ⟨(s'.thread c k').logged (log ++ log'), ?_, k', log ++ log', hk', rfl⟩
    rw [LoopThread.step_logged, hcall, Option.map_some, LoopThread.logged_logged]
  by_cases hhandles : ∃ write, s.HandlesWrite c write a
  · obtain ⟨write, hhandles⟩ := hhandles
    obtain ⟨k', log', hk', hcall⟩ := handlesWrite_call howned hk hmoves hhandles
    obtain ⟨t', ht', hthread⟩ := hlogged hk' hcall
    refine ⟨.handleWrite write, t', ht', hthread, ?_⟩
    cases a with
    | eventCallback l read answer =>
      refine ⟨rfl, fun write' hwrite' => ?_⟩
      rw [← hhandles.1, hwrite'.1]
    | _ => exact hhandles.elim
  · obtain ⟨k', call, log', hk', _, huser, hcall⟩ := follows_step howned hk hmoves
    obtain ⟨t', ht', hthread⟩ := hlogged hk' hcall
    exact ⟨call, t', ht', hthread, huser, fun write hwrite => absurd ⟨write, hwrite⟩ hhandles⟩

theorem isThread_reachable (hreach : (admitted cfg).Reachable s) (hk : s.conns c = some k) :
    ∃ t, (LoopThread.machine c).Reachable t ∧ s.IsThread c t := by
  refine hreach.invariant (P := fun s => ∀ k, s.conns c = some k →
    ∃ t, (LoopThread.machine c).Reachable t ∧ s.IsThread c t) ?_ ?_ k hk
  · intro s hinit k hk
    rw [hinit] at hk
    exact (new_conns hk).elim
  · intro s a s' hreach _ hstep ih k' hk'
    cases hc : s.conns c with
    | none =>
      have howned := (admitted_tidy hreach).1
      obtain ⟨t, call, log, hfresh, _, hcall⟩ :=
        starts_step howned hc (Option.ite_none_right_eq_some.mp hstep).2 hk'
      exact ⟨_, .step (.init hfresh) trivial hcall, k', log, hk', rfl⟩
    | some k =>
      obtain ⟨t, ht, hthread⟩ := ih k hc
      obtain ⟨call, t', hcall, hthread', _⟩ := isThread_step hreach hstep hthread
      exact ⟨t', .step ht trivial hcall, hthread'⟩

/-- The peer of the connection reads, as its loop thread sees it. -/
theorem peerReads_of_fair (hfair : Fair r c) {r' : (LoopThread.machine c).Trace} {m i : Nat}
    (h : r'.Simulates m r i (IsThread c) (IsCall c)) : LoopThread.PeerReads r' := by
  intro j hwriting
  have hwaits (d : Nat) (hd : i + j ≤ d) : (r.state d).WaitsForOutput c := by
    obtain ⟨e, rfl⟩ := Nat.exists_eq_add_of_le (Nat.le_of_add_right_le hd)
    obtain ⟨k, log, hk, hthread⟩ := (h e).1
    have hthere := hwriting (m + e) (by omega)
    rw [hthread] at hthere
    exact waits_of_writing (r.reachable _) hk hthere
  obtain ⟨d, bytes, hd, hpos, a, ha, hhandles⟩ := something_written hfair hwaits
  obtain ⟨e, rfl⟩ := Nat.exists_eq_add_of_le (Nat.le_of_add_right_le hd)
  obtain ⟨call, hcall, _, hwrite⟩ := h.act ha
  refine ⟨m + e, by omega, call, hcall, ?_⟩
  rw [hwrite _ hhandles]
  exact hpos

end TcpServer

end LTMuduo
