import LTMuduo.Connection.CrossThread

/-!
# `shutdown` behind the sends of another thread

`send` and `shutdown` of another thread reach the loop in their order. The half-close is decided twice, in `shutdownInLoop`, which runs behind all the sends, and in `handleWrite`, which looks at `state_` only: it half-closes after a drain although the queue still holds sends. The invariant of the runs without such a test gives the order of bytes and half-close.
-/

namespace LTMuduo.CrossThread

variable {C : Type*} {c : C} {start : Conn C} {payloads : List (List Byte)} {s s' : CrossThread C}

/-- A drain of earlier bytes between the store of `kDisconnecting` and the run of a queued send half-closes in front of that send. -/
theorem shutdown_overtakes_send :
    ¬ ∀ (start : Conn Unit) (payloads : List (List Byte)) (s : CrossThread Unit),
      (machine () start payloads).ReachableVia (fun s a => s.environment () a = true) s →
      s.SendsFirst start payloads := by
  intro hclaim
  let conn : TcpConnection := .new 7 false false 65536
  let fresh : Conn Unit := ⟨conn, ⟨fun _ => none, fun _ => none, []⟩, []⟩
  let start : Conn Unit := (fresh.connectEstablished ()).send () [1, 2] (.accepted 1)
  let steps : List CrossStep :=
    [.callerLoads, .callerQueues, .callerLoads, .callerStores, .handleWrite (.accepted 1),
      .testState]
  have hopen : Open start := by
    refine ⟨by decide +kernel, ?_, by unfold Conn.HalfClosed; decide +kernel⟩
    exact iff_of_true (by decide +kernel) (by decide +kernel)
  have hend : (((machine () start [[3]]).restrict fun s a => s.environment () a = true).run
      ⟨start, .new, .events false, .calls [[3]]⟩ steps).map
      (fun s => (s.world.effects.contains .shutdownWrite, s.world.wire)) =
        some (true, [1, 2]) := by decide +kernel
  obtain ⟨s, hrun, hs⟩ := Option.map_eq_some_iff.mp hend
  obtain ⟨hclosed, hwire⟩ := Prod.mk.inj hs
  have hreach : (machine () start [[3]]).ReachableVia (fun s a => s.environment () a = true) s :=
    Machine.ReachableVia.run (.init ⟨hopen, rfl⟩) hrun
  have hall := (hclaim start [[3]] s hreach).1 (List.contains_iff_mem.mp hclosed)
  rw [hwire] at hall
  exact absurd hall (by decide +kernel)

/-- The invariant of the runs in which `handleWrite` does not half-close in front of a queued send. `drained` says that `handleWrite` is about to test `state_`. -/
structure Sound (start : Conn C) (payloads : List (List Byte)) (w : Conn C) (queue : List Deferred)
    (caller : CallerStage) (drained : Bool) : Prop where
  coupled : w.Coupled
  state : w.conn.state = if caller.hasStored then .kDisconnecting else .kConnected
  stream : w.wire ++ w.pending ++ (queue.flatMap Deferred.payload ++ caller.unsent.flatten) =
    start.wire ++ start.pending ++ payloads.flatten
  order : queue.After .shutdownInLoop fun f => f.isSend = false
  queued : .shutdownInLoop ∈ queue → caller = .done
  drained : drained = true → w.pending = []
  closed : w.HalfClosed →
    w.pending = [] ∧ caller.hasStored = true ∧ ∀ f ∈ queue, f.isSend = false
  writes : w.effects.After .shutdownWrite fun f => ¬ f.IsWrite

theorem Open.sound (hopen : Open start) : Sound start payloads start [] (.calls payloads) false := by
  refine ⟨hopen.coupled, hopen.connected, rfl, .of_absent List.not_mem_nil, ?_, nofun, ?_, ?_⟩
  · exact fun hmem => absurd hmem List.not_mem_nil
  · exact fun hclosed => absurd hclosed hopen.notClosed
  · exact .of_absent hopen.notClosed

namespace Sound

variable {w w' : Conn C} {queue : List Deferred} {caller : CallerStage} {drained : Bool}

theorem not_disconnected (h : Sound start payloads w queue caller drained) :
    w.conn.state ≠ .kDisconnected := by
  rw [h.state]
  split
  · decide
  · decide

theorem hasStored (h : Sound start payloads w queue caller drained)
    (hstate : w.conn.state = .kDisconnecting) : caller.hasStored = true := by
  have hsame := h.state
  rw [hstate] at hsame
  by_contra hnot
  rw [if_neg hnot] at hsame
  cases hsame

theorem onWorld {drained' : Bool} {new : List Effect}
    (h : Sound start payloads w queue caller drained) (hstate : w'.conn.state = w.conn.state)
    (hcoupled : w'.Coupled) (hstream : w'.wire ++ w'.pending = w.wire ++ w.pending)
    (heffects : w'.effects = w.effects ++ new) (hnew : .shutdownWrite ∉ new)
    (hdrained : drained' = true → w'.pending = [])
    (hclosed : w.HalfClosed → w'.pending = [] ∧ ∀ e ∈ new, ¬ e.IsWrite) :
    Sound start payloads w' queue caller drained' := by
  have hsame : w'.HalfClosed ↔ w.HalfClosed := by
    rw [Conn.HalfClosed, heffects, List.mem_append]
    exact or_iff_left hnew
  refine ⟨hcoupled, hstate.trans h.state, ?_, h.order, h.queued, hdrained, ?_, ?_⟩
  · rw [hstream]
    exact h.stream
  · intro hback
    obtain ⟨_, hstored, hsends⟩ := h.closed (hsame.mp hback)
    exact ⟨(hclosed (hsame.mp hback)).1, hstored, hsends⟩
  · by_cases hback : w.HalfClosed
    · rw [heffects]
      exact h.writes.append (hclosed hback).2
    · apply List.After.of_absent
      exact fun hmem => hback (hsame.mp hmem)

theorem setDrained {drained' : Bool} (h : Sound start payloads w queue caller drained)
    (hdrained : drained' = true → w.pending = []) : Sound start payloads w queue caller drained' :=
  { h with drained := hdrained }

theorem handleWrite (h : Sound start payloads w queue caller false) (r : WriteResult) :
    Sound start payloads (w.handleWriteDrain c r).1 queue caller (w.handleWriteDrain c r).2 := by
  by_cases hwriting : w.isWriting = true
  · obtain ⟨hstate, hcoupled, ⟨queued, honly, heffects⟩, hstream, hdrained⟩ :=
      w.handleWriteDrain_spec c r h.coupled hwriting
    have hpending : w.pending ≠ [] := h.coupled.mp hwriting
    have hnew : .shutdownWrite ∉ Effect.handleWrite (r.taken w.pending) r :: queued := by
      simp [honly.quiet.not_mem]
    apply h.onWorld hstate hcoupled hstream heffects hnew hdrained.mp
    exact fun hclosed => absurd (h.closed hclosed).1 hpending
  · rw [w.handleWriteDrain_of_not_writing c r (by simpa using hwriting)]
    exact h

theorem handleRead (h : Sound start payloads w queue caller false) (r : ReadvResult)
    (hopen : (w.handleRead c r).2 = false) :
    Sound start payloads (w.handleRead c r).1 queue caller false := by
  rcases w.handleRead_spec c r with ⟨hstate, hwriting, hpending, heffects, _⟩ | ⟨b, hclosed⟩
  · have hcoupled : (w.handleRead c r).1.Coupled := by
      rw [Conn.Coupled, hwriting, hpending]
      exact h.coupled
    obtain ⟨new, hnew, heffects⟩ : ∃ new, Conn.Quiet new ∧
        (w.handleRead c r).1.effects = w.effects ++ new := by
      rcases heffects with heffects | heffects
      · exact ⟨[], .nil, by rw [heffects, List.append_nil]⟩
      · exact ⟨_, .singleton Effect.noConfusion id, heffects⟩
    refine h.onWorld hstate hcoupled ?_ heffects hnew.not_mem (absurd · (by decide)) ?_
    · rw [Conn.wire_of_effects heffects, hnew.wire, hpending, List.append_nil]
    · intro hback
      rw [hpending]
      exact ⟨(h.closed hback).1, fun e he => (hnew e he).2⟩
  · rw [hclosed] at hopen
    cases hopen

theorem halfClose (h : Sound start payloads w queue caller drained) (hempty : w.pending = [])
    (hstored : caller.hasStored = true) (hsends : ∀ f ∈ queue, f.isSend = false) :
    Sound start payloads (w.emit .shutdownWrite) queue caller false := by
  refine ⟨h.coupled, h.state, ?_, h.order, h.queued, nofun, fun _ => ⟨hempty, hstored, hsends⟩, ?_⟩
  · rw [Conn.wire_emit]
    exact (congrArg (· ++ w.pending ++ _) (List.append_nil _)).trans h.stream
  · exact h.writes.append (by simp [Effect.IsWrite])

theorem shutdownInLoop_of_empty (h : Sound start payloads w queue caller drained)
    (hempty : w.pending = []) : w.shutdownInLoop = w.emit .shutdownWrite := by
  have hoff : w.isWriting = false := by
    rw [← Bool.not_eq_true]
    exact fun hwriting => h.coupled.mp hwriting hempty
  rw [Conn.shutdownInLoop, hoff]
  rfl

/-- The drain has emptied the buffer. In the state `kDisconnecting` the caller has handed over all its sends, and by the condition none of them is in the queue. -/
theorem testState (h : Sound start payloads w queue caller true)
    (htest : w.conn.state = .kDisconnecting → ∀ f ∈ queue, f.isSend = false) :
    Sound start payloads w.handleWriteFinish queue caller false := by
  have hempty := h.drained rfl
  unfold Conn.handleWriteFinish
  split
  · rename_i hstate
    rw [h.shutdownInLoop_of_empty hempty]
    exact h.halfClose hempty (h.hasStored hstate) (htest hstate)
  · exact h.setDrained nofun

theorem runSend {payload : List Byte} {rest : List Deferred} {r : WriteResult}
    (h : Sound start payloads w (.sendInLoop payload :: rest) caller drained)
    (hhealthy : r.isHealthy = true) :
    Sound start payloads (w.sendInLoop c payload r) rest caller false := by
  have hopen : ¬ w.HalfClosed := by
    intro hclosed
    have hsend := (h.closed hclosed).2.2 _ List.mem_cons_self
    cases hsend
  have hkept : ¬ w.Dropped r := fun hdropped =>
    WriteResult.not_faults_of_isHealthy hhealthy hdropped.2
  obtain ⟨hstate, hcoupled, ⟨queued, honly, heffects⟩, hstream⟩ :=
    w.sendInLoop_spec c payload r h.coupled h.not_disconnected
  have hopen' : .shutdownWrite ∉ (w.sendInLoop c payload r).effects := by
    rw [heffects]
    simp [honly.quiet.not_mem, show .shutdownWrite ∉ w.effects from hopen]
  refine ⟨hcoupled, hstate.trans h.state, ?_, ?_, ?_, nofun, (absurd · hopen'), .of_absent hopen'⟩
  · rw [hstream, if_neg hkept, ← h.stream]
    simp [Deferred.payload]
  · exact (List.pairwise_cons.mp h.order).2
  · exact fun hmem => h.queued (List.mem_cons_of_mem _ hmem)

/-- `shutdownInLoop` comes last, so nothing is left to send. -/
theorem runShutdown {rest : List Deferred}
    (h : Sound start payloads w (.shutdownInLoop :: rest) caller drained) :
    Sound start payloads w.shutdownInLoop rest caller false := by
  have hdone := h.queued List.mem_cons_self
  obtain ⟨hlast, hrest⟩ := List.pairwise_cons.mp h.order
  have hsends : ∀ f ∈ rest, f.isSend = false := fun f hf => hlast f hf rfl
  have hthere : Sound start payloads w rest caller false := by
    refine ⟨h.coupled, h.state, h.stream, hrest, ?_, nofun, ?_, h.writes⟩
    · exact fun hmem => h.queued (List.mem_cons_of_mem _ hmem)
    · exact fun hclosed => ⟨(h.closed hclosed).1, (h.closed hclosed).2.1, hsends⟩
  by_cases hempty : w.pending = []
  · rw [h.shutdownInLoop_of_empty hempty]
    apply hthere.halfClose hempty _ hsends
    rw [hdone]
    rfl
  · have hwriting : w.isWriting = true := h.coupled.mpr hempty
    rw [Conn.shutdownInLoop, hwriting]
    exact hthere

theorem runOther {rest : List Deferred}
    (h : Sound start payloads w (.other :: rest) caller drained) :
    Sound start payloads w rest caller false := by
  refine ⟨h.coupled, h.state, h.stream, (List.pairwise_cons.mp h.order).2, ?_, nofun, ?_, h.writes⟩
  · exact fun hmem => h.queued (List.mem_cons_of_mem _ hmem)
  · intro hclosed
    obtain ⟨hempty, hstored, hsends⟩ := h.closed hclosed
    exact ⟨hempty, hstored, fun f hf => hsends f (List.mem_cons_of_mem _ hf)⟩

theorem callerMoves {caller' : CallerStage} (h : Sound start payloads w queue caller drained)
    (hstored : caller'.hasStored = caller.hasStored) (hunsent : caller'.unsent = caller.unsent)
    (hdone : caller ≠ .done) : Sound start payloads w queue caller' drained := by
  refine ⟨h.coupled, ?_, ?_, h.order, fun hmem => absurd (h.queued hmem) hdone, h.drained, ?_, h.writes⟩
  · rw [hstored]
    exact h.state
  · rw [hunsent]
    exact h.stream
  · rw [hstored]
    exact h.closed

theorem callerStores (h : Sound start payloads w queue .shutsDown drained) :
    Sound start payloads (w.setState .kDisconnecting) queue .stored drained := by
  have hopen : ¬ w.HalfClosed := fun hclosed => Bool.false_ne_true (h.closed hclosed).2.1
  refine ⟨h.coupled, rfl, h.stream, h.order, ?_, h.drained, (absurd · hopen), h.writes⟩
  intro hmem
  cases h.queued hmem

theorem queuesSend {payload : List Byte} {rest : List (List Byte)}
    (h : Sound start payloads w queue (.sends payload rest) drained) :
    Sound start payloads w (queue ++ [.sendInLoop payload]) (.calls rest) drained := by
  have hopen : ¬ w.HalfClosed := fun hclosed => Bool.false_ne_true (h.closed hclosed).2.1
  have hnone : .shutdownInLoop ∉ queue := by
    intro hmem
    cases h.queued hmem
  refine ⟨h.coupled, h.state, ?_, .of_not_mem hnone (Nat.le_refl 1), ?_, h.drained,
    (absurd · hopen), h.writes⟩
  · rw [← h.stream]
    simp [Deferred.payload, CallerStage.unsent]
  · simp [hnone]

theorem queuesOther {f : Deferred} {caller' : CallerStage} (hf : f.isSend = false)
    (hpayload : f.payload = []) (h : Sound start payloads w queue caller drained)
    (hstored : caller'.hasStored = caller.hasStored) (hunsent : caller'.unsent = caller.unsent)
    (hqueued : .shutdownInLoop ∈ queue ++ [f] → caller' = .done) :
    Sound start payloads w (queue ++ [f]) caller' drained := by
  refine ⟨h.coupled, ?_, ?_, h.order.append (by simpa using hf), hqueued, h.drained, ?_, h.writes⟩
  · rw [hstored]
    exact h.state
  · rw [hunsent, ← h.stream]
    simp [hpayload]
  · intro hclosed
    obtain ⟨hempty, hback, hsends⟩ := h.closed hclosed
    refine ⟨hempty, hstored.trans hback, ?_⟩
    intro g hg
    rcases List.mem_append.mp hg with hg | hg
    · exact hsends g hg
    · rw [List.mem_singleton.mp hg]
      exact hf

end Sound

/-- The invariant of a state. -/
def IsSound (start : Conn C) (payloads : List (List Byte)) (s : CrossThread C) : Prop :=
  Sound start payloads s.world s.queue s.caller (match s.stage with | .events d => d | _ => false)

/-- While a send is in the queue the write side is open, so the `::write` of that send does not fail for good. -/
theorem Sound.healthy {w : Conn C} {queue : List Deferred} {caller : CallerStage} {drained : Bool}
    {payload : List Byte} {r : WriteResult}
    (h : Sound start payloads w (.sendInLoop payload :: queue) caller drained)
    (henvironment : (w.effects.contains .shutdownWrite || r.isHealthy) = true) :
    r.isHealthy = true := by
  rcases Bool.or_eq_true_iff.mp henvironment with hclosed | hhealthy
  · have hsend := (h.closed (List.contains_iff_mem.mp hclosed)).2.2 _ List.mem_cons_self
    cases hsend
  · exact hhealthy

theorem Moves.isSound {a : CrossStep} (h : s.IsSound start payloads)
    (henvironment : s.environment c a = true) (htest : s.testsAfterSends a = true)
    (hmoves : s.Moves c a s') : s'.IsSound start payloads := by
  obtain ⟨w, loop, stage, caller⟩ := s
  cases hmoves with
  | handleWrite r hstage =>
    cases hstage
    exact Sound.handleWrite h r
  | testState hstage =>
    cases hstage
    apply Sound.testState h
    simpa [testsAfterSends, or_iff_not_imp_left] using htest
  | handleRead r hstage =>
    cases hstage
    apply Sound.handleRead h r
    simpa [environment] using henvironment
  | swapFunctors hstage =>
    cases hstage
    have hqueue : queue ⟨w, loop.swapFunctors.1, .functors loop.pendingFunctors, caller⟩ =
        loop.pendingFunctors := List.append_nil _
    rw [IsSound, hqueue]
    exact h
  | runFunctor r f rest hstage =>
    cases hstage
    cases f with
    | sendInLoop payload => exact Sound.runSend h (Sound.healthy h henvironment)
    | shutdownInLoop => exact Sound.runShutdown h
    | other => exact Sound.runOther h
  | functorsDone hstage =>
    cases hstage
    exact h
  | loadsSend payload rest hcaller =>
    cases hcaller
    exact Sound.callerMoves h rfl rfl nofun
  | skipsSend payload rest hcaller hstate =>
    cases hcaller
    exact absurd (Sound.state h) hstate
  | loadsShutdown hcaller =>
    cases hcaller
    exact Sound.callerMoves h rfl rfl nofun
  | skipsShutdown hcaller hstate =>
    cases hcaller
    exact absurd (Sound.state h) hstate
  | callerStores hcaller =>
    cases hcaller
    exact Sound.callerStores h
  | queuesSend payload rest hcaller =>
    cases hcaller
    rw [IsSound, queue_queueInLoop]
    exact Sound.queuesSend h
  | queuesShutdown hcaller =>
    cases hcaller
    rw [IsSound, queue_queueInLoop]
    exact Sound.queuesOther rfl rfl h rfl rfl fun _ => rfl
  | otherQueues =>
    rw [IsSound, queue_queueInLoop]
    apply Sound.queuesOther rfl rfl h rfl rfl
    intro hmem
    rcases List.mem_append.mp hmem with hmem | hmem
    · exact Sound.queued h hmem
    · cases List.mem_singleton.mp hmem

/-- In the runs in which `handleWrite` finds `kDisconnecting` only with no `sendInLoop` in the queue, the half-close comes behind every byte and no `::write` comes behind the half-close. -/
theorem sends_first
    (h : (machine c start payloads).ReachableVia
      (fun s a => (s.environment c a && s.testsAfterSends a) = true) s) :
    s.SendsFirst start payloads := by
  have hsound : s.IsSound start payloads := by
    refine h.invariant (P := IsSound start payloads) ?_ ?_
    · intro s hs
      obtain ⟨hopen, rfl⟩ := hs
      exact hopen.sound
    · intro s a s' _ hguard hstep hsound
      obtain ⟨henvironment, htest⟩ := Bool.and_eq_true_iff.mp hguard
      exact (step_moves hstep).isSound hsound henvironment htest
  refine ⟨?_, Sound.writes hsound⟩
  intro hclosed
  obtain ⟨hempty, hstored, hsends⟩ := Sound.closed hsound hclosed
  have hnothing : s.queue.flatMap Deferred.payload = [] := by
    rw [List.flatMap_eq_nil_iff]
    intro f hf
    have hsend := hsends f hf
    cases f with
    | sendInLoop payload => cases hsend
    | _ => rfl
  have hsent : s.caller.unsent = [] := by
    cases hcaller : s.caller with
    | calls rest | sends payload rest =>
      rw [hcaller] at hstored
      cases hstored
    | _ => rfl
  have hstream := Sound.stream hsound
  rw [hempty, hnothing, hsent] at hstream
  simpa using hstream

/-- The send is run before the drain of the earlier bytes. -/
theorem sends_first_backlog :
    let fresh : Conn Unit :=
      ⟨.new 7 false false 65536, ⟨fun _ => none, fun _ => none, []⟩, []⟩
    let start : Conn Unit := (fresh.connectEstablished ()).send () [1, 2] (.accepted 1)
    let steps : List CrossStep :=
      [.callerLoads, .callerQueues, .callerLoads, .callerStores, .swapFunctors,
        .runFunctor (.accepted 5), .functorsDone, .handleWrite (.accepted 5), .testState,
        .callerQueues]
    ∃ s, ((machine () start [[3]]).restrict fun s a =>
        (s.environment () a && s.testsAfterSends a) = true).run
          ⟨start, .new, .events false, .calls [[3]]⟩ steps = some s ∧
      s.world.HalfClosed ∧ s.world.wire = [1, 2, 3] := by
  intro fresh start steps
  have hopen : Open start := by
    refine ⟨by decide +kernel, ?_, by unfold Conn.HalfClosed; decide +kernel⟩
    exact iff_of_true (by decide +kernel) (by decide +kernel)
  have hend : (((machine () start [[3]]).restrict fun s a =>
      (s.environment () a && s.testsAfterSends a) = true).run
        ⟨start, .new, .events false, .calls [[3]]⟩ steps).map
      (fun s => s.world.effects.contains .shutdownWrite) = some true := by decide +kernel
  obtain ⟨s, hrun, hclosed⟩ := Option.map_eq_some_iff.mp hend
  have hfirst := sends_first (Machine.ReachableVia.run (.init ⟨hopen, rfl⟩) hrun)
  have hclosed := List.contains_iff_mem.mp hclosed
  exact ⟨s, hrun, hclosed, (hfirst.1 hclosed).trans (by decide +kernel)⟩

end LTMuduo.CrossThread
