import LTMuduo.Connection.LoopThread

/-!
# The callbacks of the output

`writeCompleteCallback_` and `highWaterMarkCallback_` are handed to the loop in two functions, with three different tests. `due` says what they come to: a step hands over the first when its `::write` succeeds and leaves nothing behind, and the second when the backlog reaches the mark from below. Both laws of the runs are read off it.
-/

namespace LTMuduo

namespace Effect

/-- The callback that is handed to the loop. -/
def callback : Effect → Option Callback
  | .queueInLoop f => some f
  | _ => none

/-- A `::write` that has not failed. -/
def succeeds : Effect → Bool
  | .sendInLoop _ (some (.accepted _)) => true
  | .handleWrite _ (.accepted _) => true
  | _ => false

theorem succeeds_of_taken (r : WriteResult) {data : List Byte} (h : r.taken data ≠ []) :
    (handleWrite (r.taken data) r).succeeds = true ∧
      (sendInLoop data (some r)).succeeds = true := by
  cases r with
  | accepted n => exact ⟨rfl, rfl⟩
  | failed errno logged => exact absurd rfl h

end Effect

namespace Conn

variable {C : Type*} (w : Conn C) (c : C)

/-- `outputBuffer_.readableBytes()`. -/
def backlog : Nat := w.conn.outputBuffer.readableBytes

/-- What the user has set: the two callbacks and the mark. -/
def settings : Bool × Bool × Nat :=
  (w.conn.writeCompleteCallback, w.conn.highWaterMarkCallback, w.conn.highWaterMark)

def callbacks (effects : List Effect) : List Callback := effects.filterMap Effect.callback

/-- The callbacks that go to the loop in a step from `w` to `w'` with the effects `new`. -/
def due (w w' : Conn C) (new : List Effect) : List Callback :=
  (if w.conn.writeCompleteCallback ∧ new.any Effect.succeeds ∧ w'.backlog = 0 then
    [.writeComplete] else []) ++
  if w.conn.highWaterMarkCallback ∧ w.backlog < w.conn.highWaterMark ∧
      w.conn.highWaterMark ≤ w'.backlog then
    [.highWaterMark w'.backlog] else []

structure Notifies (w w' : Conn C) : Prop where
  settings : w'.settings = w.settings
  effects : ∃ new, w'.effects = w.effects ++ new ∧ callbacks new = w.due w' new

variable {w}

theorem callbacks_append (first second : List Effect) :
    callbacks (first ++ second) = callbacks first ++ callbacks second := List.filterMap_append

theorem length_pending : w.pending.length = w.backlog := ValidBuffer.length_content _

theorem pending_eq_nil_iff : w.pending = [] ↔ w.backlog = 0 :=
  w.readableBytes_eq_zero_iff.symm

theorem callbacks_cons (e : Effect) (effects : List Effect) :
    callbacks (e :: effects) = e.callback.toList ++ callbacks effects := by
  unfold callbacks
  rw [List.filterMap_cons]
  cases e.callback <;> rfl

theorem callbacks_ite (p : Prop) [Decidable p] (f : Callback) :
    callbacks (if p then [.queueInLoop f] else []) = if p then [f] else [] := by
  split <;> rfl

theorem succeeds_ite (p : Prop) [Decidable p] (f : Callback) :
    (if p then [Effect.queueInLoop f] else []).any Effect.succeeds = false := by
  split <;> rfl

theorem Notifies.still {w' : Conn C} (hbuffer : w'.conn.outputBuffer = w.conn.outputBuffer)
    (hsettings : w'.settings = w.settings) {new : List Effect}
    (heffects : w'.effects = w.effects ++ new)
    (hnew : ∀ e ∈ new, e.callback = none ∧ e.succeeds = false) : w.Notifies w' := by
  refine ⟨hsettings, new, heffects, ?_⟩
  have hcallbacks : callbacks new = [] := List.filterMap_eq_nil_iff.mpr fun e he => (hnew e he).1
  have hfails : new.any Effect.succeeds = false := by
    rw [List.any_eq_false]
    intro e he
    rw [(hnew e he).2]
    exact Bool.false_ne_true
  have hbacklog : w'.backlog = w.backlog := by
    unfold backlog
    rw [hbuffer]
  rw [hcallbacks, due, hfails, hbacklog, if_neg (by simp), if_neg (by omega)]
  rfl

theorem Notifies.refl (w : Conn C) : w.Notifies w :=
  .still rfl rfl (List.append_nil _).symm nofun

/-! ### `sendInLoop` -/

variable (w)

theorem backlog_bufferOutput (rest : List Byte) :
    (w.bufferOutput c rest).backlog = w.backlog + rest.length := by
  have happend : (w.conn.outputBuffer.append rest).readableBytes = w.backlog + rest.length := by
    rw [← ValidBuffer.length_content, ValidBuffer.content_append, List.length_append,
      ValidBuffer.length_content]
    rfl
  unfold bufferOutput
  dsimp only
  split
  · exact happend
  · exact happend

theorem bufferOutput_settings (rest : List Byte) :
    (w.bufferOutput c rest).settings = w.settings := by
  unfold bufferOutput
  dsimp only
  split <;> rfl

theorem bufferOutput_effects (rest : List Byte) :
    (w.bufferOutput c rest).effects = w.effects := by
  unfold bufferOutput
  dsimp only
  split <;> rfl

theorem queueHighWaterMark_effects (remaining : Nat) :
    (w.queueHighWaterMark remaining).effects = w.effects ++
      if w.conn.highWaterMarkCallback ∧ w.backlog < w.conn.highWaterMark ∧
          w.conn.highWaterMark ≤ w.backlog + remaining then
        [.queueInLoop (.highWaterMark (w.backlog + remaining))] else [] := by
  unfold queueHighWaterMark
  dsimp only
  split
  · rename_i hreached
    obtain ⟨hmark, hbelow, hset⟩ := hreached
    rw [if_pos ⟨hset, hbelow, hmark⟩]
    rfl
  · rename_i hreached
    rw [if_neg fun h => hreached ⟨h.2.2, h.2.1, h.1⟩, List.append_nil]

/-- The test for the mark is made before the append, and tells what the append comes to. -/
theorem bufferRest_due (data : List Byte) (sent : Sent)
    (hremaining : sent.remaining = (data.drop sent.nwrote).length) :
    let w' := w.bufferRest c data sent
    w'.settings = w.settings ∧
      w'.backlog = w.backlog + (if sent.faultError then 0 else sent.remaining) ∧
      w'.effects = w.effects ++
        if w.conn.highWaterMarkCallback ∧ w.backlog < w.conn.highWaterMark ∧
            w.conn.highWaterMark ≤ w'.backlog then
          [.queueInLoop (.highWaterMark w'.backlog)] else [] := by
  unfold bufferRest
  by_cases hrest : !sent.faultError ∧ 0 < sent.remaining
  · have hfault : sent.faultError = false := by simpa using hrest.1
    have hbacklog : ((w.queueHighWaterMark sent.remaining).bufferOutput c
        (data.drop sent.nwrote)).backlog = w.backlog + sent.remaining := by
      rw [backlog_bufferOutput, ← hremaining, backlog, (w.queued_queueHighWaterMark _).1]
      rfl
    rw [if_pos hrest, hfault]
    dsimp only
    rw [hbacklog, bufferOutput_effects, bufferOutput_settings, queueHighWaterMark_effects]
    refine ⟨?_, rfl, rfl⟩
    rw [settings, (w.queued_queueHighWaterMark _).1]
    rfl
  · rw [if_neg hrest]
    have hnothing : (if sent.faultError then 0 else sent.remaining) = 0 := by
      split
      · rfl
      · rename_i hfault
        have hfault : sent.faultError = false := by simpa using hfault
        simp only [hfault, Bool.not_false, true_and] at hrest
        omega
    refine ⟨rfl, by rw [hnothing]; rfl, ?_⟩
    rw [if_neg (by omega), List.append_nil]

theorem queueWriteComplete_effects :
    w.queueWriteComplete.effects = w.effects ++
      if w.conn.writeCompleteCallback then [.queueInLoop .writeComplete] else [] := by
  unfold queueWriteComplete
  split
  · rfl
  · exact (List.append_nil _).symm

/-- A direct write that has taken everything completes the backlog, which was empty. -/
theorem sendDirectly_due (data : List Byte) (r : WriteResult) :
    let result := w.sendDirectly data r
    let write := Effect.sendInLoop data (if w.writesDirectly then some r else none)
    result.1.conn = w.conn ∧
      result.1.effects = w.effects ++ write ::
        (if w.conn.writeCompleteCallback ∧ write.succeeds ∧ result.2.remaining = 0 then
          [.queueInLoop .writeComplete] else []) ∧
      (write.succeeds = true → w.backlog = 0 ∧ result.2.faultError = false) := by
  unfold sendDirectly
  by_cases hdirect : w.writesDirectly = true
  · have hempty : w.backlog = 0 := by
      rw [writesDirectly, Bool.and_eq_true, beq_iff_eq] at hdirect
      exact hdirect.2
    simp only [if_pos hdirect]
    cases r with
    | accepted n =>
      refine ⟨?_, ?_, fun _ => ⟨hempty, rfl⟩⟩
      · dsimp only
        split
        · exact (queued_queueWriteComplete _).1
        · rfl
      · dsimp only
        by_cases hall : data.length - min n data.length = 0
        · rw [if_pos hall, queueWriteComplete_effects, effects_emit, List.append_assoc]
          cases hset : w.conn.writeCompleteCallback <;> simp [Effect.succeeds, hall, hset]
        · rw [if_neg hall, effects_emit]
          simp [hall]
    | failed errno =>
      exact ⟨rfl, by rw [if_neg (by simp [Effect.succeeds])]; rfl, fun h => absurd h Bool.false_ne_true⟩
  · simp only [if_neg hdirect]
    exact ⟨rfl, by rw [if_neg (by simp [Effect.succeeds])]; rfl, fun h => absurd h Bool.false_ne_true⟩

theorem sendInLoop_notifies (data : List Byte) (r : WriteResult) :
    w.Notifies (w.sendInLoop c data r) := by
  unfold sendInLoop
  split
  · exact .refl w
  · obtain ⟨hconn, heffects, hsucceeds⟩ := w.sendDirectly_due data r
    obtain ⟨_, _, hremaining, _⟩ := w.sendDirectly_spec data r
    generalize w.sendDirectly data r = result at *
    obtain ⟨w₁, sent⟩ := result
    dsimp only at *
    obtain ⟨hsettings, hbacklog, hqueued⟩ := w₁.bufferRest_due c data sent hremaining
    have hsame : w₁.backlog = w.backlog := by
      unfold backlog
      rw [hconn]
    have hsettings : (w₁.bufferRest c data sent).settings = w.settings := by
      rw [hsettings, settings, settings, hconn]
    rw [hconn, hsame] at hqueued
    rw [hsame] at hbacklog
    refine ⟨hsettings, _, hqueued.trans (by rw [heffects, List.append_assoc]), ?_⟩
    have hwrite : (Effect.sendInLoop data (if w.writesDirectly then some r else none)).callback =
        none := rfl
    generalize Effect.sendInLoop data (if w.writesDirectly then some r else none) = write at *
    have hcompletes : (write.succeeds ∧ sent.remaining = 0) ↔
        (write.succeeds ∧ (w₁.bufferRest c data sent).backlog = 0) := by
      refine and_congr_right fun h => ?_
      obtain ⟨hempty, hfault⟩ := hsucceeds h
      rw [hbacklog, hempty, hfault]
      simp
    rw [due, callbacks_append, callbacks_ite, callbacks_cons, hwrite, callbacks_ite,
      List.any_append, List.any_cons, succeeds_ite, succeeds_ite, Bool.or_false, Bool.or_false]
    simp only [hcompletes]
    rfl

/-! ### `handleWrite` -/

theorem due_of_le {w' : Conn C} (hle : w'.backlog ≤ w.backlog) (new : List Effect) :
    w.due w' new =
      if w.conn.writeCompleteCallback ∧ new.any Effect.succeeds ∧ w'.backlog = 0 then
        [.writeComplete] else [] := by
  rw [due, if_neg (by omega : ¬ (_ ∧ w.backlog < w.conn.highWaterMark ∧ _)), List.append_nil]

theorem backlog_retrieveOutput (len : Nat) :
    (w.retrieveOutput len).backlog = w.backlog - len := by
  rw [← length_pending, ← length_pending, ← List.length_drop]
  exact congrArg List.length (ValidBuffer.content_retrieve _ _)

theorem handleWriteFinish_effects :
    w.handleWriteFinish.conn = w.conn ∧
      ∃ last, w.handleWriteFinish.effects = w.effects ++ last ∧ callbacks last = [] ∧
        last.any Effect.succeeds = false := by
  unfold handleWriteFinish
  split
  · refine ⟨w.shutdownInLoop_conn, _, w.shutdownInLoop_effects, ?_, ?_⟩ <;> split <;> rfl
  · exact ⟨rfl, [], (List.append_nil _).symm, rfl, rfl⟩

variable {w} in
theorem notifies_of_drained {rest : Conn C} {e : Effect} (hsettings : rest.settings = w.settings)
    (heffects : rest.effects = w.effects ++ [e]) (hcallback : e.callback = none)
    (hsucceeds : e.succeeds = true) (hempty : rest.backlog = 0) :
    w.Notifies rest.queueWriteComplete.handleWriteFinish := by
  have hqueued : rest.queueWriteComplete.conn = rest.conn := (queued_queueWriteComplete _).1
  have hset : rest.conn.writeCompleteCallback = w.conn.writeCompleteCallback :=
    congrArg Prod.fst hsettings
  obtain ⟨hconn, last, hlast, hsilent, hnone⟩ := rest.queueWriteComplete.handleWriteFinish_effects
  generalize rest.queueWriteComplete.handleWriteFinish = done at *
  have hzero : done.backlog = 0 := by
    rw [backlog, hconn, hqueued]
    exact hempty
  rw [queueWriteComplete_effects, heffects, hset, List.append_assoc, List.append_assoc] at hlast
  refine ⟨?_, _, hlast, ?_⟩
  · rw [settings, hconn, hqueued]
    exact hsettings
  · have hless : done.backlog ≤ w.backlog := by omega
    rw [w.due_of_le hless, callbacks_append, callbacks_append, callbacks_cons, callbacks_ite,
      hcallback, hsilent, List.append_nil, List.any_append, List.any_append, List.any_cons,
      succeeds_ite, hnone, hsucceeds, hzero]
    simp only [List.any_nil, Bool.or_false, and_true]
    rfl

theorem handleWrite_notifies (r : WriteResult) (hsettled : w.Settled) :
    w.Notifies (w.handleWrite c r) := by
  by_cases hwriting : w.isWriting = true
  · have hstate : w.conn.state ≠ .kDisconnected := by
      intro hdisconnected
      rw [hsettled.not_writing hdisconnected] at hwriting
      exact Bool.false_ne_true hwriting
    have hnonempty : w.backlog ≠ 0 := by
      rw [Ne, ← pending_eq_nil_iff]
      exact (hsettled.coupled hstate).mp hwriting
    unfold handleWrite
    rw [w.handleWriteDrain_eq c r hwriting]
    dsimp only
    set written := w.emit (.handleWrite (r.taken w.pending) r) with hwritten
    split
    · change w.Notifies written
      refine ⟨rfl, _, rfl, ?_⟩
      rw [w.due_of_le (show written.backlog ≤ w.backlog from Nat.le_refl _),
        if_neg fun h => hnonempty h.2.2]
      rfl
    · rename_i htaken
      have hsucceeds := (Effect.succeeds_of_taken r htaken).1
      set rest := written.retrieveOutput (r.taken w.pending).length with hrest
      have hless : rest.backlog ≤ w.backlog := by
        rw [hrest, backlog_retrieveOutput]
        exact Nat.sub_le _ _
      split
      · rename_i hempty
        change w.Notifies (rest.disableWriting c).queueWriteComplete.handleWriteFinish
        exact notifies_of_drained rfl rfl rfl hsucceeds (pending_eq_nil_iff.mp hempty)
      · rename_i hleft
        change w.Notifies rest
        refine ⟨rfl, [.handleWrite (r.taken w.pending) r], rfl, ?_⟩
        rw [due_of_le _ hless, if_neg fun h => hleft (pending_eq_nil_iff.mpr h.2.2)]
        rfl
  · rw [w.handleWrite_of_not_writing c r (by simpa using hwriting)]
    exact .refl w

/-! ### The other functions -/

theorem Notifies.emit {w w' : Conn C} (hbuffer : w'.conn.outputBuffer = w.conn.outputBuffer)
    (hsettings : w'.settings = w.settings) {e : Effect} (heffects : w'.effects = w.effects ++ [e])
    (hcallback : e.callback = none) (hsucceeds : e.succeeds = false) : w.Notifies w' := by
  refine .still hbuffer hsettings heffects fun e' he' => ?_
  rw [List.mem_singleton.mp he']
  exact ⟨hcallback, hsucceeds⟩

theorem shutdown_notifies : w.Notifies w.shutdown := by
  unfold shutdown
  split
  · have hconn := (w.setState .kDisconnecting).shutdownInLoop_conn
    refine .still (by rw [hconn]; rfl) (by rw [settings, hconn]; rfl)
      (w.setState .kDisconnecting).shutdownInLoop_effects fun e he => ?_
    split at he
    · cases he
    · rw [List.mem_singleton.mp he]
      exact ⟨rfl, rfl⟩
  · exact .refl w

theorem handleRead_notifies (r : ReadvResult) : w.Notifies (w.handleRead c r).1 := by
  unfold handleRead
  dsimp only
  split
  · exact .emit rfl rfl rfl rfl rfl
  · split
    · exact .emit rfl rfl rfl rfl rfl
    · exact .still rfl rfl (List.append_nil _).symm nofun

theorem connectDestroyed_notifies : w.Notifies (w.connectDestroyed c) := by
  unfold connectDestroyed
  split
  · exact .emit rfl rfl rfl rfl rfl
  · exact .refl w

end Conn

namespace LoopThread

variable {C : Type*} {c : C} {s s' t t' : LoopThread C} {call : LoopCall C}

theorem step_notifies (hsettled : s.world.Settled) (hstep : step c s call = some s') :
    s.world.Notifies s'.world := by
  cases call with
  | connectEstablished =>
    obtain ⟨_, hsome⟩ := Option.ite_none_right_eq_some.mp hstep
    cases hsome
    exact .emit rfl rfl rfl rfl rfl
  | send buf r =>
    cases hstep
    change s.world.Notifies (s.world.send c buf r)
    unfold Conn.send
    split
    · exact s.world.sendInLoop_notifies c buf r
    · exact .refl _
  | shutdown =>
    cases hstep
    exact s.world.shutdown_notifies
  | retrieveInput len =>
    cases hstep
    exact .still rfl rfl (List.append_nil _).symm nofun
  | handleRead r =>
    obtain ⟨_, hsome⟩ := Option.ite_none_right_eq_some.mp hstep
    cases hsome
    exact s.world.handleRead_notifies c r
  | handleWrite r =>
    obtain ⟨_, hsome⟩ := Option.ite_none_right_eq_some.mp hstep
    cases hsome
    exact s.world.handleWrite_notifies c r hsettled
  | handleClose =>
    obtain ⟨_, hsome⟩ := Option.ite_none_right_eq_some.mp hstep
    cases hsome
    exact .emit rfl rfl rfl rfl rfl
  | handleError =>
    obtain ⟨_, hsome⟩ := Option.ite_none_right_eq_some.mp hstep
    cases hsome
    exact .refl _
  | connectDestroyed =>
    obtain ⟨_, hsome⟩ := Option.ite_none_right_eq_some.mp hstep
    cases hsome
    exact s.world.connectDestroyed_notifies c
  | resume =>
    unfold step at hstep
    dsimp only at hstep
    split at hstep
    · cases hstep
      exact .emit rfl rfl rfl rfl rfl
    · cases hstep
      exact .still rfl rfl (List.append_nil _).symm nofun
    · cases hstep
  | otherChannels poller =>
    cases hstep
    exact .still rfl rfl (List.append_nil _).symm nofun

/-- What the laws need of the state: the coupling, and what the user has set. -/
structure Notifying (s : LoopThread C) (settings : Bool × Bool × Nat) : Prop where
  settled : s.world.Settled
  settings : s.world.settings = settings

variable {settings : Bool × Bool × Nat}

theorem Notifying.step (h : s.Notifying settings) (hstep : step c s call = some s') :
    s'.Notifying settings :=
  ⟨(step_change h.settled hstep).settled h.settled,
    (step_notifies h.settled hstep).settings.trans h.settings⟩

theorem Notifying.run (h : s.Notifying settings) {calls : List (LoopCall C)}
    (hrun : (machine c).run s calls = some s') : s'.Notifying settings :=
  Machine.run_preserves (P := fun t : LoopThread C => t.Notifying settings)
    (fun _ _ _ _ h hstep => h.step hstep) h hrun

/-! ### The high water mark -/

/-- The arguments of the `highWaterMarkCallback_` that went to the loop. -/
def marks (effects : List Effect) : List Nat :=
  (Conn.callbacks effects).filterMap fun
    | .highWaterMark backlog => some backlog
    | .writeComplete => none

/-- The backlog after a call that takes it from below the mark to the mark or above. -/
def crossings (c : C) (mark : Nat) (s : LoopThread C) (call : LoopCall C) : List Nat :=
  (step c s call).elim [] fun s' =>
    if s.world.backlog < mark ∧ mark ≤ s'.world.backlog then [s'.world.backlog] else []

/-- The call hands over the callback if it crosses the mark, with the backlog behind it as the argument. -/
def CrossingNotified (c : C) (mark : Nat) (s : LoopThread C) (call : LoopCall C)
    (s' : LoopThread C) : Prop :=
  ∃ new, s'.world.effects = s.world.effects ++ new ∧ marks new = crossings c mark s call

theorem marks_append (first second : List Effect) :
    marks (first ++ second) = marks first ++ marks second := by
  rw [marks, Conn.callbacks_append, List.filterMap_append]
  rfl

theorem Notifying.crossing {complete : Bool} {mark : Nat} (h : s.Notifying (complete, true, mark))
    (hstep : LoopThread.step c s call = some s') : CrossingNotified c mark s call s' := by
  obtain ⟨_, new, heffects, hcallbacks⟩ := step_notifies h.settled hstep
  have hsettings := h.settings
  simp only [Conn.settings, Prod.mk.injEq] at hsettings
  obtain ⟨_, hhigh, hmark⟩ := hsettings
  refine ⟨new, heffects, ?_⟩
  rw [marks, hcallbacks, crossings, hstep, Conn.due, hhigh, hmark, List.filterMap_append]
  simp only [true_and, Option.elim_some]
  split <;> split <;> rfl

theorem CrossingNotified.below {mark : Nat} (h : CrossingNotified c mark s call s')
    (hstep : step c s call = some s') (hnew : marks s'.world.effects ≠ marks s.world.effects) :
    s.world.backlog < mark := by
  obtain ⟨new, heffects, hmarks⟩ := h
  by_contra hreached
  rw [crossings, hstep, Option.elim_some, if_neg fun h => hreached h.1] at hmarks
  rw [heffects, marks_append, hmarks, List.append_nil] at hnew
  exact hnew rfl

/-- `highWaterMarkCallback_` goes to the loop once for each time the backlog reaches the mark from below, in the call that takes it there. -/
theorem notified_once_per_crossing (hfresh : s.Fresh)
    (hset : s.world.conn.highWaterMarkCallback = true) {calls : List (LoopCall C)}
    (hrun : (machine c).run s calls = some s') :
    let mark := s.world.conn.highWaterMark
    marks s'.world.effects = (machine c).collect (crossings c mark) s calls ∧
      (machine c).EveryStep (CrossingNotified c mark) s calls ∧
      ∀ pre call mid call' post t t' u u', calls = pre ++ call :: (mid ++ call' :: post) →
        (machine c).run s pre = some t → step c t call = some t' →
        marks t'.world.effects ≠ marks t.world.effects →
        (machine c).run t' mid = some u → step c u call' = some u' →
        marks u'.world.effects ≠ marks u.world.effects → u.world.backlog < mark := by
  intro mark
  have hstart : s.Notifying (s.world.conn.writeCompleteCallback, true, mark) := by
    refine ⟨hfresh.settled, ?_⟩
    rw [← hset]
    rfl
  refine ⟨?_, ?_, ?_⟩
  · have hnone : marks s.world.effects = [] := by
      obtain ⟨sockfd, writeComplete, highWater, mark, poller, hworld, _⟩ := hfresh
      rw [hworld]
      rfl
    have hledger := Machine.run_collect
      (P := fun t : LoopThread C => t.Notifying (s.world.conn.writeCompleteCallback, true, mark))
      (fun t => marks t.world.effects) (f := crossings c mark) ?_ hstart hrun
    · rw [hledger, hnone, List.nil_append]
    · intro t call t' h hstep
      obtain ⟨new, heffects, hmarks⟩ := h.crossing hstep
      refine ⟨h.step hstep, ?_⟩
      rw [heffects, marks_append, hmarks]
  · exact Machine.everyStep_of_invariant
      (I := fun t : LoopThread C => t.Notifying (s.world.conn.writeCompleteCallback, true, mark))
      (fun _ _ _ h hstep => ⟨h.crossing hstep, h.step hstep⟩) hstart
  · intro pre call mid call' post t t' u u' _ hpre hcall _ hmid hcall' hnotified
    have hbefore := (((hstart.run hpre).step hcall).run hmid)
    exact (hbefore.crossing hcall').below hcall' hnotified

/-- A rise to the mark, a drain to just below it, and a second rise. -/
theorem notified_once_per_crossing_twice :
    let s : LoopThread Unit :=
      ⟨⟨.new 7 false true 2, ⟨fun _ => none, fun _ => none, []⟩, []⟩, none⟩
    let calls : List (LoopCall Unit) :=
      [.connectEstablished, .send [1, 2, 3] (.accepted 1), .send [4] (.accepted 1),
        .handleWrite (.accepted 2), .send [5, 6] (.accepted 1)]
    ∃ s', (machine ()).run s calls = some s' ∧ marks s'.world.effects = [2, 3] := by
  intro s calls
  have hruns : ((machine ()).run s calls).isSome := by decide +kernel
  obtain ⟨s', hrun⟩ := Option.isSome_iff_exists.mp hruns
  refine ⟨s', hrun, ?_⟩
  rw [(notified_once_per_crossing ⟨7, false, true, 2, _, rfl, rfl⟩ rfl hrun).1]
  decide +kernel

/-! ### Completion -/

def completions (effects : List Effect) : Nat := (Conn.callbacks effects).count .writeComplete

/-- The bytes of all payloads that were accepted and not dropped. -/
def acceptedBytes (c : C) (s : LoopThread C) (calls : List (LoopCall C)) : Nat :=
  ((machine c).collect (fun t call => t.world.accepted call) s calls).length

theorem written_eq_accepted_iff {calls : List (LoopCall C)} (hfresh : s.Fresh)
    (hrun : (machine c).run s calls = some s') :
    s'.world.wire.length = acceptedBytes c s calls ↔ s'.world.backlog = 0 := by
  rw [acceptedBytes, ← run_stream hfresh hrun, List.length_append, Conn.length_pending]
  omega

theorem Notifying.completion {high : Bool} {mark : Nat} (h : s.Notifying (true, high, mark))
    (hstep : LoopThread.step c s call = some s') :
    ∃ new, s'.world.effects = s.world.effects ++ new ∧
      completions new = if new.any Effect.succeeds ∧ s'.world.backlog = 0 then 1 else 0 := by
  obtain ⟨_, new, heffects, hcallbacks⟩ := step_notifies h.settled hstep
  have hsettings := h.settings
  simp only [Conn.settings, Prod.mk.injEq] at hsettings
  obtain ⟨hcomplete, _⟩ := hsettings
  refine ⟨new, heffects, ?_⟩
  rw [completions, hcallbacks, Conn.due, hcomplete, List.count_append]
  simp only [true_and]
  split <;> split <;> rfl

theorem completions_append (first second : List Effect) :
    completions (first ++ second) = completions first + completions second := by
  rw [completions, Conn.callbacks_append, List.count_append]
  rfl

theorem succeeds_of_change {w w' : Conn C} (h : w.Change w' call) {new : List Effect}
    (heffects : w'.effects = w.effects ++ new) (hgrows : new.flatMap Effect.wire ≠ []) :
    new.any Effect.succeeds = true := by
  have hnew {effects : List Effect} (h : w'.effects = w.effects ++ effects) : new = effects :=
    List.append_cancel_left (heffects.symm.trans h)
  have hquietly {quiet : List Effect} (hquiet : Conn.Quiet quiet)
      (h : w'.effects = w.effects ++ quiet) : new.any Effect.succeeds = true := by
    rw [hnew h] at hgrows
    exact absurd hquiet.wire hgrows
  cases h with
  | quiet _ _ quiet hquiet hsame => exact hquietly hquiet hsame
  | sent buf r quiet hquiet _ _ hsent =>
    rw [hnew hsent] at hgrows ⊢
    rw [List.flatMap_cons, hquiet.wire, List.append_nil] at hgrows
    by_cases hdirect : w.writesDirectly = true
    · rw [if_pos hdirect] at hgrows ⊢
      rw [List.any_cons, (Effect.succeeds_of_taken r hgrows).2, Bool.true_or]
    · rw [if_neg hdirect] at hgrows
      exact absurd rfl hgrows
  | drained r quiet hquiet _ _ hdrained =>
    rw [hnew hdrained] at hgrows ⊢
    have hshut : (if w.conn.state = .kDisconnecting ∧ w'.pending = [] then
        [Effect.shutdownWrite] else []).flatMap Effect.wire = [] := by
      split <;> rfl
    rw [List.flatMap_append, List.flatMap_cons, hquiet.wire, hshut, List.append_nil,
      List.append_nil] at hgrows
    rw [List.cons_append, List.any_cons, (Effect.succeeds_of_taken r hgrows).1, Bool.true_or]
  | shutdown _ _ hshutdown =>
    rw [hnew hshutdown] at hgrows
    refine absurd ?_ hgrows
    split <;> rfl
  | disconnected _ _ quiet hquiet hsame => exact hquietly hquiet hsame

/-- A call that puts bytes on the socket and leaves none behind is a completion. -/
theorem Notifying.completes {high : Bool} {mark : Nat} (h : s.Notifying (true, high, mark))
    (hstep : LoopThread.step c s call = some s')
    (hgrows : s.world.wire.length < s'.world.wire.length) (hempty : s'.world.backlog = 0) :
    completions s.world.effects < completions s'.world.effects := by
  obtain ⟨new, heffects, hnew⟩ := h.completion hstep
  have hwire := Conn.wire_of_effects heffects
  have hsucceeds : new.any Effect.succeeds = true := by
    refine succeeds_of_change (step_change h.settled hstep) heffects ?_
    intro hnothing
    rw [hwire, hnothing, List.append_nil] at hgrows
    exact Nat.lt_irrefl _ hgrows
  rw [if_pos ⟨hsucceeds, hempty⟩] at hnew
  rw [heffects, completions_append, hnew]
  exact Nat.lt_succ_self _

theorem Notifying.bytes (h : s.Notifying settings) (hstep : LoopThread.step c s call = some s') :
    s'.world.wire.length + s'.world.backlog =
      s.world.wire.length + s.world.backlog + (s.world.accepted call).length := by
  have hstream := congrArg List.length (step_change h.settled hstep).stream
  simpa only [List.length_append, Conn.length_pending] using hstream

theorem Notifying.completions_le_step (h : s.Notifying settings)
    (hstep : LoopThread.step c s call = some s') :
    completions s.world.effects ≤ completions s'.world.effects := by
  obtain ⟨_, new, heffects, _⟩ := step_notifies h.settled hstep
  rw [heffects, completions_append]
  exact Nat.le_add_right _ _

theorem Notifying.completions_le (h : s.Notifying settings) {calls : List (LoopCall C)}
    (hrun : (machine c).run s calls = some s') :
    completions s.world.effects ≤ completions s'.world.effects := by
  refine (Machine.run_preserves (P := fun t : LoopThread C => t.Notifying settings ∧
    completions s.world.effects ≤ completions t.world.effects) ?_ ⟨h, Nat.le_refl _⟩ hrun).2
  intro t call t' _ ht hstep
  exact ⟨ht.1.step hstep, Nat.le_trans ht.2 (ht.1.completions_le_step hstep)⟩

/-- A backlog that is written while nothing more is accepted is completed. -/
theorem Notifying.completed_later {high : Bool} {mark : Nat} (h : s.Notifying (true, high, mark))
    {calls : List (LoopCall C)} (hrun : (machine c).run s calls = some s')
    (hnothing : (machine c).collect (fun t call => t.world.accepted call) s calls = [])
    (hempty : s'.world.backlog = 0) :
    s.world.backlog = 0 ∨ completions s.world.effects < completions s'.world.effects := by
  induction calls generalizing s with
  | nil =>
    cases hrun
    exact Or.inl hempty
  | cons call calls ih =>
    rw [Machine.run_cons] at hrun
    obtain ⟨t, hstep, hrest⟩ := Option.bind_eq_some_iff.mp hrun
    rw [Machine.collect_cons _ hstep, List.append_eq_nil_iff] at hnothing
    obtain ⟨hnone, hnothing⟩ := hnothing
    have hbytes := h.bytes hstep
    rw [hnone, List.length_nil] at hbytes
    rcases ih (h.step hstep) hrest hnothing with hdrained | hlater
    · by_cases hbefore : s.world.backlog = 0
      · exact Or.inl hbefore
      · have hnow := h.completes hstep (by omega) hdrained
        exact Or.inr (Nat.lt_of_lt_of_le hnow ((h.step hstep).completions_le hrest))
    · exact Or.inr (Nat.lt_of_le_of_lt (h.completions_le_step hstep) hlater)

/-- A call hands over one `writeCompleteCallback_` if its `::write` succeeds and leaves everything accepted written, and none otherwise; so a payload that is accepted is completed by the time everything is written. -/
theorem completed_iff_drained (hfresh : s.Fresh) (hset : s.world.conn.writeCompleteCallback = true)
    {calls : List (LoopCall C)} (hrun : (machine c).run s calls = some t)
    (hstep : step c t call = some t') :
    (∃ new, t'.world.effects = t.world.effects ++ new ∧
      completions new =
        if new.any Effect.succeeds ∧
          t'.world.wire.length = acceptedBytes c s (calls ++ [call]) then 1 else 0) ∧
    (t.world.accepted call ≠ [] → ∀ more s', (machine c).run t' more = some s' →
      (machine c).collect (fun u call => u.world.accepted call) t' more = [] →
      s'.world.wire.length = acceptedBytes c s (calls ++ call :: more) →
      completions t.world.effects < completions s'.world.effects) := by
  have hstart : s.Notifying (true, s.world.conn.highWaterMarkCallback, s.world.conn.highWaterMark) := by
    refine ⟨hfresh.settled, ?_⟩
    rw [← hset]
    rfl
  have hbefore := hstart.run hrun
  have hthere := Machine.run_concat hrun hstep
  constructor
  · obtain ⟨new, heffects, hnew⟩ := hbefore.completion hstep
    refine ⟨new, heffects, ?_⟩
    simp only [hnew, written_eq_accepted_iff hfresh hthere]
  · intro haccepted more s' hmore hnothing hwritten
    have hall : (machine c).run s (calls ++ call :: more) = some s' := by
      rw [List.append_cons, Machine.run_append, hthere]
      exact hmore
    have hempty := (written_eq_accepted_iff hfresh hall).mp hwritten
    have hafter := hbefore.step hstep
    rcases hafter.completed_later hmore hnothing hempty with hdrained | hlater
    · have hpos := List.length_pos_iff.mpr haccepted
      have hbytes := hbefore.bytes hstep
      have hnow := hbefore.completes hstep (by omega) hdrained
      exact Nat.lt_of_lt_of_le hnow (hafter.completions_le hmore)
    · exact Nat.lt_of_le_of_lt (hbefore.completions_le_step hstep) hlater

/-- A direct write in part, a send onto the backlog, and the drain of both. -/
theorem completed_iff_drained_backlog :
    let s : LoopThread Unit :=
      ⟨⟨.new 7 true false 65536, ⟨fun _ => none, fun _ => none, []⟩, []⟩, none⟩
    let calls : List (LoopCall Unit) :=
      [.connectEstablished, .send [1, 2, 3] (.accepted 1), .send [4] (.accepted 1)]
    ∃ t t', (machine ()).run s calls = some t ∧ step () t (.handleWrite (.accepted 3)) = some t' ∧
      ∃ new, t'.world.effects = t.world.effects ++ new ∧
        completions new =
          if new.any Effect.succeeds ∧ t'.world.wire.length =
            acceptedBytes () s (calls ++ [.handleWrite (.accepted 3)]) then 1 else 0 := by
  intro s calls
  have hruns : (((machine ()).run s calls).bind fun t =>
      step () t (.handleWrite (.accepted 3))).isSome := by decide +kernel
  obtain ⟨t', hboth⟩ := Option.isSome_iff_exists.mp hruns
  obtain ⟨t, hrun, hstep⟩ := Option.bind_eq_some_iff.mp hboth
  exact ⟨t, t', hrun, hstep,
    (completed_iff_drained ⟨7, true, false, 65536, _, rfl, rfl⟩ rfl hrun hstep).1⟩

end LoopThread

end LTMuduo
