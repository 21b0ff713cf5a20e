import LTMuduo.Connection.LoopThread

/-!
# The log of a connection

The functions of a connection only append to its effects, and none of them looks at what is there. So a call that starts with an empty log does what the same call does in the middle of a run.
-/

namespace LTMuduo

namespace Conn

variable {C : Type*} (log : List Effect) (w : Conn C) (c : C)

/-- The connection with earlier effects in front of its own. -/
def logged : Conn C := { w with effects := log ++ w.effects }

@[simp] theorem logged_conn : (w.logged log).conn = w.conn := rfl
@[simp] theorem logged_poller : (w.logged log).poller = w.poller := rfl
@[simp] theorem logged_effects : (w.logged log).effects = log ++ w.effects := rfl

theorem logged_logged (log' : List Effect) : (w.logged log').logged log = w.logged (log ++ log') := by
  rw [logged, logged, logged, List.append_assoc]

@[simp] theorem emit_logged (e : Effect) : (w.logged log).emit e = (w.emit e).logged log := by
  rw [emit, emit, logged, logged, List.append_assoc]

@[simp] theorem setState_logged (state : StateE) :
    (w.logged log).setState state = (w.setState state).logged log := rfl

@[simp] theorem disableAll_logged : (w.logged log).disableAll c = (w.disableAll c).logged log := rfl

@[simp] theorem disableWriting_logged :
    (w.logged log).disableWriting c = (w.disableWriting c).logged log := rfl

@[simp] theorem retrieveOutput_logged (len : Nat) :
    (w.logged log).retrieveOutput len = (w.retrieveOutput len).logged log := rfl

@[simp] theorem pending_logged : (w.logged log).pending = w.pending := rfl

@[simp] theorem connectionCallback_logged :
    (w.logged log).connectionCallback = w.connectionCallback.logged log := emit_logged ..

@[simp] theorem queueWriteComplete_logged :
    (w.logged log).queueWriteComplete = w.queueWriteComplete.logged log := by
  simp only [queueWriteComplete, logged_conn, emit_logged, apply_ite (logged log)]

@[simp] theorem queueHighWaterMark_logged (remaining : Nat) :
    (w.logged log).queueHighWaterMark remaining = (w.queueHighWaterMark remaining).logged log := by
  simp only [queueHighWaterMark, logged_conn, emit_logged, apply_ite (logged log)]

@[simp] theorem bufferOutput_logged (rest : List Byte) :
    (w.logged log).bufferOutput c rest = (w.bufferOutput c rest).logged log := by
  let buffered : Conn C := { w with conn.outputBuffer := w.conn.outputBuffer.append rest }
  change (if !buffered.isWriting then (buffered.enableWriting c).logged log
    else buffered.logged log) = _
  exact (apply_ite (logged log) _ _ _).symm

@[simp] theorem bufferRest_logged (data : List Byte) (sent : Sent) :
    (w.logged log).bufferRest c data sent = (w.bufferRest c data sent).logged log := by
  simp only [bufferRest, queueHighWaterMark_logged, bufferOutput_logged, apply_ite (logged log)]

theorem sendDirectly_logged (data : List Byte) (r : WriteResult) :
    (w.logged log).sendDirectly data r =
      ((w.sendDirectly data r).1.logged log, (w.sendDirectly data r).2) := by
  have hdirect : (w.logged log).writesDirectly = w.writesDirectly := rfl
  unfold sendDirectly
  rw [hdirect]
  cases w.writesDirectly with
  | false => simp
  | true =>
    cases r with
    | accepted n => simp [apply_ite (logged log)]
    | failed errno => simp

@[simp] theorem sendInLoop_logged (data : List Byte) (r : WriteResult) :
    (w.logged log).sendInLoop c data r = (w.sendInLoop c data r).logged log := by
  simp only [sendInLoop, logged_conn, sendDirectly_logged, bufferRest_logged,
    apply_ite (logged log)]

theorem send_logged (buf : List Byte) (r : WriteResult) :
    (w.logged log).send c buf r = (w.send c buf r).logged log := by
  simp only [send, logged_conn, sendInLoop_logged, apply_ite (logged log)]

@[simp] theorem shutdownInLoop_logged :
    (w.logged log).shutdownInLoop = w.shutdownInLoop.logged log := by
  have hwriting : (w.logged log).isWriting = w.isWriting := rfl
  simp only [shutdownInLoop, hwriting, emit_logged, apply_ite (logged log)]

theorem shutdown_logged : (w.logged log).shutdown = w.shutdown.logged log := by
  simp only [shutdown, logged_conn, setState_logged, shutdownInLoop_logged, apply_ite (logged log)]

theorem connectEstablished_logged :
    (w.logged log).connectEstablished c = (w.connectEstablished c).logged log := by
  let tied : Conn C := { w.setState .kConnected with conn.channel.tied := true }
  exact connectionCallback_logged log (tied.enableReading c)

@[simp] theorem handleClose_logged :
    (w.logged log).handleClose c = (w.handleClose c).logged log := by
  rw [handleClose, setState_logged, disableAll_logged, connectionCallback_logged]
  rfl

theorem connectDestroyed_logged :
    (w.logged log).connectDestroyed c = (w.connectDestroyed c).logged log := by
  simp only [connectDestroyed, logged_conn, setState_logged, disableAll_logged,
    connectionCallback_logged, apply_ite (logged log)]

theorem handleRead_logged (r : ReadvResult) :
    (w.logged log).handleRead c r = ((w.handleRead c r).1.logged log, (w.handleRead c r).2) := by
  unfold handleRead
  dsimp only [logged_conn]
  split
  · exact congrArg (·, false) (emit_logged log { w with conn.inputBuffer := _ } .messageCallback)
  · split
    · exact congrArg (·, true) (handleClose_logged log { w with conn.inputBuffer := _ } c)
    · rfl

theorem handleWriteDrain_logged (r : WriteResult) :
    (w.logged log).handleWriteDrain c r =
      ((w.handleWriteDrain c r).1.logged log, (w.handleWriteDrain c r).2) := by
  by_cases hwriting : w.isWriting = true
  · rw [handleWriteDrain_eq w c r hwriting, handleWriteDrain_eq (w.logged log) c r hwriting]
    simp only [pending_logged, emit_logged, retrieveOutput_logged, disableWriting_logged,
      queueWriteComplete_logged]
    split
    · rfl
    · split <;> rfl
  · have hoff : w.isWriting = false := by simpa using hwriting
    rw [handleWriteDrain_of_not_writing w c r hoff,
      handleWriteDrain_of_not_writing (w.logged log) c r hoff]

theorem handleWriteFinish_logged :
    (w.logged log).handleWriteFinish = w.handleWriteFinish.logged log := by
  simp only [handleWriteFinish, logged_conn, shutdownInLoop_logged, apply_ite (logged log)]

theorem handleWrite_logged (r : WriteResult) :
    (w.logged log).handleWrite c r = (w.handleWrite c r).logged log := by
  simp only [handleWrite, handleWriteDrain_logged, handleWriteFinish_logged,
    apply_ite (logged log)]

end Conn

namespace LoopThread

variable {C : Type*} (log : List Effect) (s : LoopThread C) {c : C}

def logged : LoopThread C := { s with world := s.world.logged log }

theorem logged_logged (log' : List Effect) :
    (s.logged log').logged log = s.logged (log ++ log') := by
  rw [logged, logged, logged, Conn.logged_logged]

theorem map_logged_ite {P : Prop} [Decidable P] {t t' : LoopThread C} (h : t' = t.logged log) :
    (if P then some t' else none) = (if P then some t else none).map (logged log) := by
  split
  · exact congrArg some h
  · rfl

/-- A step does not depend on what was logged before it. -/
theorem step_logged (call : LoopCall C) :
    step c (s.logged log) call = (step c s call).map (logged log) := by
  cases call with
  | connectEstablished =>
    exact map_logged_ite log (congrArg s.onWorld (s.world.connectEstablished_logged log c))
  | send buf r => exact congrArg (some <| s.onWorld ·) (s.world.send_logged log c buf r)
  | shutdown => exact congrArg (some <| s.onWorld ·) (s.world.shutdown_logged log)
  | retrieveInput len => rfl
  | handleRead r =>
    refine map_logged_ite log ?_
    change LoopThread.mk ((s.world.logged log).handleRead c r).1
      (if ((s.world.logged log).handleRead c r).2 then some .closeCallback else none) = _
    rw [Conn.handleRead_logged]
    rfl
  | handleWrite r =>
    exact map_logged_ite log (congrArg s.onWorld (s.world.handleWrite_logged log c r))
  | handleClose =>
    exact map_logged_ite log (congrArg (LoopThread.mk · _) (s.world.handleClose_logged log c))
  | handleError => exact map_logged_ite log rfl
  | connectDestroyed =>
    exact map_logged_ite log (congrArg (LoopThread.mk · _) (s.world.connectDestroyed_logged log c))
  | resume =>
    obtain ⟨w, resume⟩ := s
    match resume with
    | none => rfl
    | some .closeCallback =>
      exact congrArg (fun w' : Conn C => some (LoopThread.mk w' none))
        (w.emit_logged log .closeCallback)
    | some .removeChannel => rfl
  | otherChannels poller => rfl

end LoopThread

end LTMuduo
