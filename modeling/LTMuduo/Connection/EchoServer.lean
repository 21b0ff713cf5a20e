import LTMuduo.Connection.Drain
import LTMuduo.Connection.Works

/-!
# The echo server

The server of `testserver.cc`, seen from one of its connections: `onMessage` takes all that has been read, sends it back and shuts down. So a connection gets back its first message, in one piece and nothing else, and its write side is closed behind it.
-/

namespace LTMuduo

variable {C : Type*}

/-- `onMessage`, which the message callback of each connection is. -/
def Conn.onMessage (w : Conn C) (c : C) (write : WriteResult) : Conn C :=
  let (inputBuffer, msg) := w.conn.inputBuffer.retrieveAllAsString
  let w := { w with conn.inputBuffer := inputBuffer }
  (w.send c msg write).shutdown

/-- What can happen to a connection of the server. The user code is in `handleRead`; `write` is the answer to the direct `::write` of its `send`. -/
inductive EchoCall (C : Type*)
  | connectEstablished
  | handleRead (read : ReadvResult) (write : WriteResult)
  | handleWrite (r : WriteResult)
  | handleClose
  | handleError
  | connectDestroyed
  | resume
  | otherChannels (poller : EPollPoller C)

namespace EchoCall

/-- The function of the connection. -/
def call : EchoCall C → LoopCall C
  | .connectEstablished => .connectEstablished
  | .handleRead read _ => .handleRead read
  | .handleWrite r => .handleWrite r
  | .handleClose => .handleClose
  | .handleError => .handleError
  | .connectDestroyed => .connectDestroyed
  | .resume => .resume
  | .otherChannels poller => .otherChannels poller

/-- The callback of the user in a `handleRead` that has read something. -/
def react (c : C) (s t : LoopThread C) : EchoCall C → LoopThread C
  | .handleRead read write =>
    if 0 < (s.world.conn.inputBuffer.readFd read).2 then
      t.onWorld (t.world.onMessage c write)
    else t
  | _ => t

end EchoCall

namespace EchoServer

variable (c : C)

def step (s : LoopThread C) (a : EchoCall C) : Option (LoopThread C) :=
  (LoopThread.step c s a.call).map fun t => a.react c s t

def machine : Machine (LoopThread C) (EchoCall C) where
  init := LoopThread.Fresh
  step := step c

/-- The messages that are read while the connection is connected, each with the answer to the direct `::write` of its echo. -/
def served (s : LoopThread C) : EchoCall C → List (List Byte × WriteResult)
  | .handleRead read write =>
    let msg := Buffer.deliveredBytes (s.world.conn.inputBuffer.readv read)
    if s.world.conn.state = .kConnected ∧ msg ≠ [] then [(msg, write)] else []
  | _ => []

/-- What `sendInLoop` keeps of a message: nothing, if behind the log line of its failed direct `::write` it meets a fault. -/
def echo (msg : List Byte) (write : WriteResult) : List Byte := if write.Faults then [] else msg

end EchoServer

/-! ### The input buffer -/

namespace Conn

variable {w w' : Conn C} {c : C}

theorem sendInLoop_inputBuffer (w : Conn C) (data : List Byte) (r : WriteResult) :
    (w.sendInLoop c data r).conn.inputBuffer = w.conn.inputBuffer := by
  have hdirect : (w.sendDirectly data r).1.conn = w.conn := (w.sendDirectly_spec data r).1.1
  have hbuffer (w : Conn C) (rest : List Byte) :
      (w.bufferOutput c rest).conn.inputBuffer = w.conn.inputBuffer := by
    unfold bufferOutput
    dsimp only
    split <;> rfl
  unfold sendInLoop bufferRest
  split
  · rfl
  · dsimp only
    split
    · rw [hbuffer, (queued_queueHighWaterMark _ _).1, hdirect]
    · rw [hdirect]

theorem send_inputBuffer (w : Conn C) (buf : List Byte) (r : WriteResult) :
    (w.send c buf r).conn.inputBuffer = w.conn.inputBuffer := by
  unfold send
  split
  · exact w.sendInLoop_inputBuffer buf r
  · rfl

theorem shutdown_inputBuffer (w : Conn C) : w.shutdown.conn.inputBuffer = w.conn.inputBuffer := by
  unfold shutdown shutdownInLoop
  split
  · split <;> rfl
  · rfl

theorem handleWrite_inputBuffer (w : Conn C) (r : WriteResult) :
    (w.handleWrite c r).conn.inputBuffer = w.conn.inputBuffer := by
  have hfinish (w : Conn C) : w.handleWriteFinish.conn.inputBuffer = w.conn.inputBuffer := by
    unfold handleWriteFinish shutdownInLoop
    split
    · split <;> rfl
    · rfl
  have hdrain : (w.handleWriteDrain c r).1.conn.inputBuffer = w.conn.inputBuffer := by
    unfold handleWriteDrain queueWriteComplete
    dsimp only
    repeat' split
    all_goals rfl
  unfold handleWrite
  generalize w.handleWriteDrain c r = result at *
  obtain ⟨w₁, drained⟩ := result
  dsimp only at *
  split
  · rw [hfinish, hdrain]
  · exact hdrain

theorem handleRead_inputBuffer (w : Conn C) (r : ReadvResult) :
    (w.handleRead c r).1.conn.inputBuffer = (w.conn.inputBuffer.readFd r).1 := by
  unfold handleRead
  dsimp only
  split
  · rfl
  · split <;> rfl

end Conn

namespace EchoServer

open Conn

variable {c : C} {s s' t : LoopThread C} {a : EchoCall C}

/-! ### The functions, as calls of the loop thread -/

theorem run_onMessage (t : LoopThread C) (write : WriteResult) :
    (LoopThread.machine c).run t [.retrieveInput t.world.conn.inputBuffer.readableBytes,
      .send t.world.conn.inputBuffer.content write, .shutdown] =
      some (t.onWorld (t.world.onMessage c write)) := by
  rw [Conn.onMessage, ValidBuffer.retrieveAllAsString_eq]
  rfl

/-- A step, as calls of the loop thread. -/
def calls (s : LoopThread C) : EchoCall C → List (LoopCall C)
  | .handleRead read write =>
    let (inputBuffer, n) := s.world.conn.inputBuffer.readFd read
    if 0 < n then
      [.handleRead read, .retrieveInput inputBuffer.readableBytes, .send inputBuffer.content write,
        .shutdown]
    else [.handleRead read]
  | a => [a.call]

theorem step_run (hstep : step c s a = some s') :
    (LoopThread.machine c).run s (calls s a) = some s' := by
  obtain ⟨t, hcall, rfl⟩ := Option.map_eq_some_iff.mp hstep
  have hone : (LoopThread.machine c).run s [a.call] = some t := by
    rw [Machine.run_cons]
    exact congrArg (Option.bind · _) hcall
  cases a with
  | handleRead read write =>
    have hinput : t.world.conn.inputBuffer = (s.world.conn.inputBuffer.readFd read).1 := by
      obtain ⟨_, hsome⟩ := Option.ite_none_right_eq_some.mp hcall
      cases hsome
      exact handleRead_inputBuffer s.world read
    unfold calls EchoCall.react
    dsimp only
    split
    · have huser := run_onMessage (c := c) t write
      rw [hinput] at huser
      rw [← List.singleton_append, Machine.run_append]
      exact (congrArg (Option.bind · _) hone).trans huser
    · exact hone
  | _ => exact hone

/-- The connection of the echo server is a connection whose user makes three calls for each message. -/
def onLoop (c : C) : Machine.Refinement (machine c) (LoopThread.machine c) where
  abs := id
  acts := calls
  init _ hfresh := hfresh
  step _ _ _ _ hstep := step_run hstep

theorem reachable_closing (hreach : (machine c).Reachable s) : s.world.Closing :=
  LoopThread.reachable_closing ((onLoop c).reachable hreach)

/-! ### What a connection has sent -/

/-- At most one message has been served, and the output is its echo. -/
structure Serves (msgs : List (List Byte × WriteResult)) (w : Conn C) : Prop where
  input : w.conn.inputBuffer.content = []
  stage : msgs = [] ∧ (w.conn.state ≠ .kDisconnecting ∧ ¬ w.HalfClosed) ∧
      w.wire ++ w.pending = [] ∨
    ∃ msg write, msgs = [(msg, write)] ∧ msg ≠ [] ∧ w.wire ++ w.pending = echo msg write ∧
      (w.conn.state = .kDisconnecting ∨ w.conn.state = .kDisconnected)

variable {msgs : List (List Byte × WriteResult)} {w w' : Conn C} {call : LoopCall C}

/-- What a call that the user does not make keeps. -/
theorem change_calm (h : w.Change w' call) (hsend : ∀ buf r, call ≠ .send buf r)
    (hshutdown : call ≠ .shutdown) :
    w'.wire ++ w'.pending = w.wire ++ w.pending ∧
      (w'.conn.state = w.conn.state ∨ w'.conn.state = .kDisconnected ∨
        w.conn.state = .kConnecting ∧ w'.conn.state = .kConnected) := by
  have hstream := h.stream
  cases h with
  | quiet _ haccepted _ _ _ _ _ hstate =>
    rw [haccepted, List.append_nil] at hstream
    refine ⟨hstream, ?_⟩
    rcases hstate with hstate | hstate
    · exact Or.inl hstate
    · exact Or.inr (Or.inr hstate)
  | sent buf r => exact absurd rfl (hsend buf r)
  | drained _ _ _ _ hstate _ _ hsame => exact ⟨hsame, Or.inl hstate⟩
  | shutdown => exact absurd rfl hshutdown
  | disconnected _ haccepted _ _ _ _ _ hstate =>
    rw [haccepted, List.append_nil] at hstream
    exact ⟨hstream, Or.inr (Or.inl hstate)⟩

/-- What a step without user code keeps. -/
structure Calm (w w' : Conn C) : Prop where
  stream : w'.wire ++ w'.pending = w.wire ++ w.pending
  state : w'.conn.state = w.conn.state ∨ w'.conn.state = .kDisconnected ∨
    w.conn.state = .kConnecting ∧ w'.conn.state = .kConnected
  stays : w.conn.state ≠ .kDisconnecting ∧ ¬ w.HalfClosed →
    w'.conn.state ≠ .kDisconnecting ∧ ¬ w'.HalfClosed

theorem call_calm (hsettled : s.world.Settled) (hcall : LoopThread.step c s a.call = some t) :
    Calm s.world t.world := by
  have hchange := LoopThread.step_change hsettled hcall
  have hsend (buf : List Byte) (r : WriteResult) : a.call ≠ .send buf r := by
    cases a <;> simp [EchoCall.call]
  have hshutdown : a.call ≠ .shutdown := by
    cases a <;> simp [EchoCall.call]
  obtain ⟨hstream, hstate⟩ := change_calm hchange hsend hshutdown
  refine ⟨hstream, hstate, ?_⟩
  intro hbefore
  rw [← not_or]
  exact fun hafter => hshutdown (hchange.enters hbefore hafter).1

theorem Serves.calm (h : Serves msgs w) (hcalm : Calm w w')
    (hinput : w'.conn.inputBuffer.content = []) : Serves msgs w' := by
  refine ⟨hinput, ?_⟩
  rw [hcalm.stream]
  rcases h.stage with ⟨hnone, hopen, hempty⟩ | ⟨msg, write, hone, hmsg, hecho, hclosed⟩
  · exact Or.inl ⟨hnone, hcalm.stays hopen, hempty⟩
  · refine Or.inr ⟨msg, write, hone, hmsg, hecho, ?_⟩
    rcases hcalm.state with hstate | hstate | ⟨hstate, _⟩
    · rwa [hstate]
    · exact Or.inr hstate
    · rw [hstate] at hclosed
      rcases hclosed with hclosed | hclosed
      · cases hclosed
      · cases hclosed

theorem Calm.input (h : Calm w w') (b : ValidBuffer) :
    Calm w { w' with conn.inputBuffer := b } :=
  ⟨h.stream, h.state, h.stays⟩

/-! ### The message callback -/

theorem readFd_pos_iff (b : ValidBuffer) (read : ReadvResult) :
    0 < (b.readFd read).2 ↔ Buffer.deliveredBytes (b.readv read) ≠ [] := by
  rw [ValidBuffer.readFd_result]
  cases b.readv read with
  | delivered s =>
    rw [← List.length_pos_iff]
    exact Int.natCast_pos
  | failed errno =>
    have hresult : (Buffer.readFdReturn (.failed errno)).1 = -1 := rfl
    rw [hresult]
    exact iff_of_false (by decide) (fun h => h rfl)

theorem onMessage_eq (w : Conn C) (write : WriteResult) :
    w.onMessage c write =
      (({ w with conn.inputBuffer := w.conn.inputBuffer.retrieve w.conn.inputBuffer.readableBytes }
        : Conn C).send c w.conn.inputBuffer.content write).shutdown := by
  rw [Conn.onMessage, ValidBuffer.retrieveAllAsString_eq]

theorem onMessage_input (w : Conn C) (write : WriteResult) :
    (w.onMessage c write).conn.inputBuffer.content = [] := by
  rw [onMessage_eq, shutdown_inputBuffer, send_inputBuffer, ValidBuffer.content_retrieve,
    ← ValidBuffer.length_content, List.drop_length]

theorem onMessage_connected (hsettled : w.Settled) (hconnected : w.conn.state = .kConnected)
    (hnothing : w.wire ++ w.pending = []) (write : WriteResult) :
    (w.onMessage c write).conn.state = .kDisconnecting ∧
      (w.onMessage c write).wire ++ (w.onMessage c write).pending =
        echo w.conn.inputBuffer.content write := by
  rw [onMessage_eq]
  set msg := w.conn.inputBuffer.content
  set taken : Conn C :=
    { w with conn.inputBuffer := w.conn.inputBuffer.retrieve w.conn.inputBuffer.readableBytes }
  have htaken : taken.Settled := hsettled
  have hsend := taken.change_send c htaken msg write
  have hstate : (taken.send c msg write).conn.state = .kConnected :=
    (taken.send_works c msg write).state.trans hconnected
  have hshutdown := (taken.send c msg write).change_shutdown
  refine ⟨?_, ?_⟩
  · rw [Conn.shutdown, if_pos hstate, shutdownInLoop_conn]
    rfl
  · have hcoupled : taken.Coupled := htaken.coupled (by rw [hconnected]; decide)
    have hdirect : taken.writesDirectly = true :=
      hcoupled.writesDirectly_iff.mpr (List.append_eq_nil_iff.mp hnothing).2
    have haccepted : taken.accepted (.send msg write) = echo msg write := by
      have hdropped : taken.Dropped write ↔ write.Faults := and_iff_right hdirect
      have hsame : taken.conn.state = .kConnected := hconnected
      simp only [accepted, echo, hsame, hdropped, true_and, ite_not]
    have hbefore : taken.wire ++ taken.pending = [] := hnothing
    rw [hshutdown.stream, hsend.stream, hbefore, haccepted]
    exact List.append_nil _

theorem onMessage_other (hconnected : w.conn.state ≠ .kConnected) (write : WriteResult) :
    w.onMessage c write =
      { w with
        conn.inputBuffer := w.conn.inputBuffer.retrieve w.conn.inputBuffer.readableBytes } := by
  rw [onMessage_eq, Conn.send, if_neg hconnected, Conn.shutdown, if_neg hconnected]

/-! ### The runs -/

/-- The bytes that a step takes over from the socket. -/
def arrived (s : LoopThread C) : EchoCall C → List Byte
  | .handleRead read _ => Buffer.deliveredBytes (s.world.conn.inputBuffer.readv read)
  | _ => []

theorem call_input (hcall : LoopThread.step c s a.call = some t) :
    t.world.conn.inputBuffer.content = s.world.conn.inputBuffer.content ++ arrived s a := by
  have hsame (h : t.world.conn.inputBuffer = s.world.conn.inputBuffer) (hnone : arrived s a = []) :
      t.world.conn.inputBuffer.content = s.world.conn.inputBuffer.content ++ arrived s a := by
    rw [h, hnone, List.append_nil]
  cases a with
  | connectEstablished =>
    obtain ⟨_, hsome⟩ := Option.ite_none_right_eq_some.mp hcall
    cases hsome
    exact hsame rfl rfl
  | handleRead read write =>
    obtain ⟨_, hsome⟩ := Option.ite_none_right_eq_some.mp hcall
    cases hsome
    dsimp only
    rw [handleRead_inputBuffer, ValidBuffer.content_readFd]
    rfl
  | handleWrite r =>
    obtain ⟨_, hsome⟩ := Option.ite_none_right_eq_some.mp hcall
    cases hsome
    exact hsame (handleWrite_inputBuffer _ _) rfl
  | handleClose =>
    obtain ⟨_, hsome⟩ := Option.ite_none_right_eq_some.mp hcall
    cases hsome
    exact hsame rfl rfl
  | handleError =>
    obtain ⟨_, hsome⟩ := Option.ite_none_right_eq_some.mp hcall
    cases hsome
    exact hsame rfl rfl
  | connectDestroyed =>
    obtain ⟨_, hsome⟩ := Option.ite_none_right_eq_some.mp hcall
    cases hsome
    refine hsame ?_ rfl
    show (s.world.connectDestroyed c).conn.inputBuffer = _
    unfold connectDestroyed
    split <;> rfl
  | resume =>
    unfold EchoCall.call LoopThread.step at hcall
    dsimp only at hcall
    split at hcall
    · cases hcall
      exact hsame rfl rfl
    · cases hcall
      exact hsame rfl rfl
    · cases hcall
  | otherChannels poller =>
    cases hcall
    exact hsame rfl rfl

theorem handleRead_state {read : ReadvResult}
    (hmsg : Buffer.deliveredBytes (w.conn.inputBuffer.readv read) ≠ []) :
    (w.handleRead c read).1.conn.state = w.conn.state := by
  have hpos := (readFd_pos_iff w.conn.inputBuffer read).mpr hmsg
  unfold handleRead
  dsimp only
  rw [if_pos hpos]
  rfl

theorem step_serves (hsettled : s.world.Settled) (hserves : Serves msgs s.world)
    (hstep : step c s a = some s') :
    Serves (msgs ++ served s a) s'.world := by
  obtain ⟨t, hcall, rfl⟩ := Option.map_eq_some_iff.mp hstep
  have hcalm := call_calm hsettled hcall
  have hinput := call_input hcall
  rw [hserves.input, List.nil_append] at hinput
  have hquiet (hreact : a.react c s t = t) (hserved : served s a = []) (hnone : arrived s a = []) :
      Serves (msgs ++ served s a) (a.react c s t).world := by
    rw [hreact, hserved, List.append_nil]
    exact hserves.calm hcalm (hinput.trans hnone)
  cases a with
  | handleRead read write =>
    by_cases hmsg : arrived s (.handleRead read write) = []
    · refine hquiet (if_neg ?_) (if_neg fun h => h.2 hmsg) hmsg
      rw [readFd_pos_iff]
      exact fun h => h hmsg
    · have hreact : EchoCall.react c s t (.handleRead read write) =
          t.onWorld (t.world.onMessage c write) := if_pos ((readFd_pos_iff _ _).mpr hmsg)
      have hsame : t.world.conn.state = s.world.conn.state := by
        obtain ⟨_, hsome⟩ := Option.ite_none_right_eq_some.mp hcall
        cases hsome
        exact handleRead_state hmsg
      rw [hreact]
      by_cases hconnected : s.world.conn.state = .kConnected
      · have hserved : served s (.handleRead read write) =
            [(arrived s (.handleRead read write), write)] := if_pos ⟨hconnected, hmsg⟩
        rcases hserves.stage with ⟨rfl, _, hempty⟩ | ⟨_, _, _, _, _, hclosed⟩
        · obtain ⟨hdisconnecting, hecho⟩ := onMessage_connected
            ((LoopThread.step_change hsettled hcall).settled hsettled)
            (hsame.trans hconnected) (hcalm.stream.trans hempty) write
          rw [hinput] at hecho
          refine ⟨onMessage_input _ _, Or.inr ⟨_, write, hserved, hmsg, hecho, ?_⟩⟩
          exact Or.inl hdisconnecting
        · rw [hconnected] at hclosed
          rcases hclosed with hclosed | hclosed
          · cases hclosed
          · cases hclosed
      · have hserved : served s (.handleRead read write) = [] := if_neg fun h => hconnected h.1
        have hempty := onMessage_input (c := c) t.world write
        rw [onMessage_other (fun h => hconnected (hsame.symm.trans h))] at hempty
        rw [hserved, List.append_nil, LoopThread.onWorld,
          onMessage_other (fun h => hconnected (hsame.symm.trans h))]
        exact hserves.calm (hcalm.input _) hempty
  | _ => exact hquiet rfl rfl rfl

theorem fresh_serves (hfresh : s.Fresh) : Serves [] s.world := by
  have hclosing := hfresh.closing
  obtain ⟨sockfd, writeComplete, highWater, mark, poller, hworld, _⟩ := hfresh
  rw [hworld] at hclosing ⊢
  have hopen := hclosing.not_halfClosed (Or.inl rfl)
  refine ⟨ValidBuffer.content_new _, Or.inl ⟨rfl, ⟨StateE.noConfusion, hopen⟩, ?_⟩⟩
  exact ValidBuffer.content_new Buffer.kInitialSize

theorem run_serves {as : List (EchoCall C)} (hfresh : s.Fresh)
    (hrun : (machine c).run s as = some s') :
    Serves ((machine c).collect served s as) s'.world := by
  have hstart : Serves ((machine c).collect served s []) s.world := fresh_serves hfresh
  refine Machine.run_induction
    (P := fun as t => Serves ((machine c).collect served s as) t.world) hstart ?_ hrun
  intro as t a t' hbefore hserves hstep
  have hone : (machine c).collect served t [a] = served t a := by
    rw [Machine.collect_cons served hstep, Machine.collect_nil, List.append_nil]
  have hclosing := reachable_closing (Machine.Reachable.run (.init hfresh) hbefore)
  rw [Machine.collect_append served hbefore, hone]
  exact step_serves hclosing.settled hserves hstep

/-- A connection of the echo server gets its first message back and nothing else. With the whole echo behind it the write side is closed, once, and nothing that was read is kept. -/
theorem echoes_first {as : List (EchoCall C)} (hfresh : s.Fresh)
    (hrun : (machine c).run s as = some s') :
    s'.world.conn.inputBuffer.content = [] ∧ Ordered s'.world.effects ∧
      ((machine c).collect served s as = [] ∧ s'.world.wire = [] ∧ s'.world.pending = [] ∧
          ¬ s'.world.HalfClosed ∨
        ∃ msg write, (machine c).collect served s as = [(msg, write)] ∧ msg ≠ [] ∧
          s'.world.wire ++ s'.world.pending = echo msg write ∧
          (s'.world.HalfClosed → s'.world.wire = echo msg write) ∧
          (s'.world.conn.state = .kDisconnecting ∧
              (s'.world.HalfClosed ↔ s'.world.pending = []) ∨
            s'.world.conn.state = .kDisconnected)) := by
  obtain ⟨hinput, hstage⟩ := run_serves hfresh hrun
  have hclosing := reachable_closing (Machine.Reachable.run (.init hfresh) hrun)
  refine ⟨hinput, hclosing.ordered, ?_⟩
  rcases hstage with ⟨hnone, hopen, hempty⟩ | ⟨msg, write, hone, hmsg, hecho, hclosed⟩
  · obtain ⟨hwire, hpending⟩ := List.append_eq_nil_iff.mp hempty
    exact Or.inl ⟨hnone, hwire, hpending, hopen.2⟩
  · refine Or.inr ⟨msg, write, hone, hmsg, hecho, ?_, ?_⟩
    · intro hhalf
      rwa [hclosing.empty hhalf, List.append_nil] at hecho
    · rcases hclosed with hdisconnecting | hdisconnected
      · exact Or.inl ⟨hdisconnecting, hclosing.empty, hclosing.issued hdisconnecting⟩
      · exact Or.inr hdisconnected

/-- A client that sends a message and goes on with a second one before it has read the echo. -/
theorem echoes_first_two :
    let s : LoopThread Unit :=
      ⟨⟨.new 7 false false 65536, ⟨fun _ => none, fun _ => none, []⟩, []⟩, none⟩
    let as : List (EchoCall Unit) :=
      [.connectEstablished, .handleRead (.delivered [1, 2, 3]) (.accepted 1),
        .handleRead (.delivered [4]) (.accepted 1), .handleWrite (.accepted 2)]
    ∃ s', (machine ()).run s as = some s' ∧ s'.world.HalfClosed ∧ s'.world.wire = [1, 2, 3] := by
  intro s as
  have hfresh : s.Fresh := ⟨7, false, false, 65536, _, rfl, rfl⟩
  have hend : ((machine ()).run s as).map
      (fun t => (t.world.conn.state, t.world.pending, t.world.wire)) =
        some (.kDisconnecting, [], [1, 2, 3]) := by decide +kernel
  obtain ⟨s', hrun, hs'⟩ := Option.map_eq_some_iff.mp hend
  obtain ⟨hstate, hs'⟩ := Prod.mk.inj hs'
  obtain ⟨hempty, hwire⟩ := Prod.mk.inj hs'
  obtain ⟨_, _, hstage⟩ := echoes_first hfresh hrun
  rcases hstage with ⟨_, hnothing, _⟩ | ⟨_, _, _, _, _, _, hclosed⟩
  · rw [hnothing] at hwire
    cases hwire
  · rcases hclosed with ⟨_, hissued⟩ | hdisconnected
    · exact ⟨s', hrun, hissued.mpr hempty, hwire⟩
    · rw [hstate] at hdisconnected
      cases hdisconnected

end EchoServer

end LTMuduo
