import LTMuduo.Connection.Logged
import LTMuduo.TcpServer.Dispatch
import LTMuduo.TcpServer.Moves
import LTMuduo.TcpServer.Steps

/-!
# A connection of a server runs as one connection on its loop thread

The server with all its loops is seen from one of its connections: each step of the server is one call on the loop thread of the connection, if only the one that lets the other channels change the poller. So what was proved of the runs of one connection holds of every connection of a server, in every interleaving of its loops.
-/

namespace LTMuduo

/-- What the user calls. -/
inductive UserOp
  | send (buf : List Byte) (r : WriteResult)
  | shutdown
  deriving DecidableEq

def LoopCall.user {C : Type*} : LoopCall C → List UserOp
  | .send buf r => [.send buf r]
  | .shutdown => [.shutdown]
  | _ => []

namespace UserOp

/-- The part of a payload that a connection takes over. -/
def accepted {C : Type*} (w : Conn C) : UserOp → List Byte
  | .send buf r => if w.conn.state = .kConnected ∧ ¬ w.Dropped r then buf else []
  | .shutdown => []

end UserOp

theorem Conn.accepted_eq {C : Type*} (w : Conn C) (call : LoopCall C) :
    w.accepted call = call.user.flatMap (UserOp.accepted w) := by
  cases call with
  | send buf r => exact (List.append_nil _).symm
  | _ => rfl

/-- What the user calls on connection `c`. -/
def ServerStep.user {n : Nat} (c : Nat) : ServerStep n → List UserOp
  | .send d buf r => if d = c then [.send buf r] else []
  | .shutdown d => if d = c then [.shutdown] else []
  | _ => []

/-- What the loop thread still has to do for connection `c`. -/
def Frame.resume (c : Nat) : Frame → Option Resume
  | .closing d => if d = c then some .closeCallback else none
  | .destroying d => if d = c then some .removeChannel else none
  | _ => none

namespace TcpServer

variable {n : Nat} {cfg : ServerConfig} {s s' s'' : TcpServer n} {l : Fin (n + 1)} {c d : Nat}
  {k k' j : ServerConn n}

/-- The connection on its loop thread. -/
def thread (s : TcpServer n) (c : Nat) (k : ServerConn n) : LoopThread Nat :=
  ⟨s.world k, (s.loops k.loop).frame.resume c⟩

/-- The step from `s` to `s'` is one call on the loop thread of connection `c`. -/
def Follows (s : TcpServer n) (c : Nat) (k : ServerConn n) (ops : List UserOp)
    (s' : TcpServer n) : Prop :=
  ∃ k' call log, s'.conns c = some k' ∧ k'.loop = k.loop ∧ call.user = ops ∧
    LoopThread.step c (s.thread c k) call = some ((s'.thread c k').logged log)

theorem Follows.own {a : LoopCall Nat} {t : LoopThread Nat}
    (hcall : LoopThread.step c (s.thread c k) a = some t) (hk' : s'.conns c = some k')
    (hloop : k'.loop = k.loop) (hconn : k'.conn = t.world.conn)
    (hpoller : (s'.loops k.loop).poller = t.world.poller)
    (hresume : (s'.loops k.loop).frame.resume c = t.resume) : s.Follows c k a.user s' := by
  refine ⟨k', a, t.world.effects, hk', hloop, rfl, ?_⟩
  rw [hcall, thread, world, hloop, hconn, hpoller, hresume, LoopThread.logged, Conn.logged,
    List.append_nil]

/-! ### The steps of others -/

/-- The connection is as before, and its loop thread is not in another function of it. -/
def Untouched (c : Nat) (k : ServerConn n) (s s' : TcpServer n) : Prop :=
  s'.conns c = some k ∧ (s'.loops k.loop).frame.resume c = (s.loops k.loop).frame.resume c

theorem Untouched.trans (h : Untouched c k s s') (h' : Untouched c k s' s'') :
    Untouched c k s s'' := ⟨h'.1, h'.2.trans h.2⟩

theorem Untouched.follows (h : Untouched c k s s') : s.Follows c k [] s' :=
  Follows.own (a := .otherChannels (s'.loops k.loop).poller) rfl h.1 rfl rfl rfl h.2

theorem untouched_setLoop (hk : s.conns c = some k) {x : IoLoop}
    (hframe : x.frame.resume c = (s.loops l).frame.resume c) : Untouched c k s (s.setLoop l x) := by
  refine ⟨hk, ?_⟩
  by_cases hl : k.loop = l
  · rw [hl, setLoop_self]
    exact hframe
  · rw [setLoop_of_ne hl]

theorem untouched_putWorld (hk : s.conns c = some k) (hne : c ≠ d) (w : Conn Nat) :
    Untouched c k s (s.putWorld d j w) := by
  have hset : Untouched c k s (s.setConn d { j with conn := w.conn }) :=
    ⟨(setConn_of_ne hne _).trans hk, rfl⟩
  exact hset.trans (untouched_setLoop hset.1 rfl)

theorem untouched_queueInLoop (hk : s.conns c = some k) (own l : Fin (n + 1)) (f : LoopFunctor) :
    Untouched c k s (s.queueInLoop own l f) := untouched_setLoop hk rfl

/-- The loop starts or ends a function of another connection, or one that is not cut. -/
theorem untouched_setFrame (hk : s.conns c = some k) {frame : Frame}
    (hbefore : (s.loops l).frame.resume c = none) (hafter : frame.resume c = none) :
    Untouched c k s (s.setFrame l frame) := untouched_setLoop hk (hafter.trans hbefore.symm)

theorem Frame.resume_idle {frame : Frame} (h : frame = .idle) : frame.resume c = none := by rw [h]; rfl

theorem Frame.resume_closing (hne : d ≠ c) : (Frame.closing d).resume c = none := if_neg hne

theorem Frame.resume_destroying (hne : d ≠ c) : (Frame.destroying d).resume c = none := if_neg hne

theorem frame_putWorld (w : Conn Nat) : ((s.putWorld d j w).loops l).frame = (s.loops l).frame := by
  by_cases hl : l = j.loop
  · rw [hl, putWorld_loops]
  · exact congrArg IoLoop.frame (setLoop_of_ne hl _)

theorem untouched_call (hk : s.conns c = some k) (hidle : (s.loops l).frame.resume c = none)
    {f : LoopFunctor} (hest : f ≠ .connectEstablished c) (hdes : f ≠ .connectDestroyed c) :
    Untouched c k s (s.call l f) := by
  have hsame : Untouched c k s s := ⟨hk, rfl⟩
  cases f with
  | other => exact hsame
  | connectEstablished d =>
    have hne : c ≠ d := by
      rintro rfl
      exact hest rfl
    unfold call
    dsimp only
    split
    · exact untouched_putWorld hk hne _
    · exact hsame
  | removeConnectionInLoop d =>
    unfold call
    dsimp only
    split
    · rename_i j _
      exact untouched_setFrame (s := s.erase j.name) hk hidle rfl
    · exact hsame
  | connectDestroyed d =>
    have hne : c ≠ d := by
      rintro rfl
      exact hdes rfl
    unfold call
    dsimp only
    split
    · rename_i j _
      have hput := untouched_putWorld (j := j) hk hne ((s.world j).connectDestroyed d)
      refine hput.trans (untouched_setFrame hput.1 ?_ (Frame.resume_destroying hne.symm))
      rw [frame_putWorld]
      exact hidle
    · exact hsame

theorem untouched_runInLoop (hk : s.conns c = some k) {own : Fin (n + 1)} (l : Fin (n + 1))
    (hidle : (s.loops own).frame.resume c = none) {f : LoopFunctor}
    (hest : f ≠ .connectEstablished c) (hdes : f ≠ .connectDestroyed c) :
    Untouched c k s (s.runInLoop own l f) := by
  unfold runInLoop
  split
  · rename_i hl
    subst hl
    exact untouched_call hk hidle hest hdes
  · exact untouched_queueInLoop hk _ _ _

theorem untouched_newConnection (howned : s.Owned cfg) (hk : s.conns c = some k)
    (hidle : (s.loops baseLoop).frame = .idle) (sockfd : Fd) :
    Untouched c k s (s.newConnection cfg sockfd) := by
  have hlt : c < s.nextConnId := (howned.ids c k hk).1
  unfold newConnection
  dsimp only
  refine untouched_runInLoop (s := s.addConnection _ _) ?_ _ (Frame.resume_idle hidle) ?_ nofun
  · exact (addConnection_of_lt hlt _).trans hk
  · intro heq
    cases heq
    exact Nat.lt_irrefl _ hlt

theorem untouched_eventCallback (hk : s.conns c = some k) (hne : d ≠ c)
    (hidle : (s.loops l).frame = .idle) (read : ReadvResult) (write : WriteResult)
    (callback : EventCallback) : Untouched c k s (s.eventCallback l d j read write callback) := by
  have hclosing (w : Conn Nat) : Untouched c k s ((s.putWorld d j w).setFrame l (.closing d)) := by
    have hput := untouched_putWorld (j := j) hk hne.symm w
    refine hput.trans (untouched_setFrame hput.1 ?_ (Frame.resume_closing hne))
    rw [frame_putWorld]
    exact Frame.resume_idle hidle
  cases callback with
  | closeCallback => exact hclosing _
  | errorCallback => exact untouched_putWorld hk hne.symm _
  | readCallback =>
    unfold eventCallback
    dsimp only
    split
    · exact hclosing _
    · exact untouched_putWorld hk hne.symm _
  | writeCallback => exact untouched_putWorld hk hne.symm _

/-! ### The steps of the connection -/

theorem Follows.of_thread {ops : List UserOp} (hthread : s.thread c k = s'.thread c k)
    (h : s'.Follows c k ops s'') : s.Follows c k ops s'' := by
  obtain ⟨k', call, log, hk', hloop, hops, hcall⟩ := h
  exact ⟨k', call, log, hk', hloop, hops, by rw [hthread, hcall]⟩

theorem thread_setLoop {x : IoLoop} (hpoller : x.poller = (s.loops l).poller)
    (hframe : x.frame = (s.loops l).frame) : (s.setLoop l x).thread c k = s.thread c k := by
  unfold thread world
  by_cases hl : k.loop = l
  · rw [hl, setLoop_self, hpoller, hframe]
  · rw [setLoop_of_ne hl]

theorem follows_putWorld (hloop : j.loop = k.loop) {a : LoopCall Nat} {w : Conn Nat}
    (hcall : LoopThread.step c (s.thread c k) a = some ⟨w, (s.thread c k).resume⟩) :
    s.Follows c k a.user (s.putWorld c j w) := by
  refine Follows.own hcall (putWorld_conns w) hloop rfl ?_ ?_
  · rw [← hloop, putWorld_loops]
  · rw [frame_putWorld]
    rfl

theorem follows_setFrame {a : LoopCall Nat} {w : Conn Nat} {frame : Frame}
    (hcall : LoopThread.step c (s.thread c k) a = some ⟨w, frame.resume c⟩)
    (hloop : j.loop = k.loop) :
    s.Follows c k a.user ((s.putWorld c j w).setFrame k.loop frame) := by
  have hself : ((s.putWorld c j w).setFrame k.loop frame).loops k.loop =
      { (s.putWorld c j w).loops k.loop with frame := frame } := setLoop_self ..
  refine Follows.own hcall (putWorld_conns w) hloop rfl ?_ ?_
  · rw [hself, ← hloop, putWorld_loops]
  · rw [hself]

theorem follows_eventCallback (hstate : k.conn.state ≠ .kConnecting)
    (hidle : (s.loops k.loop).frame = .idle) (read : ReadvResult) (write : WriteResult)
    (callback : EventCallback) : s.Follows c k [] (s.eventCallback k.loop c k read write callback) := by
  have hresume : (s.thread c k).resume = none := Frame.resume_idle hidle
  have hdispatches : (s.thread c k).Dispatches := ⟨hresume, hstate⟩
  have hclosing : (Frame.closing c).resume c = some .closeCallback := if_pos rfl
  cases callback with
  | closeCallback =>
    refine follows_setFrame (a := .handleClose) ?_ rfl
    rw [hclosing]
    exact if_pos hdispatches
  | errorCallback =>
    exact follows_putWorld (a := .handleError) rfl (if_pos hdispatches)
  | writeCallback =>
    exact follows_putWorld (a := .handleWrite write) rfl (if_pos hdispatches)
  | readCallback =>
    have hcall : LoopThread.step c (s.thread c k) (.handleRead read) =
        some ⟨((s.world k).handleRead c read).1,
          if ((s.world k).handleRead c read).2 then some .closeCallback else none⟩ :=
      if_pos hdispatches
    unfold eventCallback
    dsimp only
    split
    · rename_i hclosed
      refine follows_setFrame (a := .handleRead read) ?_ rfl
      rw [hclosing, hcall, if_pos hclosed]
    · rename_i hopen
      refine follows_putWorld (a := .handleRead read) rfl ?_
      rw [hresume, hcall, if_neg hopen]

theorem follows_resumeClosing (hk : s.conns c = some k)
    (hframe : (s.loops k.loop).frame = .closing c) :
    s.Follows c k [] ((s.setFrame k.loop .idle).removeConnection k.loop c) := by
  have hcall : LoopThread.step c (s.thread c k) .resume = some ⟨(s.world k).handleCloseRest, none⟩ := by
    rw [thread, hframe, Frame.resume, if_pos rfl]
    rfl
  unfold removeConnection runInLoop
  split
  · rename_i hbase
    have hk' : (s.setFrame k.loop .idle).conns c = some k := hk
    unfold call
    dsimp only
    rw [hk']
    dsimp only
    rw [← hbase]
    have hself : (((s.setFrame k.loop .idle).erase k.name).setFrame k.loop (.removing c)).loops
        k.loop = { (s.setFrame k.loop .idle).loops k.loop with frame := .removing c } :=
      setLoop_self ..
    refine Follows.own hcall hk rfl rfl ?_ ?_
    · rw [hself, setFrame, setLoop_self]
      rfl
    · rw [hself]
      rfl
  · rename_i hbase
    have hself : ((s.setFrame k.loop .idle).queueInLoop k.loop baseLoop
        (.removeConnectionInLoop c)).loops k.loop = { s.loops k.loop with frame := .idle } := by
      rw [queueInLoop, setLoop_of_ne hbase, setFrame, setLoop_self]
    refine Follows.own hcall hk rfl rfl ?_ ?_
    · rw [hself]
      rfl
    · rw [hself]
      rfl

/-- The functions that are cut go on; the connection of the frame is `c` or another one. -/
theorem follows_resume (howned : s.Owned cfg) (hk : s.conns c = some k) {l : Fin (n + 1)}
    (hmoves : s.Moves cfg (.resume l) s') : s.Follows c k [] s' := by
  have hnone (h : (s.loops l).frame.resume c = none) :
      Untouched c k s (s.setFrame l .idle) := untouched_setFrame hk h rfl
  have hself (hold : Hold) (h : ⟨hold, c⟩ ∈ (s.loops l).frame.tokens) :
      hold.Meets l k (s.InMap c k) := by
    obtain ⟨j, hj, hmeets⟩ := howned.token (mem_tokens_frame h)
    cases hk.symm.trans hj
    exact hmeets
  cases hmoves with
  | resumeClosing _ d hframe =>
    by_cases hdc : d = c
    · subst d
      have hmeets := hself .closing (by rw [hframe]; exact List.mem_singleton_self _)
      obtain ⟨hloop, _⟩ := hmeets
      subst l
      exact follows_resumeClosing hk hframe
    · have hset := hnone (by rw [hframe, Frame.resume_closing hdc])
      refine (hset.trans (untouched_runInLoop (f := .removeConnectionInLoop d) hset.1 _ ?_ nofun
        nofun)).follows
      rw [setFrame, setLoop_self]
      rfl
  | resumeRemoving _ d j hframe hj =>
    have hset := hnone (by rw [hframe]; rfl)
    exact (hset.trans (untouched_queueInLoop hset.1 _ _ _)).follows
  | resumeDestroying _ d j hframe hj =>
    by_cases hdc : d = c
    · subst d
      cases hk.symm.trans hj
      have hmeets := hself .destroying (by rw [hframe]; exact List.mem_singleton_self _)
      obtain ⟨hloop, _⟩ := hmeets
      subst l
      refine follows_setFrame (a := .resume) (j := { k with destroyed := true }) ?_ rfl
      rw [thread, hframe, Frame.resume, if_pos rfl]
      rfl
    · have hput := untouched_putWorld (j := { j with destroyed := true }) hk (Ne.symm hdc)
        ((s.world j).connectDestroyedRest d)
      refine (hput.trans (untouched_setFrame hput.1 ?_ rfl)).follows
      rw [frame_putWorld, hframe, Frame.resume_destroying hdc]

theorem follows_runFunctor (howned : s.Owned cfg) (hk : s.conns c = some k) {f : LoopFunctor}
    {rest : List LoopFunctor} (hphase : (s.loops l).phase = .functors (f :: rest))
    (hidle : (s.loops l).frame = .idle) :
    s.Follows c k [] ((s.setPhase l (.functors rest)).call l f) := by
  have hmem : f ∈ (s.loops l).queue := by
    rw [queue_functors hphase]
    exact List.mem_cons_self
  have hthread : s.thread c k = (s.setPhase l (.functors rest)).thread c k :=
    (thread_setLoop (x := { s.loops l with phase := .functors rest }) rfl rfl).symm
  have hworld : s.world k = (s.setPhase l (.functors rest)).world k :=
    congrArg LoopThread.world hthread
  have hk' : (s.setPhase l (.functors rest)).conns c = some k := hk
  by_cases hest : f = .connectEstablished c
  · subst f
    obtain ⟨j, hj, hloop, hstate⟩ :=
      howned.token (mem_tokens_queue hmem (List.mem_singleton_self _))
    cases hk.symm.trans hj
    change k.loop = l at hloop
    subst l
    have hcalled : (s.setPhase k.loop (.functors rest)).call k.loop (.connectEstablished c) =
        (s.setPhase k.loop (.functors rest)).putWorld c { k with established := true }
          (((s.setPhase k.loop (.functors rest)).world k).connectEstablished c) := by
      simp only [call, hk']
      rfl
    rw [hcalled]
    have hresume : (s.thread c k).resume = none := Frame.resume_idle hidle
    have hready : (s.thread c k).resume = none ∧ (s.thread c k).world.conn.state = .kConnecting :=
      ⟨hresume, hstate⟩
    have hcall : LoopThread.step c ((s.setPhase k.loop (.functors rest)).thread c k)
        .connectEstablished = some ⟨((s.setPhase k.loop (.functors rest)).world k).connectEstablished c,
          ((s.setPhase k.loop (.functors rest)).thread c k).resume⟩ := by
      rw [← hthread, ← hworld]
      exact if_pos hready
    exact .of_thread hthread (follows_putWorld (j := { k with established := true }) rfl hcall)
  · by_cases hdes : f = .connectDestroyed c
    · subst f
      obtain ⟨j, hj, hloop, hstate, _⟩ :=
        howned.token (mem_tokens_queue hmem (List.mem_singleton_self _))
      cases hk.symm.trans hj
      change k.loop = l at hloop
      subst l
      have hcalled : (s.setPhase k.loop (.functors rest)).call k.loop (.connectDestroyed c) =
          ((s.setPhase k.loop (.functors rest)).putWorld c k
            (((s.setPhase k.loop (.functors rest)).world k).connectDestroyed c)).setFrame k.loop
              (.destroying c) := by
        simp only [call, hk']
      rw [hcalled]
      refine .of_thread hthread (follows_setFrame (a := .connectDestroyed) ?_ rfl)
      have hdispatches : (s.thread c k).Dispatches := by
        refine ⟨Frame.resume_idle hidle, ?_⟩
        change k.conn.state ≠ _
        rw [hstate]
        decide
      rw [← hthread, ← hworld, Frame.resume, if_pos rfl]
      exact if_pos hdispatches
    · have hset : Untouched c k s (s.setPhase l (.functors rest)) := untouched_setLoop hk rfl
      refine (hset.trans (untouched_call hset.1 ?_ hest hdes)).follows
      rw [setPhase, setLoop_self]
      exact Frame.resume_idle hidle

theorem follows_dispatch (howned : s.Owned cfg) (hk : s.conns c = some k) {active : List Nat}
    {callback : EventCallback} {callbacks : List EventCallback}
    {rest : List (Nat × List EventCallback)}
    (hphase : (s.loops l).phase = .dispatch active ((d, callback :: callbacks) :: rest))
    (hidle : (s.loops l).frame = .idle) (hj : s.conns d = some j) (read : ReadvResult)
    (write : WriteResult) :
    s.Follows c k []
      ((s.setPhase l (.dispatch active ((d, callbacks) :: rest))).eventCallback l d j read write
        callback) := by
  have hset : Untouched c k s (s.setPhase l (.dispatch active ((d, callbacks) :: rest))) :=
    untouched_setLoop hk rfl
  have hidle' : ((s.setPhase l (.dispatch active ((d, callbacks) :: rest))).loops l).frame =
      .idle := by
    rw [setPhase, setLoop_self]
    exact hidle
  by_cases hdc : d = c
  · subst d
    cases hk.symm.trans hj
    have hlisted : c ∈ (s.loops l).phase.active := by
      refine (howned.wellFormed l).rest c (callback :: callbacks) ?_
      rw [hphase]
      exact List.mem_cons_self
    obtain ⟨i, hi, hloop, hestablished, _⟩ := howned.token (mem_tokens_listed hlisted)
    cases hk.symm.trans hi
    subst l
    have hthread : (s.setPhase k.loop (.dispatch active ((c, callbacks) :: rest))).thread c k =
        s.thread c k := thread_setLoop rfl rfl
    exact .of_thread hthread.symm
      (follows_eventCallback ((howned.life c k hk).established.mp hestablished) hidle' read write
        callback)
  · exact (hset.trans (untouched_eventCallback hset.1 hdc hidle' read write callback)).follows

theorem follows_step (howned : s.Owned cfg) (hk : s.conns c = some k) {a : ServerStep n}
    (hmoves : s.Moves cfg a s') : s.Follows c k (a.user c) s' := by
  have hset {l : Fin (n + 1)} {x : IoLoop} (hframe : x.frame = (s.loops l).frame) :
      s.Follows c k [] (s.setLoop l x) := (untouched_setLoop hk (by rw [hframe])).follows
  cases hmoves with
  | newConnection sockfd _ _ _ hidle => exact (untouched_newConnection howned hk hidle sockfd).follows
  | poll | nextChannel | swapFunctors | endFunctors | queueOther => exact hset rfl
  | eventCallback l read write _ _ _ _ _ _ hphase hidle hj =>
    exact follows_dispatch howned hk hphase hidle hj read write
  | resumeClosing l d hframe => exact follows_resume howned hk (.resumeClosing l d hframe)
  | resumeRemoving l d j hframe hj => exact follows_resume howned hk (.resumeRemoving l d j hframe hj)
  | resumeDestroying l d j hframe hj =>
    exact follows_resume howned hk (.resumeDestroying l d j hframe hj)
  | runFunctor l f rest hphase hidle => exact follows_runFunctor howned hk hphase hidle
  | send d j buf r hj =>
    by_cases hdc : d = c
    · subst d
      cases hk.symm.trans hj
      rw [ServerStep.user, if_pos rfl]
      exact follows_putWorld (a := .send buf r) rfl rfl
    · rw [ServerStep.user, if_neg hdc]
      exact (untouched_putWorld hk (Ne.symm hdc) _).follows
  | shutdown d j hj =>
    by_cases hdc : d = c
    · subst d
      cases hk.symm.trans hj
      rw [ServerStep.user, if_pos rfl]
      exact follows_putWorld (a := .shutdown) rfl rfl
    · rw [ServerStep.user, if_neg hdc]
      exact (untouched_putWorld hk (Ne.symm hdc) _).follows

/-! ### The first step -/

/-- A step brings a connection into being as `newConnection` constructs it, and calls at most one function of it. -/
def Starts (c : Nat) (k : ServerConn n) (s' : TcpServer n) : Prop :=
  ∃ t call log, t.Fresh ∧ call.user = [] ∧
    LoopThread.step c t call = some ((s'.thread c k).logged log)

theorem Follows.starts (hfresh : (s.thread c k).Fresh) (h : s.Follows c k [] s')
    (hk' : s'.conns c = some k') : Starts c k' s' := by
  obtain ⟨j, call, log, hj, _, huser, hcall⟩ := h
  cases hk'.symm.trans hj
  exact ⟨s.thread c k, call, log, hfresh, huser, hcall⟩

theorem Consistent.resume_fresh (h : s.Consistent cfg) :
    (s.loops l).frame.resume s.nextConnId = none := by
  have hne {d : Nat} (hold : Hold) (hd : ⟨hold, d⟩ ∈ (s.loops l).tokens) : d ≠ s.nextConnId := by
    obtain ⟨k, hk, _⟩ := h.token hd
    exact Nat.ne_of_lt (h.ids d k hk).1
  cases hframe : (s.loops l).frame with
  | idle => rfl
  | removing d => rfl
  | closing d =>
    refine Frame.resume_closing (hne .closing (mem_tokens_frame ?_))
    rw [hframe]
    exact List.mem_singleton_self _
  | destroying d =>
    refine Frame.resume_destroying (hne .destroying (mem_tokens_frame ?_))
    rw [hframe]
    exact List.mem_singleton_self _

theorem starts_newConnection (howned : s.Owned cfg) (sockfd : Fd) (hk : (s.newConnection cfg sockfd).conns s.nextConnId = some k) :
    Starts s.nextConnId k (s.newConnection cfg sockfd) := by
  let j : ServerConn n := ⟨.new sockfd cfg.writeCompleteCallback cfg.highWaterMarkCallback
    cfg.highWaterMark, (getNextLoop n s.next).1, connName cfg s.nextConnId, false, false⟩
  let added := s.addConnection j (getNextLoop n s.next).2
  have hj : added.conns s.nextConnId = some j := addConnection_self _
  have hresume : (added.thread s.nextConnId j).resume = none := howned.resume_fresh
  have hfresh : (added.thread s.nextConnId j).Fresh :=
    ⟨sockfd, _, _, _, (added.loops j.loop).poller, rfl, hresume⟩
  refine Follows.starts hfresh ?_ hk
  change added.Follows s.nextConnId j [] (added.runInLoop baseLoop j.loop _)
  unfold runInLoop
  split
  · have hcalled : added.call j.loop (.connectEstablished s.nextConnId) =
        added.putWorld s.nextConnId { j with established := true }
          ((added.world j).connectEstablished s.nextConnId) := by
      simp only [call, hj]
      rfl
    have hready : (added.thread s.nextConnId j).resume = none ∧
        (added.thread s.nextConnId j).world.conn.state = .kConnecting := ⟨hresume, rfl⟩
    rw [hcalled]
    have hcall : LoopThread.step s.nextConnId (added.thread s.nextConnId j) .connectEstablished =
        some ⟨(added.world j).connectEstablished s.nextConnId,
          (added.thread s.nextConnId j).resume⟩ := if_pos hready
    exact follows_putWorld (j := { j with established := true }) rfl hcall
  · exact (untouched_queueInLoop hj _ _ _).follows

theorem user_of_none (hnone : s.conns c = none) {a : ServerStep n} (hmoves : s.Moves cfg a s') :
    a.user c = [] := by
  cases hmoves with
  | send d j _ _ hj =>
    refine if_neg ?_
    rintro rfl
    exact absurd (hnone.symm.trans hj) nofun
  | shutdown d j hj =>
    refine if_neg ?_
    rintro rfl
    exact absurd (hnone.symm.trans hj) nofun
  | _ => rfl

theorem newConnection_of_none (hnone : s.conns c = none) {a : ServerStep n}
    (hstep : s.step cfg a = some s') (hk : s'.conns c = some k) :
    ∃ sockfd, s' = s.newConnection cfg sockfd ∧ c = s.nextConnId := by
  cases ha : a.accepts with
  | false =>
    have hloops : s'.loopOf c = s.loopOf c := by
      have hsame := assignment_step ha hstep
      exact congrFun (congrArg (fun t => t.2.2) hsame) c
    rw [loopOf, loopOf, hk, hnone] at hloops
    cases hloops
  | true =>
    obtain ⟨sockfd, rfl⟩ := newConnection_of_accepts ha hstep
    refine ⟨sockfd, rfl, ?_⟩
    by_contra hne
    have hloops := congrArg (fun t => t.2.2 c) (assignment_newConnection (s := s) cfg sockfd)
    dsimp only at hloops
    rw [Function.update_of_ne hne] at hloops
    change (s.newConnection cfg sockfd).loopOf c = s.loopOf c at hloops
    rw [loopOf, loopOf, hk, hnone] at hloops
    cases hloops

theorem starts_step (howned : s.Owned cfg) (hnone : s.conns c = none) {a : ServerStep n}
    (hstep : s.step cfg a = some s') (hk : s'.conns c = some k) : Starts c k s' := by
  obtain ⟨sockfd, rfl, rfl⟩ := newConnection_of_none hnone hstep hk
  exact starts_newConnection howned sockfd hk

/-! ### Whole runs -/

/-- The part of a payload that connection `c` takes over in a step. -/
def acceptedBy (c : Nat) (s : TcpServer n) (a : ServerStep n) : List Byte :=
  (s.conns c).elim [] fun k => (a.user c).flatMap (UserOp.accepted (s.world k))

/-- A run of the loop thread of the connection that ends where the server is. -/
def RunsAlone (cfg : ServerConfig) (c : Nat) (as : List (ServerStep n)) (s : TcpServer n)
    (k : ServerConn n) : Prop :=
  ∃ t calls log, t.Fresh ∧ (LoopThread.machine c).run t calls = some ((s.thread c k).logged log) ∧
    calls.flatMap LoopCall.user = as.flatMap (ServerStep.user c) ∧
    (LoopThread.machine c).collect (fun t call => t.world.accepted call) t calls =
      ((machine cfg).restrict NextConnIdFits).collect (acceptedBy c) new as

theorem collect_step {s s' : TcpServer n} {a : ServerStep n}
    (hstep : ((machine cfg).restrict NextConnIdFits).step s a = some s') :
    ((machine cfg).restrict NextConnIdFits).collect (acceptedBy c) s [a] = acceptedBy c s a := by
  rw [Machine.collect_cons _ hstep, Machine.collect_nil, List.append_nil]

theorem RunsAlone.step {as : List (ServerStep n)} {a : ServerStep n}
    (hrun : ((machine cfg).restrict NextConnIdFits).run new as = some s)
    (hstep : ((machine cfg).restrict NextConnIdFits).step s a = some s') (hk : s.conns c = some k)
    (h : RunsAlone cfg c as s k) (hfollows : s.Follows c k (a.user c) s')
    (hk' : s'.conns c = some k') : RunsAlone cfg c (as ++ [a]) s' k' := by
  obtain ⟨t, calls, log, hfresh, hcalls, huser, haccepted⟩ := h
  obtain ⟨j, call, log', hj, _, hcall, hlast⟩ := hfollows
  cases hk'.symm.trans hj
  have hlogged : (LoopThread.machine c).step ((s.thread c k).logged log) call =
      some ((s'.thread c k').logged (log ++ log')) := by
    change LoopThread.step c _ call = _
    rw [LoopThread.step_logged, hlast, Option.map_some, LoopThread.logged_logged]
  refine ⟨t, calls ++ [call], log ++ log', hfresh, Machine.run_concat hcalls hlogged, ?_, ?_⟩
  · rw [List.flatMap_append, List.flatMap_append, huser, List.flatMap_singleton,
      List.flatMap_singleton, hcall]
  · have hone : (LoopThread.machine c).collect (fun t call => t.world.accepted call)
        ((s.thread c k).logged log) [call] = acceptedBy c s a := by
      rw [Machine.collect_cons _ hlogged, Machine.collect_nil, List.append_nil, acceptedBy, hk,
        Conn.accepted_eq, hcall]
      rfl
    rw [Machine.collect_append _ hcalls, Machine.collect_append _ hrun, haccepted, hone,
      collect_step hstep]

theorem RunsAlone.first {as : List (ServerStep n)} {a : ServerStep n}
    (hrun : ((machine cfg).restrict NextConnIdFits).run new as = some s)
    (hstep : ((machine cfg).restrict NextConnIdFits).step s a = some s')
    (hnone : s.conns c = none) (hbefore : as.flatMap (ServerStep.user c) = [])
    (hnothing : ((machine cfg).restrict NextConnIdFits).collect (acceptedBy c) new as = [])
    (huser : a.user c = []) (hstarts : Starts c k s') : RunsAlone cfg c (as ++ [a]) s' k := by
  obtain ⟨t, call, log, hfresh, hcall, hlast⟩ := hstarts
  refine ⟨t, [call], log, hfresh, ?_, ?_, ?_⟩
  · rw [Machine.run_cons]
    exact congrArg (Option.bind · _) hlast
  · rw [List.flatMap_append, hbefore, List.flatMap_singleton, List.flatMap_singleton, huser, hcall]
    rfl
  · have hlast' : (LoopThread.machine c).step t call = _ := hlast
    rw [Machine.collect_cons _ hlast', Machine.collect_nil, List.append_nil, Conn.accepted_eq, hcall,
      Machine.collect_append _ hrun, hnothing, collect_step hstep, acceptedBy, hnone]
    rfl

theorem runsAlone_of_run {as : List (ServerStep n)}
    (hrun : ((machine cfg).restrict NextConnIdFits).run new as = some s) :
    (s.conns c = none → as.flatMap (ServerStep.user c) = [] ∧
      ((machine cfg).restrict NextConnIdFits).collect (acceptedBy c) new as = []) ∧
    ∀ k, s.conns c = some k → RunsAlone cfg c as s k := by
  refine Machine.run_induction
    (P := fun as s => (s.conns c = none → as.flatMap (ServerStep.user c) = [] ∧
      ((machine cfg).restrict NextConnIdFits).collect (acceptedBy c) new as = []) ∧
      ∀ k, s.conns c = some k → RunsAlone cfg c as s k) ?_ ?_ hrun
  · exact ⟨fun _ => ⟨rfl, rfl⟩, fun k hk => (new_conns hk).elim⟩
  · intro as s a s' hrun ih hrestricted
    obtain ⟨hnone, hsome⟩ := ih
    obtain ⟨_, hstep⟩ := Option.ite_none_right_eq_some.mp hrestricted
    have howned : s.Owned cfg := reachable_owned (.run (.init rfl) hrun)
    cases hc : s.conns c with
    | none =>
      obtain ⟨hbefore, hnothing⟩ := hnone hc
      have huser := user_of_none hc (step_moves hstep)
      refine ⟨fun _ => ⟨?_, ?_⟩, ?_⟩
      · rw [List.flatMap_append, hbefore, List.flatMap_singleton, huser]
        rfl
      · rw [Machine.collect_append _ hrun, hnothing, collect_step hrestricted, acceptedBy, hc]
        rfl
      · intro k hk
        exact .first hrun hrestricted hc hbefore hnothing huser (starts_step howned hc hstep hk)
    | some k =>
      have hfollows := follows_step howned hc (step_moves hstep)
      refine ⟨?_, fun k' hk' => .step hrun hrestricted hc (hsome k hc) hfollows hk'⟩
      intro hgone
      obtain ⟨j, _, _, hj, _⟩ := hfollows
      rw [hgone] at hj
      cases hj

end TcpServer

end LTMuduo
