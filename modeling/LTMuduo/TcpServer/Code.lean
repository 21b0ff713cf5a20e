import LTMuduo.Connection.Code
import LTMuduo.EventLoop.Code
import LTMuduo.Lib.Machine
import Mathlib.Data.List.FinRange

/-!
# `TcpServer` and its loops

A server on a base loop and `n` io loops; loop 0 is the base loop, which is its own io loop when `n` is 0. Each loop runs through batches of events and batches of functors, and a step of the machine is a part of a function of one loop thread between two places where user code or another loop can come in. A connection is known by the number it gets from `nextConnId_`, which stands for the pointer as well.

User code calls `send` and `shutdown` on the loop thread of the connection; the model lets it do so at any time. The descriptor of a new connection is arbitrary.
-/

namespace LTMuduo

/-! ### The state -/

/-- The functors in the queues of the loops. Each but `other` holds a strong reference to its connection. -/
inductive LoopFunctor
  | connectEstablished (c : Nat)
  | removeConnectionInLoop (c : Nat)
  | connectDestroyed (c : Nat)
  | other
  deriving DecidableEq

/-- What a loop thread goes on with: `handleClose` or `connectDestroyed` after the connection callback, or `removeConnectionInLoop` after the `erase`. -/
inductive Frame
  | idle
  | closing (c : Nat)
  | removing (c : Nat)
  | destroying (c : Nat)
  deriving DecidableEq

/-- Where the loop of a loop thread stands. In a batch of events, `active` is `activeChannels_`, and `rest` are the channels that have not been handled, with the callbacks to come. -/
inductive Phase
  | poll
  | dispatch (active : List Nat) (rest : List (Nat × List EventCallback))
  | functors (rest : List LoopFunctor)
  deriving DecidableEq

structure IoLoop where
  loop : EventLoop LoopFunctor
  poller : EPollPoller Nat
  phase : Phase
  frame : Frame

/-- A connection with its loop and its name. The two flags are history: `connectEstablished` and `connectDestroyed` have run. -/
structure ServerConn (n : Nat) where
  conn : TcpConnection
  loop : Fin (n + 1)
  name : List Char
  established : Bool
  destroyed : Bool

/-- What the constructor is given. An address and a port have at most 21 characters. -/
structure ServerConfig where
  name : List Char
  ipPort : List Char
  length_ipPort : ipPort.length ≤ 21
  writeCompleteCallback : Bool
  highWaterMarkCallback : Bool
  highWaterMark : Nat

/-- `next` is `next_` of the thread pool. -/
structure TcpServer (n : Nat) where
  nextConnId : Nat
  next : Nat
  connections : List Char → Option Nat
  conns : Nat → Option (ServerConn n)
  loops : Fin (n + 1) → IoLoop

def IoLoop.new : IoLoop where
  loop := .new
  poller := .new
  phase := .poll
  frame := .idle

namespace TcpServer

variable {n : Nat}

def new : TcpServer n where
  nextConnId := 1
  next := 0
  connections := fun _ => none
  conns := fun _ => none
  loops := fun _ => .new

/-- `loop_`. -/
abbrev baseLoop : Fin (n + 1) := 0

/-- The name of a connection, with the buffer of 64 bytes that `snprintf` fills. -/
def connName (cfg : ServerConfig) (connId : Nat) : List Char :=
  cfg.name ++ ('-' :: cfg.ipPort ++ '#' :: Nat.toDigits 10 connId).take 63

/-- `getNextLoop`, with the next value of `next_`. -/
def getNextLoop (n next : Nat) : Fin (n + 1) × Nat :=
  let loops : List (Fin (n + 1)) := (List.finRange n).map Fin.succ
  if loops.isEmpty then (baseLoop, next)
  else (loops[next]?.getD baseLoop, if loops.length ≤ next + 1 then 0 else next + 1)

variable (s : TcpServer n)

def setLoop (l : Fin (n + 1)) (x : IoLoop) : TcpServer n :=
  { s with loops := Function.update s.loops l x }

def setPhase (l : Fin (n + 1)) (phase : Phase) : TcpServer n :=
  s.setLoop l { s.loops l with phase := phase }

def setFrame (l : Fin (n + 1)) (frame : Frame) : TcpServer n :=
  s.setLoop l { s.loops l with frame := frame }

def setConn (c : Nat) (k : ServerConn n) : TcpServer n :=
  { s with conns := Function.update s.conns c (some k) }

/-- `queueInLoop` of loop `l`, called on loop thread `own`. -/
def queueInLoop (own l : Fin (n + 1)) (f : LoopFunctor) : TcpServer n :=
  s.setLoop l { s.loops l with loop := (s.loops l).loop.queueInLoop (own == l) f }

/-- The connection with the poller of its loop. -/
def world (k : ServerConn n) : Conn Nat := ⟨k.conn, (s.loops k.loop).poller, []⟩

/-- Stores what a function of the connection has done. -/
def putWorld (c : Nat) (k : ServerConn n) (w : Conn Nat) : TcpServer n :=
  (s.setConn c { k with conn := w.conn }).setLoop k.loop
    { s.loops k.loop with poller := w.poller }

/-- `connections_.erase`. -/
def erase (name : List Char) : TcpServer n :=
  { s with connections := Function.update s.connections name none }

/-! ### The functions -/

/-- A functor called on loop thread `l`, up to the first callback or call into another loop. -/
def call (l : Fin (n + 1)) : LoopFunctor → TcpServer n
  | .connectEstablished c =>
    match s.conns c with
    | some k =>
      let k := { k with established := true }
      s.putWorld c k ((s.world k).connectEstablished c)
    | none => s
  | .removeConnectionInLoop c =>
    match s.conns c with
    | some k => (s.erase k.name).setFrame l (.removing c)
    | none => s
  | .connectDestroyed c =>
    match s.conns c with
    | some k => (s.putWorld c k ((s.world k).connectDestroyed c)).setFrame l (.destroying c)
    | none => s
  | .other => s

/-- `runInLoop` of loop `l`, called on loop thread `own`. -/
def runInLoop (own l : Fin (n + 1)) (f : LoopFunctor) : TcpServer n :=
  if own = l then s.call l f else s.queueInLoop own l f

/-- A new entry of `connections_`. -/
def addConnection (k : ServerConn n) (next : Nat) : TcpServer n :=
  { s with
    nextConnId := s.nextConnId + 1
    next := next
    conns := Function.update s.conns s.nextConnId (some k)
    connections := Function.update s.connections k.name (some s.nextConnId) }

/-- `newConnection`, which the acceptor calls on the base loop. -/
def newConnection (cfg : ServerConfig) (sockfd : Fd) : TcpServer n :=
  let (ioLoop, next) := getNextLoop n s.next
  let c := s.nextConnId
  let conn : TcpConnection :=
    .new sockfd cfg.writeCompleteCallback cfg.highWaterMarkCallback cfg.highWaterMark
  let s := s.addConnection ⟨conn, ioLoop, connName cfg c, false, false⟩ next
  s.runInLoop baseLoop ioLoop (.connectEstablished c)

def removeConnection (own : Fin (n + 1)) (c : Nat) : TcpServer n :=
  s.runInLoop own baseLoop (.removeConnectionInLoop c)

/-- A callback of the channel of connection `c`, on loop thread `l`. -/
def eventCallback (l : Fin (n + 1)) (c : Nat) (k : ServerConn n) (read : ReadvResult)
    (write : WriteResult) : EventCallback → TcpServer n
  | .closeCallback => (s.putWorld c k ((s.world k).handleClose c)).setFrame l (.closing c)
  | .errorCallback => s.putWorld c k (s.world k).handleError
  | .readCallback =>
    let result := (s.world k).handleRead c read
    if result.2 then (s.putWorld c k result.1).setFrame l (.closing c)
    else s.putWorld c k result.1
  | .writeCallback => s.putWorld c k ((s.world k).handleWrite c write)

/-- What a loop thread does after a callback has returned. -/
def resume (l : Fin (n + 1)) : Option (TcpServer n) :=
  match (s.loops l).frame with
  | .idle => none
  | .closing c => some ((s.setFrame l .idle).removeConnection l c)
  | .removing c =>
    match s.conns c with
    | some k => some ((s.setFrame l .idle).queueInLoop l k.loop (.connectDestroyed c))
    | none => none
  | .destroying c =>
    match s.conns c with
    | some k =>
      let k := { k with destroyed := true }
      some ((s.putWorld c k ((s.world k).connectDestroyedRest c)).setFrame l .idle)
    | none => none

/-! ### The machine -/

end TcpServer

inductive ServerStep (n : Nat)
  | newConnection (sockfd : Fd)
  | poll (l : Fin (n + 1)) (ready : List (Fd × Events))
  | eventCallback (l : Fin (n + 1)) (read : ReadvResult) (write : WriteResult)
  | nextChannel (l : Fin (n + 1))
  | resume (l : Fin (n + 1))
  | swapFunctors (l : Fin (n + 1))
  | runFunctor (l : Fin (n + 1))
  | endFunctors (l : Fin (n + 1))
  | send (c : Nat) (buf : List Byte) (r : WriteResult)
  | shutdown (c : Nat)
  | queueOther (own l : Fin (n + 1))

def ServerStep.accepts {n : Nat} : ServerStep n → Bool
  | .newConnection _ => true
  | _ => false

namespace TcpServer

variable {n : Nat} (cfg : ServerConfig) (s : TcpServer n)

/-- The channels of the ready descriptors, with the callbacks that each is going to get. As in `Polling`, `set_revents` is taken to return. -/
def fillActiveChannels (poller : EPollPoller Nat) (ready : List (Fd × Events)) :
    List (Nat × List EventCallback) :=
  ready.filterMap fun (fd, revents) =>
    (poller.kernel fd).map fun (_, c) => (c, Channel.handleEventWithGuard revents)

def step : ServerStep n → Option (TcpServer n)
  | .newConnection sockfd =>
    match (s.loops baseLoop).phase, (s.loops baseLoop).frame with
    | .dispatch _ _, .idle => some (s.newConnection cfg sockfd)
    | _, _ => none
  | .poll l ready =>
    match (s.loops l).phase, (s.loops l).frame with
    | .poll, .idle =>
      let batch := fillActiveChannels (s.loops l).poller ready
      some (s.setPhase l (.dispatch (batch.map Prod.fst) batch))
    | _, _ => none
  | .eventCallback l read write =>
    match (s.loops l).phase, (s.loops l).frame with
    | .dispatch active ((c, callback :: callbacks) :: rest), .idle =>
      match s.conns c with
      | some k =>
        some ((s.setPhase l (.dispatch active ((c, callbacks) :: rest))).eventCallback l c k read
          write callback)
      | none => none
    | _, _ => none
  | .nextChannel l =>
    match (s.loops l).phase, (s.loops l).frame with
    | .dispatch active ((_, []) :: rest), .idle => some (s.setPhase l (.dispatch active rest))
    | _, _ => none
  | .resume l => s.resume l
  | .swapFunctors l =>
    match (s.loops l).phase, (s.loops l).frame with
    | .dispatch _ [], .idle =>
      let (loop, functors) := (s.loops l).loop.beginPendingFunctors.swapFunctors
      some (s.setLoop l { s.loops l with loop := loop, phase := .functors functors })
    | _, _ => none
  | .runFunctor l =>
    match (s.loops l).phase, (s.loops l).frame with
    | .functors (f :: rest), .idle => some ((s.setPhase l (.functors rest)).call l f)
    | _, _ => none
  | .endFunctors l =>
    match (s.loops l).phase, (s.loops l).frame with
    | .functors [], .idle =>
      let loop := (s.loops l).loop.endPendingFunctors
      some (s.setLoop l { s.loops l with loop := loop, phase := .poll })
    | _, _ => none
  | .send c buf r =>
    match s.conns c with
    | some k => some (s.putWorld c k ((s.world k).send c buf r))
    | none => none
  | .shutdown c =>
    match s.conns c with
    | some k => some (s.putWorld c k (s.world k).shutdown)
    | none => none
  | .queueOther own l => some (s.queueInLoop own l .other)

def machine : Machine (TcpServer n) (ServerStep n) where
  init s := s = new
  step := step cfg

end TcpServer

end LTMuduo
