import LTMuduo.Buffer.ValidBuffer
import LTMuduo.Poller.Code

/-!
# `TcpConnection`

The functions of `TcpConnection.cc` as they run on the loop thread of the connection, together with the poller of that loop. A system call takes its answer as an argument. What can be seen from outside, the calls on the socket, the callbacks and the functors handed to the loop, is appended to `effects` in the order in which it happens.

A user callback is not a part of these functions: the code that the user runs inside of a callback is a sequence of further calls. Two functions go on after a callback and are cut there, `handleClose` into `handleClose` and `handleCloseRest`, `connectDestroyed` into `connectDestroyed` and `connectDestroyedRest`.
-/

namespace LTMuduo

/-- The values of `state_`. -/
inductive StateE
  | kDisconnected
  | kConnecting
  | kConnected
  | kDisconnecting
  deriving DecidableEq

/-- The functors a connection hands to `queueInLoop`. -/
inductive Callback
  | writeComplete
  | highWaterMark (backlog : Nat)
  deriving DecidableEq

/-- `sendInLoop` names its payload and the answer to its `::write`, if it makes one; `handleWrite` names the bytes of the output buffer that its `::write` took over, and the answer. -/
inductive Effect
  | sendInLoop (data : List Byte) (write : Option WriteResult)
  | handleWrite (written : List Byte) (write : WriteResult)
  | shutdownWrite
  | queueInLoop (f : Callback)
  | connectionCallback (connected : Bool)
  | messageCallback
  | closeCallback
  deriving DecidableEq

/-- The two callbacks are booleans that say whether they are set. -/
structure TcpConnection where
  state : StateE
  channel : Channel
  writeCompleteCallback : Bool
  highWaterMarkCallback : Bool
  highWaterMark : Nat
  inputBuffer : ValidBuffer
  outputBuffer : ValidBuffer

/-- The constructor, and the callbacks set by `TcpServer::newConnection` and the user. -/
def TcpConnection.new (sockfd : Fd) (writeCompleteCallback highWaterMarkCallback : Bool)
    (highWaterMark : Nat) : TcpConnection where
  state := .kConnecting
  channel := .new sockfd
  writeCompleteCallback := writeCompleteCallback
  highWaterMarkCallback := highWaterMarkCallback
  highWaterMark := highWaterMark
  inputBuffer := .new Buffer.kInitialSize
  outputBuffer := .new Buffer.kInitialSize

/-- A connection with the poller of its loop and the effects so far. `C` is the type of pointers to channels. -/
structure Conn (C : Type*) where
  conn : TcpConnection
  poller : EPollPoller C
  effects : List Effect

namespace Conn

variable {C : Type*} (w : Conn C) (c : C)

def emit (e : Effect) : Conn C := { w with effects := w.effects ++ [e] }

def setState (state : StateE) : Conn C := { w with conn.state := state }

/-- Stores what a call on the channel returns. -/
def putChannel (result : EPollPoller C × Channel) : Conn C :=
  { w with conn.channel := result.2, poller := result.1 }

def enableReading : Conn C := w.putChannel (w.conn.channel.enableReading w.poller c)

def enableWriting : Conn C := w.putChannel (w.conn.channel.enableWriting w.poller c)

def disableWriting : Conn C := w.putChannel (w.conn.channel.disableWriting w.poller c)

def disableAll : Conn C := w.putChannel (w.conn.channel.disableAll w.poller c)

def removeChannel : Conn C := w.putChannel (w.conn.channel.remove w.poller c)

def isWriting : Bool := w.conn.channel.isWriting

/-- Hands `writeCompleteCallback_` to the loop, if it is set. -/
def queueWriteComplete : Conn C :=
  if w.conn.writeCompleteCallback then w.emit (.queueInLoop .writeComplete) else w

/-- Hands `highWaterMarkCallback_` to the loop, if it is set and `remaining` more bytes reach the mark. -/
def queueHighWaterMark (remaining : Nat) : Conn C :=
  let oldLen := w.conn.outputBuffer.readableBytes
  if w.conn.highWaterMark ≤ oldLen + remaining ∧ oldLen < w.conn.highWaterMark ∧
      w.conn.highWaterMarkCallback then
    w.emit (.queueInLoop (.highWaterMark (oldLen + remaining)))
  else w

/-- The local variables of `sendInLoop` after its first part. -/
structure Sent where
  nwrote : Nat
  remaining : Nat
  faultError : Bool

/-- The test of `sendInLoop` for a direct write: no write interest, and nothing buffered. -/
def writesDirectly : Bool := !w.isWriting && w.conn.outputBuffer.readableBytes == 0

/-- The first part of `sendInLoop`, up to the end of the direct write. -/
def sendDirectly (data : List Byte) (r : WriteResult) : Conn C × Sent :=
  if w.writesDirectly then
    let w := w.emit (.sendInLoop data (some r))
    match r with
    | .accepted n =>
      let nwrote := min n data.length
      let remaining := data.length - nwrote
      let w := if remaining = 0 then w.queueWriteComplete else w
      (w, { nwrote, remaining, faultError := false })
    | .failed errno logged =>
      -- `LOG_ERROR` stands between the two tests
      let faultError := errno ≠ .EWOULDBLOCK ∧ (logged = .EPIPE ∨ logged = .ECONNRESET)
      (w, { nwrote := 0, remaining := data.length, faultError })
  else
    (w.emit (.sendInLoop data none), { nwrote := 0, remaining := data.length, faultError := false })

/-- Appends to the output buffer and turns the write interest on. -/
def bufferOutput (rest : List Byte) : Conn C :=
  let w := { w with conn.outputBuffer := w.conn.outputBuffer.append rest }
  if !w.isWriting then w.enableWriting c else w

/-- The second part of `sendInLoop`: what is left goes to the output buffer. -/
def bufferRest (data : List Byte) (sent : Sent) : Conn C :=
  if !sent.faultError ∧ 0 < sent.remaining then
    (w.queueHighWaterMark sent.remaining).bufferOutput c (data.drop sent.nwrote)
  else w

def sendInLoop (data : List Byte) (r : WriteResult) : Conn C :=
  if w.conn.state = .kDisconnected then w
  else
    let (w, sent) := w.sendDirectly data r
    w.bufferRest c data sent

/-- `send` on the loop thread. -/
def send (buf : List Byte) (r : WriteResult) : Conn C :=
  if w.conn.state = .kConnected then w.sendInLoop c buf r else w

def shutdownInLoop : Conn C := if !w.isWriting then w.emit .shutdownWrite else w

/-- `shutdown` on the loop thread, where `runInLoop` runs `shutdownInLoop` at once. -/
def shutdown : Conn C :=
  if w.conn.state = .kConnected then (w.setState .kDisconnecting).shutdownInLoop else w

/-- Calls `connectionCallback_`, which sees `connected()`. -/
def connectionCallback : Conn C := w.emit (.connectionCallback (w.conn.state = .kConnected))

def connectEstablished : Conn C :=
  let w := w.setState .kConnected
  let w := { w with conn.channel.tied := true }
  let w := w.enableReading c
  w.connectionCallback

/-- `connectDestroyed` up to the end of the connection callback. -/
def connectDestroyed : Conn C :=
  if w.conn.state = .kConnected then
    ((w.setState .kDisconnected).disableAll c).connectionCallback
  else w

/-- The rest of `connectDestroyed`. -/
def connectDestroyedRest : Conn C := w.removeChannel c

/-- `handleClose` up to the end of the connection callback. -/
def handleClose : Conn C := ((w.setState .kDisconnected).disableAll c).connectionCallback

/-- The rest of `handleClose`. -/
def handleCloseRest : Conn C := w.emit .closeCallback

/-- Reads `SO_ERROR` and logs it. -/
def handleError : Conn C := w

/-- `handleRead`. The flag says that it went into `handleClose`. -/
def handleRead (r : ReadvResult) : Conn C × Bool :=
  let (inputBuffer, n) := w.conn.inputBuffer.readFd r
  let w := { w with conn.inputBuffer := inputBuffer }
  if 0 < n then (w.emit .messageCallback, false)
  else if n = 0 then (w.handleClose c, true)
  else (w.handleError, false)

def retrieveOutput (len : Nat) : Conn C :=
  { w with conn.outputBuffer := w.conn.outputBuffer.retrieve len }

/-- `handleWrite` up to the test of `state_`. The flag says that the test is reached. -/
def handleWriteDrain (r : WriteResult) : Conn C × Bool :=
  if w.isWriting then
    let (n, written) := w.conn.outputBuffer.writeFd r
    let w := w.emit (.handleWrite written r)
    if 0 < n then
      let w := w.retrieveOutput n.toNat
      if w.conn.outputBuffer.readableBytes = 0 then
        ((w.disableWriting c).queueWriteComplete, true)
      else (w, false)
    else (w, false)
  else (w, false)

/-- The test of `state_` in `handleWrite`, and what it guards. -/
def handleWriteFinish : Conn C :=
  if w.conn.state = .kDisconnecting then w.shutdownInLoop else w

def handleWrite (r : WriteResult) : Conn C :=
  let (w, drained) := w.handleWriteDrain c r
  if drained then w.handleWriteFinish else w

end Conn

end LTMuduo
