import LTMuduo.Poller.Code
import Mathlib.Algebra.Group.Nat.Defs

/-!
# Start-up

The construction of the `EventLoop` of a thread, of a `TcpServer` with its `Acceptor` on it, and the calls of `TcpServer::start` without io threads. What each system call reports is an argument; the calls that the code does not look at the result of (`setsockopt`) are left out. `LOG_FATAL` ends the process.
-/

namespace LTMuduo

/-- What the kernel reports; `none` and `false` are failures. `listen n` and `epoll_ctl n` answer the call number `n`. -/
structure Outcomes where
  epoll_create1 : Option Fd
  eventfd : Option Fd
  socket : Option Fd
  bind : Bool
  listen : Nat → Bool
  epoll_ctl : Nat → Bool

inductive SysCall
  | epoll_create1
  | eventfd
  | epoll_ctl (operation : CtlOp) (fd : Fd)
  | socket
  | bind (fd : Fd)
  | listen (fd : Fd)
  deriving DecidableEq

namespace SysCall

def isCtl : SysCall → Bool
  | .epoll_ctl _ _ => true
  | _ => false

def isListen : SysCall → Bool
  | .listen _ => true
  | _ => false

end SysCall

inductive StartChannel
  | wakeupChannel
  | acceptChannel
  deriving DecidableEq

/-- `calls` are the system calls made so far, each with whether it succeeded; `loopInThisThread` is `t_loopInThisThread != nullptr`; `channels` and `kernel` are `channels_` of the poller and the interest set behind `epollfd_`. -/
structure Process where
  calls : List (SysCall × Bool)
  loopInThisThread : Bool
  channels : Fd → Option StartChannel
  kernel : InterestSet StartChannel

namespace Process

/-- The thread before the construction of its loop. -/
def start : Process where
  calls := []
  loopInThisThread := false
  channels := fun _ => none
  kernel := fun _ => none

def record (s : Process) (call : SysCall) (ok : Bool) : Process :=
  { s with calls := s.calls ++ [(call, ok)] }

/-- The calls of a kind that have been made. -/
def count (s : Process) (kind : SysCall → Bool) : Nat := s.calls.countP fun call => kind call.1

/-- A call has reported failure. -/
def Failed (s : Process) : Prop := ∃ call ∈ s.calls, call.2 = false

end Process

/-- Code that runs to its end or exits through `LOG_FATAL`. -/
abbrev Proc (α : Type) := OptionT (StateM Process) α

namespace Proc

variable {α β : Type}

def logFatal : Proc α := failure

def call (syscall : SysCall) (ok : Bool) : Proc Unit := modify fun s => s.record syscall ok

/-- The result, `none` when the process has exited, and the process. -/
def exec (x : Proc α) (s : Process) : Option α × Process := (x.run.run s).run

@[simp] theorem exec_get (s : Process) : exec get s = (some s, s) := rfl

@[simp] theorem exec_modify (f : Process → Process) (s : Process) :
    exec (modify f) s = (some (), f s) := rfl

@[simp] theorem exec_call (syscall : SysCall) (ok : Bool) (s : Process) :
    (call syscall ok).exec s = (some (), s.record syscall ok) := rfl

theorem exec_bind (x : Proc α) (f : α → Proc β) (s : Process) :
    (x >>= f).exec s = (x.exec s).1.elim (none, (x.exec s).2) fun a => (f a).exec (x.exec s).2 := by
  change (((x >>= f).run).run s).run = _
  rw [OptionT.run_bind, Option.elimM, StateT.run_bind]
  unfold exec
  cases x.run.run s with
  | mk r t => cases r <;> rfl

theorem exec_bind_some {x : Proc α} {f : α → Proc β} {s s' : Process} {b : β}
    (h : (x >>= f).exec s = (some b, s')) :
    ∃ a t, x.exec s = (some a, t) ∧ (f a).exec t = (some b, s') := by
  rw [exec_bind] at h
  cases hx : x.exec s with
  | mk r t =>
    rw [hx] at h
    cases r with
    | none => cases h
    | some a => exact ⟨a, t, rfl, h⟩

/-- The process exits exactly when a call reports failure. -/
def Exact (x : Proc α) : Prop :=
  ∀ s, ¬ s.Failed → ((x.exec s).1 = none ↔ (x.exec s).2.Failed)

theorem exact_pure (a : α) : Exact (pure a) := fun _ hs => iff_of_false nofun hs

theorem Exact.bind {x : Proc α} {f : α → Proc β} (hx : x.Exact) (hf : ∀ a, (f a).Exact) :
    (x >>= f).Exact := by
  intro s hs
  have hfirst := hx s hs
  rw [exec_bind]
  cases hr : (x.exec s).1 with
  | none => exact iff_of_true rfl (hfirst.mp hr)
  | some a =>
    have hok : ¬ (x.exec s).2.Failed := by
      rw [← hfirst, hr]
      exact nofun
    exact hf a _ hok

end Proc

/-! ### The code -/

namespace Startup

variable (o : Outcomes)

/-- The constructor of `EPollPoller`; `MUDUO_USE_POLL` is not set. -/
def newEPollPoller : Proc Fd := do
  Proc.call .epoll_create1 o.epoll_create1.isSome
  match o.epoll_create1 with
  | none => Proc.logFatal
  | some epollfd => return epollfd

def createEventfd : Proc Fd := do
  Proc.call .eventfd o.eventfd.isSome
  match o.eventfd with
  | none => Proc.logFatal
  | some evtfd => return evtfd

/-- `EPollPoller::update`. -/
def update (operation : CtlOp) (c : StartChannel) (ch : Channel) : Proc Unit := do
  let s ← get
  let ok := o.epoll_ctl (s.count SysCall.isCtl)
  Proc.call (.epoll_ctl operation ch.fd) ok
  if ok then
    let entry := if operation = .EPOLL_CTL_DEL then none else some (ch.events, c)
    modify fun s => { s with kernel := Function.update s.kernel ch.fd entry }
  else if operation = .EPOLL_CTL_DEL then
    return
  else
    Proc.logFatal

/-- `channels_[fd] = channel`, for a channel that is new. -/
def addChannel (c : StartChannel) (ch : Channel) (s : Process) : Process :=
  if ch.index = .kNew then
    { s with channels := Function.update s.channels ch.fd (some c) }
  else s

/-- `EPollPoller::updateChannel`. -/
def updateChannel (c : StartChannel) (ch : Channel) : Proc Channel := do
  if ch.index = .kNew ∨ ch.index = .kDeleted then
    modify (addChannel c ch)
    let ch := { ch with index := .kAdded }
    update o .EPOLL_CTL_ADD c ch
    return ch
  else if ch.isNoneEvent then
    update o .EPOLL_CTL_DEL c ch
    return { ch with index := .kDeleted }
  else
    update o .EPOLL_CTL_MOD c ch
    return ch

def enableReading (c : StartChannel) (ch : Channel) : Proc Channel :=
  updateChannel o c { ch with events := ch.events ||| Channel.kReadEvent }

/-- The fields that the constructor of `EventLoop` fills from system calls. -/
structure Loop where
  epollfd : Fd
  wakeupFd : Fd
  wakeupChannel : Channel

def newEventLoop : Proc Loop := do
  let epollfd ← newEPollPoller o
  let wakeupFd ← createEventfd o
  let s ← get
  if s.loopInThisThread then
    Proc.logFatal
  else
    modify fun s => { s with loopInThisThread := true }
    let wakeupChannel ← enableReading o .wakeupChannel (.new wakeupFd)
    return { epollfd, wakeupFd, wakeupChannel }

/-- The result of `::socket` is never returned. -/
def createNonblocking : Proc Fd := do
  Proc.call .socket o.socket.isSome
  -- the block of the error has no `if (sockfd < 0)` before it
  Proc.logFatal

def bindAddress (sockfd : Fd) : Proc Unit := do
  Proc.call (.bind sockfd) o.bind
  if o.bind then return else Proc.logFatal

/-- `Socket::listen`. -/
def listenSocket (sockfd : Fd) : Proc Unit := do
  let s ← get
  let ok := o.listen (s.count SysCall.isListen)
  Proc.call (.listen sockfd) ok
  if ok then return else Proc.logFatal

structure Acceptor where
  acceptSocket : Fd
  acceptChannel : Channel
  listenning : Bool

/-- `create` is `createNonblocking`. -/
def newAcceptor (create : Proc Fd) : Proc Acceptor := do
  let acceptSocket ← create
  bindAddress o acceptSocket
  return { acceptSocket, acceptChannel := .new acceptSocket, listenning := false }

/-- `Acceptor::listen`. -/
def listen (acceptor : Acceptor) : Proc Acceptor := do
  listenSocket o acceptor.acceptSocket
  let acceptChannel ← enableReading o .acceptChannel acceptor.acceptChannel
  return { acceptor with acceptChannel, listenning := true }

/-- `started` is an `atomic_int`. -/
structure Server where
  acceptor : Acceptor
  started : BitVec 32

def newTcpServer (create : Proc Fd) : Proc Server := do
  let acceptor ← newAcceptor o create
  return { acceptor, started := 0 }

/-- `TcpServer::start`. Without threads, the pool starts nothing; `runInLoop` on the thread of the loop calls `Acceptor::listen`. -/
def start (server : Server) : Proc Server := do
  if server.started = 0 then
    let acceptor ← listen o server.acceptor
    return { acceptor, started := server.started + 1 }
  else
    return { server with started := server.started + 1 }

/-- `k` calls of `start`. -/
def starts : Nat → Server → Proc Server
  | 0, server => return server
  | k + 1, server => do
    let server ← start o server
    starts k server

def startUp (create : Proc Fd) (k : Nat) : Proc Server := do
  let _ ← newEventLoop o
  let server ← newTcpServer o create
  starts o k server

/-- The process has exited exactly if a call has reported failure, and else it listens on the socket. -/
structure StartsRight (result : Option Server × Process) : Prop where
  exits : result.1 = none ↔ result.2.Failed
  socket : ∀ server, result.1 = some server → o.socket = some server.acceptor.acceptSocket
  listens : ∀ server, result.1 = some server →
    result.2.calls.filter (fun call => call.1.isListen) =
      [(.listen server.acceptor.acceptSocket, true)]
  registered : ∀ server, result.1 = some server →
    server.acceptor.acceptChannel.fd = server.acceptor.acceptSocket ∧
      result.2.channels server.acceptor.acceptSocket = some .acceptChannel ∧
      result.2.kernel server.acceptor.acceptSocket =
        some (Channel.kReadEvent, .acceptChannel)

/-! ### Every failure exits, and nothing else does -/

section

variable {o}

theorem failed_record {s : Process} {call : SysCall} {ok : Bool} :
    (s.record call ok).Failed ↔ s.Failed ∨ ok = false := by
  simp only [Process.Failed, Process.record, List.mem_append, List.mem_singleton]
  constructor
  · rintro ⟨c, hc | rfl, hfailed⟩
    · exact Or.inl ⟨c, hc, hfailed⟩
    · exact Or.inr hfailed
  · rintro (⟨c, hc, hfailed⟩ | hok)
    · exact ⟨c, Or.inl hc, hfailed⟩
    · exact ⟨(call, ok), Or.inr rfl, hok⟩

theorem exact_status (call : SysCall) (ok : Bool) {x : Proc Unit} (hx : x.Exact) :
    Proc.Exact (do
      Proc.call call ok
      if ok then x else Proc.logFatal) := by
  intro s hs
  cases ok with
  | false => exact iff_of_true rfl (failed_record.mpr (Or.inr rfl))
  | true => exact hx _ fun h => hs ((failed_record.mp h).resolve_right nofun)

theorem exact_get : Proc.Exact get := fun _ hs => iff_of_false nofun hs

theorem exact_modify {f : Process → Process} (hf : ∀ s, (f s).calls = s.calls) :
    Proc.Exact (modify f) := by
  intro s hs
  refine iff_of_false nofun ?_
  change ¬ (f s).Failed
  rwa [Process.Failed, hf]

theorem exact_update {operation : CtlOp} (hop : operation ≠ .EPOLL_CTL_DEL) (c : StartChannel)
    (ch : Channel) : (update o operation c ch).Exact := by
  refine exact_get.bind fun s => ?_
  simp only [if_neg hop]
  exact exact_status _ _ (exact_modify fun _ => rfl)

theorem exact_enableReading (c : StartChannel) (ch : Channel) :
    (enableReading o c ch).Exact := by
  have hevents : ({ ch with events := ch.events ||| Channel.kReadEvent } : Channel).isNoneEvent =
      false := by
    simp only [Channel.isNoneEvent, Channel.kNoneEvent, beq_eq_false_iff_ne]
    intro hzero
    have hbit := congrArg (BitVec.getLsbD · 0) hzero
    simp [Channel.kReadEvent, EPOLLIN, EPOLLPRI] at hbit
  unfold enableReading updateChannel
  split
  · have hadd : Proc.Exact (modify (addChannel c { ch with events := ch.events ||| Channel.kReadEvent })) := by
      refine exact_modify fun s => ?_
      unfold addChannel
      split <;> rfl
    exact hadd.bind fun _ => (exact_update (by decide) c _).bind fun _ => Proc.exact_pure _
  · rw [hevents]
    exact (exact_update (by decide) c _).bind fun _ => Proc.exact_pure _

theorem exact_bindAddress (sockfd : Fd) : (bindAddress o sockfd).Exact :=
  exact_status _ _ (Proc.exact_pure ())

theorem exact_listenSocket (sockfd : Fd) : (listenSocket o sockfd).Exact :=
  exact_get.bind fun _ => exact_status _ _ (Proc.exact_pure ())

theorem exact_start (server : Server) : (start o server).Exact := by
  unfold start
  split
  · refine Proc.Exact.bind ?_ fun _ => Proc.exact_pure _
    refine (exact_listenSocket _).bind fun _ => ?_
    exact (exact_enableReading _ _).bind fun _ => Proc.exact_pure _
  · exact Proc.exact_pure _

theorem exact_starts (k : Nat) (server : Server) : (starts o k server).Exact := by
  induction k generalizing server with
  | zero => exact Proc.exact_pure _
  | succ k ih => exact (exact_start server).bind ih

theorem exact_newTcpServer {create : Proc Fd} (hcreate : create.Exact) :
    (newTcpServer o create).Exact := by
  refine Proc.Exact.bind ?_ fun _ => Proc.exact_pure _
  exact hcreate.bind fun _ => (exact_bindAddress _).bind fun _ => Proc.exact_pure _

end

/-! ### The loop -/

/-- The failures before the socket. -/
def LoopFails : Prop := o.epoll_create1 = none ∨ o.eventfd = none ∨ o.epoll_ctl 0 = false

variable {o}

/-- A new channel with its interest in reading, registered. -/
def reading (fd : Fd) : Channel where
  fd := fd
  events := Channel.kReadEvent
  index := .kAdded
  tied := false

theorem exec_update {operation : CtlOp} (hop : operation ≠ .EPOLL_CTL_DEL) (c : StartChannel)
    (ch : Channel) (s : Process) :
    (update o operation c ch).exec s =
      if o.epoll_ctl (s.count SysCall.isCtl) then
        (some (), { s.record (.epoll_ctl operation ch.fd) true with
          kernel := Function.update s.kernel ch.fd (some (ch.events, c)) })
      else (none, s.record (.epoll_ctl operation ch.fd) false) := by
  unfold update
  rw [Proc.exec_bind, Proc.exec_get]
  simp only [Option.elim_some, if_neg hop, Proc.exec_bind, Proc.exec_call]
  cases o.epoll_ctl (s.count SysCall.isCtl) <;> rfl

theorem exec_updateChannel_new {ch : Channel} (hindex : ch.index = .kNew) (c : StartChannel)
    (s : Process) :
    (updateChannel o c ch).exec s =
      (update o .EPOLL_CTL_ADD c { ch with index := .kAdded } >>= fun _ =>
        pure { ch with index := .kAdded }).exec
          { s with channels := Function.update s.channels ch.fd (some c) } := by
  unfold updateChannel
  rw [if_pos (Or.inl hindex), Proc.exec_bind, Proc.exec_modify, addChannel, if_pos hindex]
  rfl

theorem exec_enableReading_new (c : StartChannel) (fd : Fd) (s : Process) :
    (enableReading o c (.new fd)).exec s =
      if o.epoll_ctl (s.count SysCall.isCtl) then
        (some (reading fd),
          { s.record (.epoll_ctl .EPOLL_CTL_ADD fd) true with
            channels := Function.update s.channels fd (some c)
            kernel := Function.update s.kernel fd (some (Channel.kReadEvent, c)) })
      else
        (none,
          { s.record (.epoll_ctl .EPOLL_CTL_ADD fd) false with
            channels := Function.update s.channels fd (some c) }) := by
  let t : Process := { s with channels := Function.update s.channels fd (some c) }
  have hindex : ({ Channel.new fd with events := 0 ||| Channel.kReadEvent } : Channel).index =
      .kNew := rfl
  have hadd : (enableReading o c (.new fd)).exec s =
      (update o .EPOLL_CTL_ADD c (reading fd) >>= fun _ => pure (reading fd)).exec t :=
    exec_updateChannel_new hindex c s
  have hupdate : (update o .EPOLL_CTL_ADD c (reading fd)).exec t =
      if o.epoll_ctl (s.count SysCall.isCtl) then
        (some (), { t.record (.epoll_ctl .EPOLL_CTL_ADD fd) true with
          kernel := Function.update s.kernel fd (some (Channel.kReadEvent, c)) })
      else (none, t.record (.epoll_ctl .EPOLL_CTL_ADD fd) false) :=
    exec_update (by decide) c (reading fd) t
  rw [hadd, Proc.exec_bind, hupdate]
  split <;> rfl

/-- The process behind `createEventfd`. -/
def afterEventfd : Process :=
  { (Process.start.record .epoll_create1 true).record .eventfd true with loopInThisThread := true }

theorem exec_newEventLoop {epollfd wakeupFd : Fd} (hepoll : o.epoll_create1 = some epollfd)
    (hevent : o.eventfd = some wakeupFd) :
    (newEventLoop o).exec .start =
      (enableReading o .wakeupChannel (.new wakeupFd) >>= fun ch =>
        pure { epollfd, wakeupFd, wakeupChannel := ch }).exec afterEventfd := by
  unfold newEventLoop newEPollPoller createEventfd
  rw [hepoll, hevent]
  rfl

theorem newEventLoop_of_fails (h : LoopFails o) :
    ((newEventLoop o).exec .start).1 = none ∧ ((newEventLoop o).exec .start).2.Failed := by
  cases hepoll : o.epoll_create1 with
  | none =>
    unfold newEventLoop newEPollPoller
    rw [hepoll]
    exact ⟨rfl, _, List.mem_singleton_self _, rfl⟩
  | some epollfd =>
    cases hevent : o.eventfd with
    | none =>
      unfold newEventLoop newEPollPoller createEventfd
      rw [hepoll, hevent]
      exact ⟨rfl, _, List.mem_cons_of_mem _ (List.mem_singleton_self _), rfl⟩
    | some wakeupFd =>
      have hctl : o.epoll_ctl 0 = false := by
        rcases h with h | h | h
        · rw [hepoll] at h
          cases h
        · rw [hevent] at h
          cases h
        · exact h
      have hcount : afterEventfd.count SysCall.isCtl = 0 := rfl
      rw [exec_newEventLoop hepoll hevent, Proc.exec_bind, exec_enableReading_new, hcount, hctl]
      exact ⟨rfl, failed_record.mpr (Or.inr rfl)⟩

theorem newEventLoop_of_not_fails (h : ¬ LoopFails o) :
    ∃ loop t, (newEventLoop o).exec .start = (some loop, t) ∧ ¬ t.Failed ∧
      t.calls.filter (fun call => call.1.isListen) = [] := by
  obtain ⟨hepoll, h⟩ := not_or.mp h
  obtain ⟨hevent, hctl⟩ := not_or.mp h
  obtain ⟨epollfd, hepoll⟩ := Option.ne_none_iff_exists'.mp hepoll
  obtain ⟨wakeupFd, hevent⟩ := Option.ne_none_iff_exists'.mp hevent
  have hctl : o.epoll_ctl 0 = true := by simpa using hctl
  have hcount : afterEventfd.count SysCall.isCtl = 0 := rfl
  rw [exec_newEventLoop hepoll hevent, Proc.exec_bind, exec_enableReading_new, hcount, hctl]
  refine ⟨_, _, rfl, ?_, rfl⟩
  simp [Process.Failed, afterEventfd, Process.record, Process.start]

/-! ### The result -/

theorem exec_newTcpServer (s : Process) :
    (newTcpServer o (createNonblocking o)).exec s = (none, s.record .socket o.socket.isSome) := rfl

/-- The construction of the acceptor exits whatever `::socket` reports, so start-up is right exactly when it reports failure, or one of the calls before it does. -/
theorem starts_right_iff (o : Outcomes) (k : Nat) :
    StartsRight o ((startUp o (createNonblocking o) k).exec .start) ↔
      o.epoll_create1 = none ∨ o.eventfd = none ∨ o.epoll_ctl 0 = false ∨ o.socket = none := by
  have hcond : (o.epoll_create1 = none ∨ o.eventfd = none ∨ o.epoll_ctl 0 = false ∨ o.socket = none) ↔
      LoopFails o ∨ o.socket = none := by
    unfold LoopFails
    tauto
  have hvacuous {t : Process} (hexits : t.Failed ↔ LoopFails o ∨ o.socket = none) :
      StartsRight o (none, t) ↔ LoopFails o ∨ o.socket = none := by
    rw [← hexits]
    exact ⟨fun h => h.exits.mp rfl, fun h => ⟨iff_of_true rfl h, nofun, nofun, nofun⟩⟩
  rw [hcond]
  unfold startUp
  rw [Proc.exec_bind]
  by_cases hloop : LoopFails o
  · obtain ⟨hnone, hfailed⟩ := newEventLoop_of_fails hloop
    rw [hnone]
    exact hvacuous (iff_of_true hfailed (Or.inl hloop))
  · obtain ⟨loop, t, hexec, hok, _⟩ := newEventLoop_of_not_fails hloop
    rw [hexec]
    dsimp only [Option.elim_some]
    rw [Proc.exec_bind, exec_newTcpServer]
    apply hvacuous
    rw [failed_record]
    simp [hok, hloop]

/-! ### The rest of start-up -/

/-- What a `createNonblocking` with the test would do. -/
def CreatesSocket (o : Outcomes) (create : Proc Fd) : Prop :=
  ∀ s, create.exec s = (o.socket, s.record .socket o.socket.isSome)

theorem CreatesSocket.exact {create : Proc Fd} (h : CreatesSocket o create) : create.Exact := by
  intro s hs
  rw [h s, failed_record]
  simp [hs]

/-- Nothing happens in a further `start`, up to the wrap of the counter. -/
theorem starts_again (k : Nat) (server : Server) (s : Process) (hfirst : 0 < server.started.toNat)
    (hmax : server.started.toNat + k < 2 ^ 32) :
    ∃ started, (starts o k server).exec s = (some { server with started }, s) := by
  induction k generalizing server with
  | zero => exact ⟨server.started, rfl⟩
  | succ k ih =>
    have hne : server.started ≠ 0 := by
      intro hzero
      rw [hzero] at hfirst
      exact absurd hfirst (by decide)
    have hnext : (server.started + 1).toNat = server.started.toNat + 1 := by
      rw [BitVec.toNat_add]
      apply Nat.mod_eq_of_lt
      change server.started.toNat + 1 < 2 ^ 32
      omega
    obtain ⟨started, hrest⟩ := ih { server with started := server.started + 1 }
      (by dsimp only; omega) (by dsimp only; omega)
    refine ⟨started, ?_⟩
    unfold starts start
    rw [if_neg hne]
    exact hrest

theorem exec_listenSocket_some {sockfd : Fd} {s t : Process}
    (h : (listenSocket o sockfd).exec s = (some (), t)) : t = s.record (.listen sockfd) true := by
  unfold listenSocket at h
  rw [Proc.exec_bind, Proc.exec_get] at h
  dsimp only [Option.elim_some] at h
  cases hok : o.listen (s.count SysCall.isListen) with
  | true =>
    rw [hok] at h
    exact ((Prod.mk.inj h).2).symm
  | false =>
    rw [hok] at h
    cases h

theorem exec_newTcpServer_some {create : Proc Fd} (hcreate : CreatesSocket o create) {s t : Process}
    {server : Server} (h : (newTcpServer o create).exec s = (some server, t)) :
    ∃ sockfd, o.socket = some sockfd ∧
      server = { acceptor := ⟨sockfd, .new sockfd, false⟩, started := 0 } ∧
      t.calls.filter (fun call => call.1.isListen) = s.calls.filter (fun call => call.1.isListen) := by
  obtain ⟨acceptor, u, hacceptor, hserver⟩ := Proc.exec_bind_some h
  obtain ⟨sockfd, v, hsocket, hrest⟩ := Proc.exec_bind_some hacceptor
  obtain ⟨_, w, hbind, hacceptor⟩ := Proc.exec_bind_some hrest
  cases hserver
  cases hacceptor
  rw [hcreate s] at hsocket
  obtain ⟨hreturned, hv⟩ := Prod.mk.inj hsocket
  subst hv
  refine ⟨sockfd, hreturned, rfl, ?_⟩
  unfold bindAddress at hbind
  cases hok : o.bind with
  | true =>
    rw [hok] at hbind
    cases hbind
    simp [Process.record, SysCall.isListen]
  | false =>
    rw [hok] at hbind
    cases hbind

theorem exec_start_some {sockfd : Fd} {s t : Process} {server : Server}
    (h : (start o { acceptor := ⟨sockfd, .new sockfd, false⟩, started := 0 }).exec s =
      (some server, t)) :
    server = { acceptor := ⟨sockfd, reading sockfd, true⟩, started := 1 } ∧
      t.calls.filter (fun call => call.1.isListen) =
        s.calls.filter (fun call => call.1.isListen) ++ [(.listen sockfd, true)] ∧
      t.channels sockfd = some .acceptChannel ∧
      t.kernel sockfd = some (Channel.kReadEvent, .acceptChannel) := by
  obtain ⟨acceptor, u, hlisten, hserver⟩ := Proc.exec_bind_some h
  obtain ⟨_, v, hsocket, hrest⟩ := Proc.exec_bind_some hlisten
  obtain ⟨ch, w, hreading, hacceptor⟩ := Proc.exec_bind_some hrest
  cases hserver
  cases hacceptor
  have hv := exec_listenSocket_some hsocket
  subst hv
  rw [exec_enableReading_new] at hreading
  split at hreading
  · cases hreading
    refine ⟨rfl, ?_, Function.update_self _ _ _, Function.update_self _ _ _⟩
    simp [Process.record, SysCall.isListen]
  · cases hreading

theorem exec_newTcpServer_starts_some {create : Proc Fd} (hcreate : CreatesSocket o create) {k : Nat}
    (hk : 0 < k) (hmax : k < 2 ^ 32) {s s' : Process} {server : Server}
    (hnone : s.calls.filter (fun call => call.1.isListen) = [])
    (hrun : (newTcpServer o create >>= starts o k).exec s = (some server, s')) :
    ∃ sockfd, o.socket = some sockfd ∧ server.acceptor = ⟨sockfd, reading sockfd, true⟩ ∧
      s'.calls.filter (fun call => call.1.isListen) = [(.listen sockfd, true)] ∧
      s'.channels sockfd = some .acceptChannel ∧
      s'.kernel sockfd = some (Channel.kReadEvent, .acceptChannel) := by
  obtain ⟨new, u, hnew, hstarts⟩ := Proc.exec_bind_some hrun
  obtain ⟨sockfd, hsocket, rfl, hcalls⟩ := exec_newTcpServer_some hcreate hnew
  obtain ⟨j, rfl⟩ := Nat.exists_eq_add_one_of_ne_zero (Nat.pos_iff_ne_zero.mp hk)
  obtain ⟨first, v, hfirst, hmore⟩ := Proc.exec_bind_some hstarts
  obtain ⟨rfl, hlisten, hchannels, hkernel⟩ := exec_start_some hfirst
  obtain ⟨started, hagain⟩ := starts_again (o := o) j
    { acceptor := ⟨sockfd, reading sockfd, true⟩, started := 1 } v Nat.one_pos
    (by change 1 + j < 2 ^ 32; omega)
  rw [hagain] at hmore
  cases hmore
  rw [hcalls, hnone, List.nil_append] at hlisten
  exact ⟨sockfd, hsocket, rfl, hlisten, hchannels, hkernel⟩

/-- With a `createNonblocking` that returns its socket, start-up is right. -/
theorem startUp_right {create : Proc Fd} (hcreate : CreatesSocket o create) {k : Nat} (hk : 0 < k)
    (hmax : k < 2 ^ 32) : StartsRight o ((startUp o create k).exec .start) := by
  by_cases hloop : LoopFails o
  · obtain ⟨hnone, hfailed⟩ := newEventLoop_of_fails hloop
    unfold startUp
    rw [Proc.exec_bind, hnone]
    exact ⟨iff_of_true rfl hfailed, nofun, nofun, nofun⟩
  obtain ⟨loop, t, hexec, hok, hnone⟩ := newEventLoop_of_not_fails hloop
  have hrest : (startUp o create k).exec .start =
      (newTcpServer o create >>= starts o k).exec t := by
    unfold startUp
    rw [Proc.exec_bind, hexec]
    rfl
  rw [hrest]
  have hexact : (newTcpServer o create >>= starts o k).Exact :=
    (exact_newTcpServer hcreate.exact).bind (exact_starts k)
  have hfinal {server : Server}
      (hsome : ((newTcpServer o create >>= starts o k).exec t).1 = some server) :=
    exec_newTcpServer_starts_some hcreate hk hmax hnone
      (Prod.ext hsome (Eq.refl ((newTcpServer o create >>= starts o k).exec t).2))
  refine ⟨hexact t hok, ?_, ?_, ?_⟩
  · intro server hsome
    obtain ⟨sockfd, hsocket, hacceptor, _⟩ := hfinal hsome
    rw [hacceptor]
    exact hsocket
  · intro server hsome
    obtain ⟨sockfd, _, hacceptor, hlisten, _⟩ := hfinal hsome
    rw [hacceptor]
    exact hlisten
  · intro server hsome
    obtain ⟨sockfd, _, hacceptor, _, hregistered⟩ := hfinal hsome
    rw [hacceptor]
    exact ⟨rfl, hregistered⟩

/-- Every call succeeds, and the process has exited. -/
theorem start_exits : ¬ ∀ (o : Outcomes) (k : Nat), 0 < k →
    StartsRight o ((startUp o (createNonblocking o) k).exec .start) := by
  intro hclaim
  let o : Outcomes :=
    { epoll_create1 := some 3
      eventfd := some 4
      socket := some 5
      bind := true
      listen := fun _ => true
      epoll_ctl := fun _ => true }
  have hend : ((startUp o (createNonblocking o) 1).exec .start).1.isNone = true ∧
      ((startUp o (createNonblocking o) 1).exec .start).2.calls.all (fun call => call.2) = true := by
    decide +kernel
  obtain ⟨hnone, hall⟩ := hend
  have hfailed := (hclaim o 1 Nat.one_pos).exits.mp (Option.isNone_iff_eq_none.mp hnone)
  obtain ⟨call, hmem, hfalse⟩ := hfailed
  have htrue := List.all_eq_true.mp hall call hmem
  rw [hfalse] at htrue
  cases htrue

end Startup

end LTMuduo
