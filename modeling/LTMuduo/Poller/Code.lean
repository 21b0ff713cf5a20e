import LTMuduo.Syscall
import Mathlib.Logic.Function.Basic

/-!
# `Channel`, `Poller` and `EPollPoller`

A registration lives in three places: the `index_` and `events_` of the channel, the `channels_` map of the poller, and the interest set the kernel keeps for `epollfd_`. The functions of `Channel.h`, `Channel.cc`, `Poller.cc` and `EPollPoller.cc` that write to them are below; the pointer to a channel is a value of an arbitrary type `C`.
-/

namespace LTMuduo

/-- An event mask of epoll. -/
abbrev Events := BitVec 32

def EPOLLIN : Events := 0x001
def EPOLLPRI : Events := 0x002
def EPOLLOUT : Events := 0x004
def EPOLLERR : Events := 0x008
def EPOLLHUP : Events := 0x010

/-- The values of `index_`. -/
inductive Index
  | kNew
  | kAdded
  | kDeleted
  deriving DecidableEq

structure Channel where
  fd : Fd
  events : Events
  index : Index
  tied : Bool
  deriving DecidableEq

namespace Channel

def kNoneEvent : Events := 0
def kReadEvent : Events := EPOLLIN ||| EPOLLPRI
def kWriteEvent : Events := EPOLLOUT

/-- The constructor. -/
def new (fd : Fd) : Channel where
  fd := fd
  events := 0
  index := .kNew
  tied := false

def isNoneEvent (ch : Channel) : Bool := ch.events == kNoneEvent
def isWriting (ch : Channel) : Bool := ch.events &&& kWriteEvent != 0

end Channel

inductive EventCallback
  | closeCallback
  | errorCallback
  | readCallback
  | writeCallback
  deriving DecidableEq

/-- The callbacks that `handleEventWithGuard` calls for `revents_`, in their order. -/
def Channel.handleEventWithGuard (revents : Events) : List EventCallback :=
  (if revents &&& EPOLLHUP != 0 && revents &&& EPOLLIN == 0 then [.closeCallback] else []) ++
    (if revents &&& EPOLLERR != 0 then [.errorCallback] else []) ++
    (if revents &&& (EPOLLIN ||| EPOLLPRI) != 0 then [.readCallback] else []) ++
    (if revents &&& EPOLLOUT != 0 then [.writeCallback] else [])

/-- The operations of `epoll_ctl`. -/
inductive CtlOp
  | EPOLL_CTL_ADD
  | EPOLL_CTL_MOD
  | EPOLL_CTL_DEL
  deriving DecidableEq

section

variable {C : Type*}

/-- The interest set: for each registered fd the mask and the user data. -/
abbrev InterestSet (C : Type*) := Fd → Option (Events × C)

/-- `::epoll_ctl`, with `none` for a negative result: ADD fails when the fd is present, MOD and DEL fail when it is absent. -/
def epollCtl (kernel : InterestSet C) (operation : CtlOp) (fd : Fd) (event : Events × C) :
    Option (InterestSet C) :=
  match operation, kernel fd with
  | .EPOLL_CTL_ADD, none => some (Function.update kernel fd (some event))
  | .EPOLL_CTL_MOD, some _ => some (Function.update kernel fd (some event))
  | .EPOLL_CTL_DEL, some _ => some (Function.update kernel fd none)
  | _, _ => none

/-- `kernel` is the interest set behind `epollfd_`; `failed` lists the calls of `epoll_ctl` that returned an error. -/
structure EPollPoller (C : Type*) where
  channels : Fd → Option C
  kernel : InterestSet C
  failed : List CtlOp

namespace EPollPoller

/-- The constructor. -/
def new : EPollPoller C where
  channels := fun _ => none
  kernel := fun _ => none
  failed := []

/-- `LOG_FATAL` has ended the process: an ADD or MOD failed. -/
def exited (p : EPollPoller C) : Bool := p.failed.any fun operation => operation != .EPOLL_CTL_DEL

def update (p : EPollPoller C) (operation : CtlOp) (c : C) (ch : Channel) : EPollPoller C :=
  match epollCtl p.kernel operation ch.fd (ch.events, c) with
  | some kernel => { p with kernel }
  | none => { p with failed := p.failed ++ [operation] }

def updateChannel (p : EPollPoller C) (c : C) (ch : Channel) : EPollPoller C × Channel :=
  if ch.index = .kNew ∨ ch.index = .kDeleted then
    let p := if ch.index = .kNew then { p with channels := Function.update p.channels ch.fd (some c) } else p
    let ch := { ch with index := .kAdded }
    (p.update .EPOLL_CTL_ADD c ch, ch)
  else if ch.isNoneEvent then
    (p.update .EPOLL_CTL_DEL c ch, { ch with index := .kDeleted })
  else
    (p.update .EPOLL_CTL_MOD c ch, ch)

def removeChannel (p : EPollPoller C) (c : C) (ch : Channel) : EPollPoller C × Channel :=
  let p := { p with channels := Function.update p.channels ch.fd none }
  let p := if ch.index = .kAdded then p.update .EPOLL_CTL_DEL c ch else p
  (p, { ch with index := .kNew })

def hasChannel [DecidableEq C] (p : EPollPoller C) (c : C) (ch : Channel) : Bool :=
  p.channels ch.fd == some c

end EPollPoller

namespace Channel

/-- Stores a mask and calls `update()`, which reaches the poller through the loop. -/
def setEvents (p : EPollPoller C) (c : C) (ch : Channel) (events : Events) : EPollPoller C × Channel :=
  p.updateChannel c { ch with events }

def enableReading (p : EPollPoller C) (c : C) (ch : Channel) : EPollPoller C × Channel :=
  setEvents p c ch (ch.events ||| kReadEvent)

def disableReading (p : EPollPoller C) (c : C) (ch : Channel) : EPollPoller C × Channel :=
  setEvents p c ch (ch.events &&& ~~~kReadEvent)

def enableWriting (p : EPollPoller C) (c : C) (ch : Channel) : EPollPoller C × Channel :=
  setEvents p c ch (ch.events ||| kWriteEvent)

def disableWriting (p : EPollPoller C) (c : C) (ch : Channel) : EPollPoller C × Channel :=
  setEvents p c ch (ch.events &&& ~~~kWriteEvent)

def disableAll (p : EPollPoller C) (c : C) (ch : Channel) : EPollPoller C × Channel :=
  setEvents p c ch kNoneEvent

def remove (p : EPollPoller C) (c : C) (ch : Channel) : EPollPoller C × Channel :=
  p.removeChannel c ch

end Channel

end

end LTMuduo
