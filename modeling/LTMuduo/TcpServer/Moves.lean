import LTMuduo.TcpServer.Code

/-!
# The steps of a server

The steps of the machine, each with what it needs: the phase and the frame of the loop that takes it, and the connection that it is about. Invariants are proved by going through this list.
-/

namespace LTMuduo.TcpServer

variable {n : Nat} (cfg : ServerConfig) (s : TcpServer n)

inductive Moves : ServerStep n → TcpServer n → Prop
  | newConnection (sockfd : Fd) (active : List Nat) (rest : List (Nat × List EventCallback))
      (hphase : (s.loops baseLoop).phase = .dispatch active rest)
      (hidle : (s.loops baseLoop).frame = .idle) :
      Moves (.newConnection sockfd) (s.newConnection cfg sockfd)
  | poll (l : Fin (n + 1)) (ready : List (Fd × Events)) (batch : List (Nat × List EventCallback))
      (hbatch : batch = fillActiveChannels (s.loops l).poller ready)
      (hphase : (s.loops l).phase = .poll) (hidle : (s.loops l).frame = .idle) :
      Moves (.poll l ready) (s.setPhase l (.dispatch (batch.map Prod.fst) batch))
  | eventCallback (l : Fin (n + 1)) (read : ReadvResult) (write : WriteResult) (active : List Nat)
      (c : Nat) (callback : EventCallback) (callbacks : List EventCallback)
      (rest : List (Nat × List EventCallback)) (k : ServerConn n)
      (hphase : (s.loops l).phase = .dispatch active ((c, callback :: callbacks) :: rest))
      (hidle : (s.loops l).frame = .idle) (hk : s.conns c = some k) :
      Moves (.eventCallback l read write)
        ((s.setPhase l (.dispatch active ((c, callbacks) :: rest))).eventCallback l c k read write
          callback)
  | nextChannel (l : Fin (n + 1)) (active : List Nat) (c : Nat)
      (rest : List (Nat × List EventCallback))
      (hphase : (s.loops l).phase = .dispatch active ((c, []) :: rest))
      (hidle : (s.loops l).frame = .idle) :
      Moves (.nextChannel l) (s.setPhase l (.dispatch active rest))
  | resumeClosing (l : Fin (n + 1)) (c : Nat) (hframe : (s.loops l).frame = .closing c) :
      Moves (.resume l) ((s.setFrame l .idle).removeConnection l c)
  | resumeRemoving (l : Fin (n + 1)) (c : Nat) (k : ServerConn n)
      (hframe : (s.loops l).frame = .removing c) (hk : s.conns c = some k) :
      Moves (.resume l) ((s.setFrame l .idle).queueInLoop l k.loop (.connectDestroyed c))
  | resumeDestroying (l : Fin (n + 1)) (c : Nat) (k : ServerConn n)
      (hframe : (s.loops l).frame = .destroying c) (hk : s.conns c = some k) :
      Moves (.resume l)
        ((s.putWorld c { k with destroyed := true } ((s.world k).connectDestroyedRest c)).setFrame l
          .idle)
  | swapFunctors (l : Fin (n + 1)) (active : List Nat)
      (hphase : (s.loops l).phase = .dispatch active []) (hidle : (s.loops l).frame = .idle) :
      Moves (.swapFunctors l)
        (s.setLoop l { s.loops l with
          loop := (s.loops l).loop.beginPendingFunctors.swapFunctors.1
          phase := .functors (s.loops l).loop.pendingFunctors })
  | runFunctor (l : Fin (n + 1)) (f : LoopFunctor) (rest : List LoopFunctor)
      (hphase : (s.loops l).phase = .functors (f :: rest)) (hidle : (s.loops l).frame = .idle) :
      Moves (.runFunctor l) ((s.setPhase l (.functors rest)).call l f)
  | endFunctors (l : Fin (n + 1)) (hphase : (s.loops l).phase = .functors [])
      (hidle : (s.loops l).frame = .idle) :
      Moves (.endFunctors l)
        (s.setLoop l { s.loops l with
          loop := (s.loops l).loop.endPendingFunctors
          phase := .poll })
  | send (c : Nat) (k : ServerConn n) (buf : List Byte) (r : WriteResult)
      (hk : s.conns c = some k) :
      Moves (.send c buf r) (s.putWorld c k ((s.world k).send c buf r))
  | shutdown (c : Nat) (k : ServerConn n) (hk : s.conns c = some k) :
      Moves (.shutdown c) (s.putWorld c k (s.world k).shutdown)
  | queueOther (own l : Fin (n + 1)) : Moves (.queueOther own l) (s.queueInLoop own l .other)

variable {cfg s} {s' : TcpServer n} {a : ServerStep n}

theorem resume_moves {l : Fin (n + 1)} (h : s.resume l = some s') : s.Moves cfg (.resume l) s' := by
  unfold TcpServer.resume at h
  split at h
  · cases h
  · cases h
    exact .resumeClosing l _ ‹_›
  · split at h
    · cases h
      exact .resumeRemoving l _ _ ‹_› ‹_›
    · cases h
  · split at h
    · cases h
      exact .resumeDestroying l _ _ ‹_› ‹_›
    · cases h

theorem step_moves (h : s.step cfg a = some s') : s.Moves cfg a s' := by
  unfold step at h
  cases a with
  | resume l => exact resume_moves h
  | eventCallback l read write =>
    dsimp only at h
    split at h
    · split at h
      · cases h
        exact .eventCallback l read write _ _ _ _ _ _ ‹_› ‹_› ‹_›
      · cases h
    · cases h
  | queueOther own l =>
    cases h
    exact .queueOther own l
  | poll l ready =>
    dsimp only at h
    split at h
    · cases h
      exact .poll l ready _ rfl ‹_› ‹_›
    · cases h
  | _ =>
    dsimp only at h
    split at h
    · cases h
      constructor <;> assumption
    · cases h

end LTMuduo.TcpServer
