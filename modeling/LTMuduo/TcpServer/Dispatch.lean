import LTMuduo.TcpServer.Code
import LTMuduo.TcpServer.EventLoopThreadPool
import Mathlib.Data.List.Range

/-!
# Dispatch

The loops that `newConnection` gives its connections to, against the list that `getAllLoops` returns. The loops of a server with `n` threads are those of `TcpServer`: loop 0 is the base loop, and thread `i` runs loop `i + 1`. In a run of the server only `newConnection` calls `getNextLoop`, and a connection stays on its loop.
-/

namespace LTMuduo

namespace TcpServer

variable {n : Nat}

/-- The thread pool after `start`. -/
def pool (name : List Char) (cb : Bool) (n : Nat) : EventLoopThreadPool (Fin (n + 1)) :=
  .ofThreads baseLoop name cb (fun i => if h : i < n then .succ ⟨i, h⟩ else baseLoop) n

/-- The list that `getNextLoop` walks around. -/
def ioLoops (n : Nat) : List (Fin (n + 1)) :=
  if n = 0 then [baseLoop] else (List.finRange n).map Fin.succ

def loopOf (s : TcpServer n) (c : Nat) : Option (Fin (n + 1)) := (s.conns c).map (·.loop)

/-- `next_`, `nextConnId_` and the loops of the connections. -/
def assignment (s : TcpServer n) : Nat × Nat × (Nat → Option (Fin (n + 1))) :=
  (s.next, s.nextConnId, s.loopOf)

/-- The loops of the connections that were accepted between two states. -/
def assigned (s s' : TcpServer n) : List (Fin (n + 1)) :=
  (List.range' s.nextConnId (s'.nextConnId - s.nextConnId)).filterMap s'.loopOf

/-- What the dispatch has to do with a list `all` of loops: the cursor is valid, a round of calls is a rotation of the list, and no run of the server gives one loop two connections more than another. -/
structure DispatchAgrees (cfg : ServerConfig) (p : EventLoopThreadPool (Fin (n + 1)))
    (all : List (Fin (n + 1))) : Prop where
  cursor : p.loops ≠ [] → p.next < p.loops.length
  round : ∃ loops q, p.nextLoops (max n 1) = some (loops, q) ∧ loops.IsRotated all ∧ all.Nodup
  balanced : ∀ (s s' : TcpServer n) (as : List (ServerStep n)), s.next = p.next →
    (machine cfg).run s as = some s' →
      ∀ l ∈ all, ∀ l' ∈ all, (assigned s s').count l ≤ (assigned s s').count l' + 1

/-! ### The loops of the pool -/

theorem pool_loops (name : List Char) (cb : Bool) (n : Nat) :
    (pool name cb n).loops = (List.finRange n).map Fin.succ := by
  rw [pool, EventLoopThreadPool.ofThreads_eq]
  apply List.ext_getElem
  · simp
  · intro i hi _
    rw [List.length_map, List.length_range] at hi
    rw [List.getElem_map, List.getElem_map, List.getElem_range, List.getElem_finRange, dif_pos hi]
    rfl

theorem pool_dispatched (name : List Char) (cb : Bool) (n : Nat) :
    (pool name cb n).dispatched = ioLoops n := by
  rw [EventLoopThreadPool.dispatched, pool_loops, ioLoops, pool, EventLoopThreadPool.ofThreads_eq]
  cases n with
  | zero => rfl
  | succ n => simp [List.finRange_succ]

theorem length_ioLoops (n : Nat) : (ioLoops n).length = max n 1 := by
  unfold ioLoops
  split
  · rename_i hzero
    rw [hzero]
    rfl
  · rw [List.length_map, List.length_finRange]
    omega

theorem nodup_ioLoops (n : Nat) : (ioLoops n).Nodup := by
  unfold ioLoops
  split
  · exact List.nodup_singleton _
  · exact (List.nodup_finRange n).map (Fin.succ_injective n)

theorem getNextLoop_eq {next : Nat} (h : next < (ioLoops n).length) :
    (ioLoops n)[next]? = some (getNextLoop n next).1 ∧
      (getNextLoop n next).2 = RoundRobin.advance (ioLoops n) next := by
  cases n with
  | zero =>
    have hzero : next = 0 := Nat.lt_one_iff.mp h
    subst hzero
    exact ⟨rfl, rfl⟩
  | succ n =>
    have hloops : ioLoops (n + 1) = (List.finRange (n + 1)).map Fin.succ := if_neg n.succ_ne_zero
    have hempty : ((List.finRange (n + 1)).map Fin.succ).isEmpty = false := by
      simp [List.finRange_succ]
    rw [hloops] at h ⊢
    rw [getNextLoop, hempty]
    refine ⟨?_, rfl⟩
    rw [List.getElem?_eq_getElem h]
    rfl

/-! ### The loops of the connections -/

section

variable {s s' : TcpServer n} {c : Nat} {k k' : ServerConn n} {l : Fin (n + 1)}

theorem assignment_setLoop (x : IoLoop) : (s.setLoop l x).assignment = s.assignment := rfl

theorem loopOf_update (conns : Nat → Option (ServerConn n)) (c : Nat) (k : ServerConn n) :
    (fun e => (Function.update conns c (some k) e).map (·.loop)) =
      Function.update (fun e => (conns e).map (·.loop)) c (some k.loop) := by
  funext e
  by_cases he : e = c
  · rw [he, Function.update_self, Function.update_self, Option.map_some]
  · rw [Function.update_of_ne he, Function.update_of_ne he]

theorem assignment_setConn (hk : s.conns c = some k) (hloop : k'.loop = k.loop) :
    (s.setConn c k').assignment = s.assignment := by
  have hsame : s.loopOf c = some k'.loop := by
    rw [loopOf, hk, hloop]
    rfl
  have hloops : (s.setConn c k').loopOf = s.loopOf := by
    change (fun e => (Function.update s.conns c (some k') e).map (·.loop)) = _
    rw [loopOf_update, ← hsame]
    exact Function.update_eq_self c s.loopOf
  unfold assignment
  rw [hloops]
  rfl

theorem assignment_putWorld (hk : s.conns c = some k) (hloop : k'.loop = k.loop) (w : Conn Nat) :
    (s.putWorld c k' w).assignment = s.assignment := by
  rw [putWorld, assignment_setLoop]
  exact assignment_setConn hk hloop

theorem assignment_call (f : LoopFunctor) : (s.call l f).assignment = s.assignment := by
  cases f with
  | connectEstablished c =>
    unfold call
    dsimp only
    split
    · rename_i k hk
      exact assignment_putWorld hk (by rfl) _
    · rfl
  | removeConnectionInLoop c =>
    unfold call
    dsimp only
    split <;> rfl
  | connectDestroyed c =>
    unfold call
    dsimp only
    split
    · rename_i k hk
      rw [setFrame, assignment_setLoop]
      exact assignment_putWorld hk rfl _
    · rfl
  | other => rfl

theorem assignment_runInLoop (own : Fin (n + 1)) (f : LoopFunctor) :
    (s.runInLoop own l f).assignment = s.assignment := by
  unfold runInLoop
  split
  · exact assignment_call f
  · rfl

theorem assignment_eventCallback (hk : s.conns c = some k) (read : ReadvResult)
    (write : WriteResult) (callback : EventCallback) :
    (s.eventCallback l c k read write callback).assignment = s.assignment := by
  unfold eventCallback
  cases callback with
  | closeCallback =>
    rw [setFrame, assignment_setLoop]
    exact assignment_putWorld hk rfl _
  | errorCallback => exact assignment_putWorld hk rfl _
  | readCallback =>
    dsimp only
    split
    · rw [setFrame, assignment_setLoop]
      exact assignment_putWorld hk rfl _
    · exact assignment_putWorld hk rfl _
  | writeCallback => exact assignment_putWorld hk rfl _

theorem assignment_resume (h : s.resume l = some s') : s'.assignment = s.assignment := by
  unfold resume at h
  split at h
  · cases h
  · cases h
    exact assignment_runInLoop l _
  · split at h
    · cases h
      rfl
    · cases h
  · split at h
    · rename_i k hk
      cases h
      rw [setFrame, assignment_setLoop]
      exact assignment_putWorld hk (by rfl) _
    · cases h

theorem assignment_newConnection (cfg : ServerConfig) (sockfd : Fd) :
    (s.newConnection cfg sockfd).assignment =
      ((getNextLoop n s.next).2, s.nextConnId + 1,
        Function.update s.loopOf s.nextConnId (some (getNextLoop n s.next).1)) := by
  unfold newConnection
  dsimp only
  rw [assignment_runInLoop]
  refine congrArg (fun loops => ((getNextLoop n s.next).2, s.nextConnId + 1, loops)) ?_
  exact loopOf_update s.conns s.nextConnId _

theorem newConnection_of_accepts {cfg : ServerConfig} {a : ServerStep n} (ha : a.accepts = true)
    (hstep : s.step cfg a = some s') : ∃ sockfd, s' = s.newConnection cfg sockfd := by
  cases a with
  | newConnection sockfd =>
    unfold step at hstep
    dsimp only at hstep
    split at hstep
    · cases hstep
      exact ⟨sockfd, rfl⟩
    · cases hstep
  | _ => cases ha

theorem assignment_step {cfg : ServerConfig} {a : ServerStep n} (ha : a.accepts = false)
    (hstep : s.step cfg a = some s') : s'.assignment = s.assignment := by
  unfold step at hstep
  cases a with
  | newConnection sockfd => cases ha
  | eventCallback l read write =>
    dsimp only at hstep
    split at hstep
    · split at hstep
      · rename_i k hk
        cases hstep
        rw [assignment_eventCallback (s := s.setPhase l _) hk]
        rfl
      · cases hstep
    · cases hstep
  | resume l => exact assignment_resume hstep
  | runFunctor l =>
    dsimp only at hstep
    split at hstep
    · cases hstep
      rw [assignment_call]
      rfl
    · cases hstep
  | send c buf r =>
    dsimp only at hstep
    split at hstep
    · rename_i k hk
      cases hstep
      exact assignment_putWorld hk rfl _
    · cases hstep
  | shutdown c =>
    dsimp only at hstep
    split at hstep
    · rename_i k hk
      cases hstep
      exact assignment_putWorld hk rfl _
    · cases hstep
  | queueOther own l =>
    cases hstep
    rfl
  | _ =>
    dsimp only at hstep
    split at hstep
    · cases hstep
      rfl
    · cases hstep

/-! ### A run of the server -/

/-- The connections of a run get the picks of the cursor, one each, and keep them. -/
structure Dispatched (s s' : TcpServer n) (loops : List (Fin (n + 1))) : Prop where
  picks : RoundRobin.picks (ioLoops n) s.next loops.length = some (loops, s'.next)
  nextConnId : s'.nextConnId = s.nextConnId + loops.length
  assigned : (List.range' s.nextConnId loops.length).filterMap s'.loopOf = loops
  earlier : ∀ c < s.nextConnId, s'.loopOf c = s.loopOf c

theorem Dispatched.nil : Dispatched s s [] where
  picks := rfl
  nextConnId := rfl
  assigned := rfl
  earlier _ _ := rfl

theorem Dispatched.same {t : TcpServer n} {loops : List (Fin (n + 1))}
    (h : Dispatched t s' loops) (hsame : t.assignment = s.assignment) : Dispatched s s' loops := by
  simp only [assignment, Prod.mk.injEq] at hsame
  obtain ⟨hnext, hid, hloops⟩ := hsame
  have ⟨hpicks, hnextConnId, hassigned, hearlier⟩ := h
  rw [hnext] at hpicks
  rw [hid] at hnextConnId hassigned hearlier
  rw [hloops] at hearlier
  exact ⟨hpicks, hnextConnId, hassigned, hearlier⟩

theorem Dispatched.cons {t : TcpServer n} {loops : List (Fin (n + 1))}
    (hnext : s.next < (ioLoops n).length)
    (hnew : t.assignment = ((getNextLoop n s.next).2, s.nextConnId + 1,
      Function.update s.loopOf s.nextConnId (some (getNextLoop n s.next).1)))
    (h : Dispatched t s' loops) : Dispatched s s' ((getNextLoop n s.next).1 :: loops) := by
  simp only [assignment, Prod.mk.injEq] at hnew
  obtain ⟨hcursor, hid, hloops⟩ := hnew
  obtain ⟨hpick, hadvance⟩ := getNextLoop_eq hnext
  have ⟨hpicks, hnextConnId, hassigned, hearlier⟩ := h
  rw [hid] at hnextConnId hassigned hearlier
  rw [hloops] at hearlier
  refine ⟨?_, ?_, ?_, ?_⟩
  · rw [List.length_cons, RoundRobin.picks, hpick, Option.bind_some, ← hadvance, ← hcursor, hpicks]
    rfl
  · rw [hnextConnId, List.length_cons, Nat.add_assoc, Nat.add_comm 1]
  · have hfirst : s'.loopOf s.nextConnId = some (getNextLoop n s.next).1 := by
      rw [hearlier _ (Nat.lt_succ_self _), Function.update_self]
    rw [List.length_cons, List.range'_succ, List.filterMap_cons_some hfirst, hassigned]
  · intro c hc
    rw [hearlier c (Nat.lt_succ_of_lt hc), Function.update_of_ne (Nat.ne_of_lt hc)]

theorem dispatched_of_run {cfg : ServerConfig} {as : List (ServerStep n)}
    (hnext : s.next < (ioLoops n).length) (hrun : (machine cfg).run s as = some s') :
    ∃ loops, Dispatched s s' loops := by
  induction as generalizing s with
  | nil =>
    cases hrun
    exact ⟨[], .nil⟩
  | cons a as ih =>
    rw [Machine.run_cons] at hrun
    obtain ⟨t, hstep, hrest⟩ := Option.bind_eq_some_iff.mp hrun
    cases ha : a.accepts with
    | false =>
      have hsame := assignment_step ha hstep
      have hcursor : t.next = s.next := congrArg Prod.fst hsame
      obtain ⟨loops, h⟩ := ih (hcursor ▸ hnext) hrest
      exact ⟨loops, h.same hsame⟩
    | true =>
      obtain ⟨sockfd, ht⟩ := newConnection_of_accepts ha hstep
      have hnew := ht ▸ assignment_newConnection (s := s) cfg sockfd
      have hcursor : t.next = RoundRobin.advance (ioLoops n) s.next :=
        (congrArg Prod.fst hnew).trans (getNextLoop_eq hnext).2
      obtain ⟨loops, h⟩ := ih (hcursor ▸ RoundRobin.advance_lt hnext) hrest
      exact ⟨_, h.cons hnext hnew⟩

theorem Dispatched.assigned_eq {loops : List (Fin (n + 1))} (h : Dispatched s s' loops) :
    TcpServer.assigned s s' = loops := by
  rw [TcpServer.assigned, h.nextConnId, Nat.add_sub_cancel_left]
  exact h.assigned

/-! ### The list of the pool -/

theorem dispatch_agrees (cfg : ServerConfig) {p : EventLoopThreadPool (Fin (n + 1))} (h : p.Sound)
    (hloops : p.dispatched = ioLoops n) : DispatchAgrees cfg p p.dispatched := by
  have hlength : p.dispatched.length = max n 1 := by rw [hloops, length_ioLoops]
  have hnodup : p.dispatched.Nodup := by
    rw [hloops]
    exact nodup_ioLoops n
  refine ⟨h.valid, ?_, ?_⟩
  · obtain ⟨loops, hpicks, hround, haround⟩ := RoundRobin.picks_around h (max n 1)
    refine ⟨loops, p.setNext ((p.next + max n 1) % p.dispatched.length), ?_, ?_, hnodup⟩
    · rw [h.nextLoops, hpicks]
      rfl
    · rw [haround.eq_rotate (hround.trans hlength.symm)]
      exact List.IsRotated.symm ⟨_, rfl⟩
  · intro s s' as hnext hrun l hl l' hl'
    have hvalid : s.next < (ioLoops n).length := by
      rw [hnext, ← hloops]
      exact h
    obtain ⟨loops, hdispatched⟩ := dispatched_of_run hvalid hrun
    obtain ⟨picked, hpicks, _, haround⟩ := RoundRobin.picks_around hvalid loops.length
    rw [hdispatched.picks, Option.some.injEq, Prod.mk.injEq] at hpicks
    rw [hdispatched.assigned_eq, hpicks.1]
    rw [hloops] at hl hl'
    exact haround.count_le (nodup_ioLoops n) hl hl'

theorem getAllLoops_eq {p : EventLoopThreadPool (Fin (n + 1))}
    (hloops : p.loops = (List.finRange n).map Fin.succ) :
    p.getAllLoops = if n = 0 then some p.dispatched else none := by
  rw [EventLoopThreadPool.getAllLoops, EventLoopThreadPool.dispatched, hloops]
  cases n with
  | zero => rfl
  | succ n => simp [List.finRange_succ]

/-- After any number of calls, the dispatch agrees with the list of loops that it walks around; and `getAllLoops` returns that list if and only if the pool has no threads. -/
theorem dispatch_agrees_iff (cfg : ServerConfig) (name : List Char) (cb : Bool) (n k : Nat) :
    ∃ loops p, (pool name cb n).nextLoops k = some (loops, p) ∧
      DispatchAgrees cfg p p.dispatched ∧
      ((∃ all, p.getAllLoops = some all ∧ DispatchAgrees cfg p all) ↔ n = 0) := by
  have hsound : (pool name cb n).Sound := EventLoopThreadPool.ofThreads_sound n
  obtain ⟨loops, hpicks, _, _⟩ := RoundRobin.picks_around hsound k
  let j := ((pool name cb n).next + k) % (pool name cb n).dispatched.length
  have hcursor : ((pool name cb n).setNext j).Sound := Nat.mod_lt _ (Nat.zero_lt_of_lt hsound)
  have hagrees := dispatch_agrees cfg hcursor (pool_dispatched name cb n)
  refine ⟨loops, (pool name cb n).setNext j, ?_, hagrees, ?_⟩
  · rw [hsound.nextLoops, hpicks]
    rfl
  · rw [getAllLoops_eq (p := (pool name cb n).setNext j) (pool_loops name cb n)]
    split
    · rename_i hzero
      exact iff_of_true ⟨_, rfl, hagrees⟩ hzero
    · rename_i hthreads
      refine iff_of_false ?_ hthreads
      rintro ⟨all, hall, _⟩
      cases hall

/-- With one thread, the value of `getAllLoops` is undefined. -/
theorem getAllLoops_undefined :
    ¬ ∀ (cfg : ServerConfig) (n k : Nat),
      ∃ loops p, (pool [] false n).nextLoops k = some (loops, p) ∧
        ∃ all, p.getAllLoops = some all ∧ DispatchAgrees cfg p all := by
  intro hclaim
  obtain ⟨_, p, hcalls, all, hall, _⟩ := hclaim ⟨[], [], Nat.zero_le _, false, false, 0⟩ 1 0
  cases hcalls
  cases hall

end

end TcpServer

end LTMuduo
