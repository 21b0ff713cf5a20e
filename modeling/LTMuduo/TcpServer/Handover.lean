import LTMuduo.TcpServer.Ownership

/-!
# The functions of the server hand a connection on

Each function of the server and its loops keeps `Owned`. A function of a connection changes `state_` and the registration; the others move a token from one place to the next one.
-/

namespace LTMuduo.TcpServer

variable {n : Nat} {cfg : ServerConfig} {s : TcpServer n} {l : Fin (n + 1)} {c : Nat}
  {k : ServerConn n}

/-! ### Functions of a connection -/

theorem Consistent.knownAtFd (h : s.Consistent cfg) (hk : s.conns c = some k) :
    (s.world k).KnownAtFd c where
  channels := by
    intro fd he
    obtain ⟨j, hj, hregistered⟩ := h.channels k.loop fd c he
    cases hk.symm.trans hj
    exact hregistered.fd.symm
  kernel := by
    intro fd ev he
    obtain ⟨j, hj, hregistered, hadded⟩ := h.kernel k.loop fd ev c he
    cases hk.symm.trans hj
    exact ⟨hregistered.fd.symm, hadded⟩

theorem Owned.putWorld (h : s.Owned cfg) (hk : s.conns c = some k) (halive : k.destroyed = false)
    {w : Conn Nat} (hw : Conn.Registration c (s.world k) w) (hstate : w.conn.state ≠ .kConnecting)
    (hdisconnected : k.conn.state = .kDisconnected → w.conn.state = .kDisconnected)
    (hno : ∀ l, ⟨.establish, c⟩ ∉ (s.loops l).tokens) :
    (s.putWorld c { k with established := true } w).Owned cfg := by
  have hknown := h.knownAtFd hk
  apply h.setConn hk
  · rfl
  · exact id
  apply h.toConsistent.setConn hk
  · rfl
  · refine ⟨iff_of_true rfl hstate, ?_⟩
    intro hdestroyed
    exact absurd (hdestroyed.symm.trans halive) (by decide)
  · intro hdestroyed
    exact absurd (hdestroyed.symm.trans halive) (by decide)
  · intro l hold hmem hmeets
    cases hold with
    | establish => exact absurd hmem (hno l)
    | remove => exact ⟨hmeets.1, hdisconnected hmeets.2⟩
    | destroy => exact ⟨hmeets.1, hdisconnected hmeets.2.1, hmeets.2.2⟩
    | listed => exact ⟨hmeets.1, rfl, halive⟩
    | closing => exact ⟨hmeets.1, hdisconnected hmeets.2⟩
    | removing => exact ⟨hmeets.1, hdisconnected hmeets.2.1, hmeets.2.2⟩
    | destroying => exact ⟨hmeets.1, hdisconnected hmeets.2.1, hmeets.2.2⟩
  · intro fd e he
    rcases hw.channels hknown he with hbefore | ⟨hec, hfd⟩
    · exact Or.inl hbefore
    · exact Or.inr ⟨hec, rfl, hfd, rfl, halive⟩
  · intro fd ev e he
    rcases hw.kernel hknown he with hbefore | ⟨hec, hfd, hadded⟩
    · exact Or.inl hbefore
    · exact Or.inr ⟨hec, ⟨rfl, hfd, rfl, halive⟩, hadded⟩

theorem Consistent.not_establish (h : s.Consistent cfg) (hk : s.conns c = some k)
    (hstate : k.conn.state ≠ .kConnecting) (l : Fin (n + 1)) :
    ⟨.establish, c⟩ ∉ (s.loops l).tokens := by
  intro hmem
  obtain ⟨j, hj, _, hconnecting⟩ := h.tokens l _ hmem
  cases hk.symm.trans hj
  exact hstate hconnecting

theorem Owned.putWorld_established (h : s.Owned cfg) (hk : s.conns c = some k)
    (hestablished : k.established = true) (halive : k.destroyed = false) {w : Conn Nat}
    (hw : Conn.Registration c (s.world k) w) (hstate : w.conn.state ≠ .kConnecting)
    (hdisconnected : k.conn.state = .kDisconnected → w.conn.state = .kDisconnected) :
    (s.putWorld c k w).Owned cfg := by
  have hconnecting := (h.life c k hk).established.mp hestablished
  have hput := h.putWorld hk halive hw hstate hdisconnected (h.not_establish hk hconnecting)
  have hsame : { k with established := true } = k := by
    cases k
    cases hestablished
    rfl
  rwa [hsame] at hput

theorem putWorld_self (hk : s.conns c = some k) : s.putWorld c k (s.world k) = s := by
  unfold putWorld setConn setLoop world
  dsimp only
  rw [Function.update_eq_self_iff.mpr hk.symm, Function.update_eq_self]

@[simp] theorem putWorld_conns (w : Conn Nat) :
    (s.putWorld c k w).conns c = some { k with conn := w.conn } := Function.update_self ..

theorem putWorld_loops (w : Conn Nat) :
    (s.putWorld c k w).loops k.loop = { s.loops k.loop with poller := w.poller } :=
  setLoop_self ..

/-! ### Frames and functors -/

theorem Owned.setFrame (h : s.Owned cfg) {frame : Frame}
    (hwf : ({ s.loops l with frame := frame } : IoLoop).WellFormed)
    (htokens : ∀ t ∈ frame.tokens, s.TokenOk l t)
    (hcarry : ∀ c k, s.conns c = some k → k.destroyed = false → ∀ hold : Hold, hold.Carries →
      ⟨hold, c⟩ ∈ (s.loops l).frame.tokens → (s.setFrame l frame).Kept c k) :
    (s.setFrame l frame).Owned cfg := by
  apply h.setLoop
  · rfl
  · exact hwf
  · exact h.once l
  · intro t ht
    rcases (IoLoop.mem_tokens _).mp ht with hframe | hrest
    · exact Or.inr (htokens t hframe)
    · exact Or.inl ((IoLoop.mem_tokens _).mpr (Or.inr hrest))
  · intro c k hk halive hold hcarries hmem
    rcases (IoLoop.mem_tokens _).mp hmem with hframe | hrest
    · exact hcarry c k hk halive hold hcarries hframe
    · exact Kept.of_mem hcarries ((IoLoop.mem_tokens _).mpr (Or.inr hrest))

theorem Owned.setFrame_idle (h : s.Owned cfg)
    (hcarry : ∀ c k, s.conns c = some k → k.destroyed = false → ∀ hold : Hold, hold.Carries →
      ⟨hold, c⟩ ∈ (s.loops l).frame.tokens → (s.setFrame l .idle).Kept c k) :
    (s.setFrame l .idle).Owned cfg :=
  h.setFrame ⟨nofun, nofun, (h.wellFormed l).rest⟩ nofun hcarry

theorem Owned.setFrame_closing (h : s.Owned cfg) (hk : s.conns c = some k) (hloop : k.loop = l)
    (hstate : k.conn.state = .kDisconnected) (hidle : (s.loops l).frame = .idle)
    (hlisted : c ∈ (s.loops l).phase.active) : (s.setFrame l (.closing c)).Owned cfg := by
  apply h.setFrame
  · refine ⟨?_, nofun, (h.wellFormed l).rest⟩
    intro e he
    cases he
    exact hlisted
  · intro t ht
    rw [List.mem_singleton.mp ht]
    exact ⟨k, hk, hloop, hstate⟩
  · intro e j _ _ hold _ hmem
    rw [hidle] at hmem
    exact absurd hmem List.not_mem_nil

theorem IoLoop.queue_queueInLoop (x : IoLoop) (own : Bool) (f : LoopFunctor) :
    ({ x with loop := x.loop.queueInLoop own f } : IoLoop).queue = x.queue ++ [f] := by
  rw [IoLoop.queue, IoLoop.queue, EventLoop.queueInLoop_pendingFunctors, List.append_assoc]

theorem Owned.queueInLoop (h : s.Owned cfg) {own : Fin (n + 1)} {f : LoopFunctor}
    (htokens : ∀ t ∈ f.tokens, s.TokenOk l t)
    (hnew : ∀ c, f = .connectEstablished c → f ∉ (s.loops l).queue) :
    (s.queueInLoop own l f).Owned cfg := by
  have hwf := h.wellFormed l
  have hqueue := IoLoop.queue_queueInLoop (s.loops l) (own == l) f
  apply h.setLoop
  · rfl
  · exact ⟨hwf.closing, hwf.destroying, hwf.rest⟩
  · intro c
    rw [hqueue, List.count_append, List.count_singleton]
    split
    · rename_i hf
      have hf' : f = .connectEstablished c := by simpa using hf
      rw [← hf', List.count_eq_zero_of_not_mem (hnew c hf')]
    · exact h.once l c
  · intro t ht
    rcases (IoLoop.mem_tokens _).mp ht with hframe | ⟨g, hg, hin⟩ | hlisted
    · exact Or.inl ((IoLoop.mem_tokens _).mpr (Or.inl hframe))
    · rw [hqueue, List.mem_append, List.mem_singleton] at hg
      rcases hg with hg | rfl
      · exact Or.inl ((IoLoop.mem_tokens _).mpr (Or.inr (Or.inl ⟨g, hg, hin⟩)))
      · exact Or.inr (htokens t hin)
    · exact Or.inl ((IoLoop.mem_tokens _).mpr (Or.inr (Or.inr hlisted)))
  · intro c k _ _ hold hcarries hmem
    apply Kept.of_mem hcarries
    refine IoLoop.mem_tokens_of_subset ?_ ?_ ?_ hmem
    · rfl
    · rw [hqueue]
      exact List.subset_append_left _ _
    · exact List.Subset.refl _

theorem queue_functors {f : LoopFunctor} {rest : List LoopFunctor}
    (hphase : (s.loops l).phase = .functors (f :: rest)) :
    (s.loops l).queue = f :: (rest ++ (s.loops l).loop.pendingFunctors) := by
  rw [IoLoop.queue_of_phase hphase]
  rfl

theorem Owned.popFunctor (h : s.Owned cfg) {f : LoopFunctor} {rest : List LoopFunctor}
    (hphase : (s.loops l).phase = .functors (f :: rest)) (hidle : (s.loops l).frame = .idle)
    (hkeeps : ∀ t ∈ f.tokens, ¬ t.hold.Carries) :
    (s.setPhase l (.functors rest)).Owned cfg := by
  have hqueue := queue_functors hphase
  apply h.drop
  · rfl
  · refine ⟨?_, fun _ _ => ⟨rest, rfl⟩, nofun⟩
    intro c hc
    exact absurd (hidle.symm.trans hc) nofun
  · rw [hqueue]
    exact List.sublist_cons_self f _
  · intro t ht
    refine IoLoop.mem_tokens_of_subset ?_ ?_ ?_ ht
    · rfl
    · rw [hqueue]
      exact List.subset_cons_self f _
    · exact List.nil_subset _
  · intro t ht hcarries
    rw [IoLoop.mem_tokens, hqueue, hphase] at ht
    rw [IoLoop.mem_tokens]
    rcases ht with hframe | ⟨g, hg, hin⟩ | ⟨c, hc, _⟩
    · exact Or.inl hframe
    · rcases List.mem_cons.mp hg with rfl | hg
      · exact absurd hcarries (hkeeps t hin)
      · exact Or.inr (Or.inl ⟨g, hg, hin⟩)
    · exact absurd hc List.not_mem_nil

/-! ### The map -/

theorem Consistent.name_ne (h : s.Consistent cfg) {e : Nat} {j : ServerConn n}
    (hk : s.conns c = some k) (hj : s.conns e = some j) (hne : e ≠ c) : j.name ≠ k.name := by
  obtain ⟨hc, hkname⟩ := h.ids c k hk
  obtain ⟨he, hjname⟩ := h.ids e j hj
  have hbound := h.bound
  rw [hkname, hjname]
  intro hname
  exact hne (connName_injective cfg (by omega) (by omega) hname)

/-- What a token says stays true when the map loses an entry. -/
theorem meets_of_imp {inMap inMap' : Prop} {hold : Hold} (hmap : inMap' → inMap)
    (h : hold.Meets l k inMap) : hold.Meets l k inMap' := by
  cases hold with
  | destroy => exact ⟨h.1, h.2.1, fun hin => h.2.2 (hmap hin)⟩
  | removing => exact ⟨h.1, h.2.1, fun hin => h.2.2 (hmap hin)⟩
  | destroying => exact ⟨h.1, h.2.1, fun hin => h.2.2 (hmap hin)⟩
  | _ => exact h

@[simp] theorem erase_self (name : List Char) : (s.erase name).connections name = none :=
  Function.update_self ..

theorem erase_of_ne {name name' : List Char} (h : name' ≠ name) :
    (s.erase name).connections name' = s.connections name' := Function.update_of_ne h ..

theorem erase_connections {name name' : List Char} {e : Nat}
    (h : (s.erase name).connections name' = some e) : s.connections name' = some e := by
  rcases Function.update_eq_some h with ⟨_, hnone⟩ | ⟨_, hbefore⟩
  · cases hnone
  · exact hbefore

theorem Consistent.erase (h : s.Consistent cfg) (name : List Char) :
    (s.erase name).Consistent cfg where
  ids := h.ids
  bound := h.bound
  map := fun name c hc => h.map name c (erase_connections hc)
  life := h.life
  gone := fun c k hk hdestroyed hin => h.gone c k hk hdestroyed (erase_connections hin)
  tokens := by
    intro l t ht
    obtain ⟨k, hk, hmeets⟩ := h.tokens l t ht
    exact ⟨k, hk, meets_of_imp erase_connections hmeets⟩
  once := h.once
  wellFormed := h.wellFormed
  channels := h.channels
  kernel := h.kernel

/-- The entry of the map goes to the functor that erases it. -/
theorem Owned.removeConnectionInLoop (h : s.Owned cfg) (hk : s.conns c = some k)
    (hstate : k.conn.state = .kDisconnected) (hidle : (s.loops baseLoop).frame = .idle) :
    (s.call baseLoop (.removeConnectionInLoop c)).Owned cfg := by
  have hcall : s.call baseLoop (.removeConnectionInLoop c)
      = (s.erase k.name).setFrame baseLoop (.removing c) := by
    simp only [call, hk]
  rw [hcall]
  have hremoving : ⟨.removing, c⟩ ∈ ({ s.loops baseLoop with frame := .removing c } : IoLoop).tokens :=
    (IoLoop.mem_tokens _).mpr (Or.inl (List.mem_singleton_self _))
  constructor
  · apply (h.toConsistent.erase k.name).setLoop
    · rfl
    · exact ⟨nofun, nofun, (h.wellFormed baseLoop).rest⟩
    · exact h.once baseLoop
    · intro t ht
      rcases (IoLoop.mem_tokens _).mp ht with hframe | hrest
      · right
        rw [List.mem_singleton.mp hframe]
        refine ⟨k, hk, rfl, hstate, ?_⟩
        rw [InMap, erase_self]
        exact (Option.some_ne_none c).symm
      · exact Or.inl ((IoLoop.mem_tokens _).mpr (Or.inr hrest))
  · intro e j hj halive
    by_cases hec : e = c
    · subst e
      have hcarries : Hold.removing.Carries := trivial
      exact Kept.of_mem hcarries hremoving
    · have hkept : (s.erase k.name).Kept e j := by
        rcases h.kept e j hj halive with hin | hheld
        · left
          rwa [InMap, erase_of_ne (h.name_ne hk hj hec)]
        · exact Or.inr hheld
      apply hkept.setLoop
      intro hold hcarries hmem
      apply Kept.of_mem hcarries
      rcases (IoLoop.mem_tokens _).mp hmem with hframe | hrest
      · change _ ∈ (s.loops baseLoop).frame.tokens at hframe
        rw [hidle] at hframe
        exact absurd hframe List.not_mem_nil
      · exact (IoLoop.mem_tokens _).mpr (Or.inr hrest)

theorem Consistent.fresh (h : s.Consistent cfg) : s.conns s.nextConnId = none := by
  cases hc : s.conns s.nextConnId with
  | none => rfl
  | some k => exact absurd (h.ids _ k hc).1 (Nat.lt_irrefl _)

theorem addConnection_self (next : Nat) : (s.addConnection k next).conns s.nextConnId = some k :=
  Function.update_self ..

theorem addConnection_of_lt {e : Nat} (h : e < s.nextConnId) (next : Nat) :
    (s.addConnection k next).conns e = s.conns e := Function.update_of_ne (Nat.ne_of_lt h) ..

theorem addConnection_name (next : Nat) :
    (s.addConnection k next).connections k.name = some s.nextConnId := Function.update_self ..

theorem addConnection_of_name_ne {name : List Char} (h : name ≠ k.name) (next : Nat) :
    (s.addConnection k next).connections name = s.connections name := Function.update_of_ne h ..

theorem forall_addConnection {P : Nat → ServerConn n → Prop} {next : Nat} (hk : P s.nextConnId k)
    (hs : ∀ e j, s.conns e = some j → P e j) (e : Nat) (j : ServerConn n)
    (hj : (s.addConnection k next).conns e = some j) : P e j :=
  forall_setConn (P := P) hk hs e j hj

theorem Consistent.name_fresh (h : s.Consistent cfg) (hbound : s.nextConnId < 2 ^ 31) {e : Nat}
    {j : ServerConn n} (hj : s.conns e = some j) : j.name ≠ connName cfg s.nextConnId := by
  obtain ⟨he, hjname⟩ := h.ids e j hj
  rw [hjname]
  intro hsame
  have := connName_injective cfg (by omega) hbound hsame
  omega

theorem Owned.addConnection (h : s.Owned cfg) (hbound : s.nextConnId < 2 ^ 31) (next : Nat)
    (hname : k.name = connName cfg s.nextConnId) (hlife : k.Life) (halive : k.destroyed = false) :
    (s.addConnection k next).Owned cfg := by
  have hconns {e : Nat} {j : ServerConn n} (hj : s.conns e = some j) :
      (s.addConnection k next).conns e = some j := by
    rw [addConnection_of_lt (h.ids e j hj).1, hj]
  have hinMap {e : Nat} {j : ServerConn n} (hj : s.conns e = some j) :
      (s.addConnection k next).InMap e j ↔ s.InMap e j := by
    have hne := h.name_fresh hbound hj
    rw [← hname] at hne
    rw [InMap, InMap, addConnection_of_name_ne hne]
  have hlookup {P : ServerConn n → Prop} {e : Nat} (hP : ∃ j, s.conns e = some j ∧ P j) :
      ∃ j, (s.addConnection k next).conns e = some j ∧ P j := by
    obtain ⟨j, hj, hP⟩ := hP
    exact ⟨j, hconns hj, hP⟩
  constructor
  · constructor
    case ids =>
      apply forall_addConnection
      · exact ⟨Nat.lt_succ_self _, hname⟩
      · intro e j hj
        exact ⟨Nat.lt_succ_of_lt (h.ids e j hj).1, (h.ids e j hj).2⟩
    case bound => exact hbound
    case map =>
      intro name e he
      rcases Function.update_eq_some he with ⟨hsame, hnew⟩ | ⟨_, hbefore⟩
      · cases hnew
        exact ⟨hsame.trans hname, Nat.lt_succ_self _⟩
      · exact ⟨(h.map name e hbefore).1, Nat.lt_succ_of_lt (h.map name e hbefore).2⟩
    case life =>
      apply forall_addConnection
      · exact hlife
      · exact h.life
    case gone =>
      apply forall_addConnection
      · exact fun hdestroyed => absurd (hdestroyed.symm.trans halive) (by decide)
      · exact fun e j hj hdestroyed hin => h.gone e j hj hdestroyed ((hinMap hj).mp hin)
    case tokens =>
      intro l t ht
      obtain ⟨j, hj, hmeets⟩ := h.tokens l t ht
      exact ⟨j, hconns hj, meets_of_imp (hinMap hj).mp hmeets⟩
    case once => exact h.once
    case wellFormed => exact h.wellFormed
    case channels => exact fun l fd e he => hlookup (h.channels l fd e he)
    case kernel => exact fun l fd ev e he => hlookup (h.kernel l fd ev e he)
  · apply forall_addConnection
    · intro _
      exact Or.inl (addConnection_name next)
    · intro e j hj halive
      rcases h.kept e j hj halive with hmap | hheld
      · exact Or.inl ((hinMap hj).mpr hmap)
      · exact Or.inr hheld

/-! ### The functors and the frames -/

theorem Owned.connectEstablished (h : s.Owned cfg) (hk : s.conns c = some k)
    (hstate : k.conn.state = .kConnecting) (hno : ∀ l, ⟨.establish, c⟩ ∉ (s.loops l).tokens) :
    (s.call l (.connectEstablished c)).Owned cfg := by
  obtain ⟨hregistration, hconnected⟩ := (s.world k).connectEstablished_registration c
  have hcall : s.call l (.connectEstablished c)
      = s.putWorld c { k with established := true } ((s.world k).connectEstablished c) := by
    simp only [call, hk]
    rfl
  have halive : k.destroyed = false := by
    apply (h.life c k hk).alive
    rw [hstate]
    decide
  rw [hcall]
  apply h.putWorld hk halive hregistration
  · rw [hconnected]
    decide
  · rw [hstate]
    nofun
  · exact hno

/-- `newConnection` with either kind of loop: the first functor runs at once or is queued. -/
theorem Owned.newConnection (h : s.Owned cfg) (hbound : s.nextConnId < 2 ^ 31) (sockfd : Fd) :
    (s.newConnection cfg sockfd).Owned cfg := by
  have hfresh (l : Fin (n + 1)) (hold : Hold) :
      ⟨hold, s.nextConnId⟩ ∉ (s.loops l).tokens := by
    intro hmem
    obtain ⟨j, hj, _⟩ := h.tokens l _ hmem
    exact absurd (h.fresh.symm.trans hj) nofun
  unfold TcpServer.newConnection
  dsimp only
  generalize hk : (⟨TcpConnection.new sockfd cfg.writeCompleteCallback cfg.highWaterMarkCallback
    cfg.highWaterMark, (getNextLoop n s.next).1, connName cfg s.nextConnId, false, false⟩ :
    ServerConn n) = k
  have hadd : (s.addConnection k (getNextLoop n s.next).2).Owned cfg := by
    apply h.addConnection hbound
    · subst k
      rfl
    · subst k
      exact ⟨iff_of_false nofun (fun hne => hne rfl), nofun⟩
    · subst k
      rfl
  have hself := addConnection_self (s := s) (k := k) (getNextLoop n s.next).2
  unfold runInLoop
  split
  · apply hadd.connectEstablished hself
    · subst k
      rfl
    · exact fun l => hfresh l _
  · apply hadd.queueInLoop
    · intro t ht
      rw [List.mem_singleton.mp ht]
      subst k
      exact ⟨_, hself, rfl, rfl⟩
    · intro c _ hqueued
      refine hfresh (getNextLoop n s.next).1 .establish ?_
      rw [IoLoop.mem_tokens]
      exact Or.inr (Or.inl ⟨_, hqueued, List.mem_singleton_self _⟩)

end LTMuduo.TcpServer
