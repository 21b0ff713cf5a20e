import LTMuduo.TcpServer.Code
import LTMuduo.Connection.Registration
import Mathlib.Algebra.Group.Nat.Defs

/-!
# Who holds a connection

A connection travels from its entry in `connections_` through `handleClose`, `removeConnectionInLoop` and `connectDestroyed`. A `Token` is one mention of a connection on a loop thread: in a functor of its queue, in the function it is in, or in the batch of channels it dispatches. `Owned` is the invariant: what each token says about its connection, and that a connection which has not been destroyed is in the map or on its way to `connectDestroyed`.
-/

namespace LTMuduo

/-! ### Tokens -/

/-- The functors, the channel in a batch, and the functions that are cut. -/
inductive Hold
  | establish
  | remove
  | destroy
  | listed
  | closing
  | removing
  | destroying
  deriving DecidableEq

structure Token where
  hold : Hold
  conn : Nat
  deriving DecidableEq

def LoopFunctor.tokens : LoopFunctor → List Token
  | .connectEstablished c => [⟨.establish, c⟩]
  | .removeConnectionInLoop c => [⟨.remove, c⟩]
  | .connectDestroyed c => [⟨.destroy, c⟩]
  | .other => []

def Frame.tokens : Frame → List Token
  | .idle => []
  | .closing c => [⟨.closing, c⟩]
  | .removing c => [⟨.removing, c⟩]
  | .destroying c => [⟨.destroying, c⟩]

namespace Phase

def active : Phase → List Nat
  | .dispatch active _ => active
  | _ => []

def rest : Phase → List (Nat × List EventCallback)
  | .dispatch _ rest => rest
  | _ => []

def pending : Phase → List LoopFunctor
  | .functors rest => rest
  | _ => []

end Phase

namespace IoLoop

variable (x : IoLoop)

/-- The functors that have not been called, in their order. -/
def queue : List LoopFunctor := x.phase.pending ++ x.loop.pendingFunctors

variable {x} in
theorem queue_of_phase {phase : Phase} (h : x.phase = phase) :
    x.queue = phase.pending ++ x.loop.pendingFunctors := by rw [queue, h]

def tokens : List Token :=
  x.frame.tokens ++ x.queue.flatMap LoopFunctor.tokens ++ x.phase.active.map (Token.mk .listed)

theorem mem_tokens {t : Token} : t ∈ x.tokens ↔
    t ∈ x.frame.tokens ∨ (∃ f ∈ x.queue, t ∈ f.tokens) ∨ ∃ c ∈ x.phase.active, ⟨.listed, c⟩ = t := by
  rw [tokens, List.mem_append, List.mem_append, List.mem_flatMap, List.mem_map, or_assoc]

variable {x} in
theorem mem_tokens_of_subset {y : IoLoop} (hframe : x.frame = y.frame) (hqueue : x.queue ⊆ y.queue)
    (hactive : x.phase.active ⊆ y.phase.active) {t : Token} (ht : t ∈ x.tokens) : t ∈ y.tokens := by
  rw [mem_tokens, hframe] at ht
  rw [mem_tokens]
  rcases ht with hin | ⟨f, hf, hin⟩ | ⟨c, hc, heq⟩
  · exact Or.inl hin
  · exact Or.inr (Or.inl ⟨f, hqueue hf, hin⟩)
  · exact Or.inr (Or.inr ⟨c, hactive hc, heq⟩)

/-- `handleClose` runs in a batch of events, `connectDestroyed` in a batch of functors. -/
structure WellFormed : Prop where
  closing : ∀ c, x.frame = .closing c → c ∈ x.phase.active
  destroying : ∀ c, x.frame = .destroying c → ∃ rest, x.phase = .functors rest
  rest : ∀ c callbacks, (c, callbacks) ∈ x.phase.rest → c ∈ x.phase.active

end IoLoop

/-- What a token on loop thread `l` says about its connection. -/
def Hold.Meets {n : Nat} (l : Fin (n + 1)) (k : ServerConn n) (inMap : Prop) : Hold → Prop
  | .establish => k.loop = l ∧ k.conn.state = .kConnecting
  | .remove => l = TcpServer.baseLoop ∧ k.conn.state = .kDisconnected
  | .destroy => k.loop = l ∧ k.conn.state = .kDisconnected ∧ ¬ inMap
  | .listed => k.loop = l ∧ k.established = true ∧ k.destroyed = false
  | .closing => k.loop = l ∧ k.conn.state = .kDisconnected
  | .removing => l = TcpServer.baseLoop ∧ k.conn.state = .kDisconnected ∧ ¬ inMap
  | .destroying => k.loop = l ∧ k.conn.state = .kDisconnected ∧ ¬ inMap

/-- Between the `erase` and the end of `connectDestroyed`. -/
def Hold.Carries : Hold → Prop
  | .removing => True
  | .destroy => True
  | .destroying => True
  | _ => False

namespace ServerConn

variable {n : Nat} (k : ServerConn n)

/-- The two flags of the history agree with `state_`. -/
structure Life : Prop where
  established : k.established = true ↔ k.conn.state ≠ .kConnecting
  destroyed : k.destroyed = true → k.conn.state = .kDisconnected

variable {k} in
theorem Life.alive (h : k.Life) (hstate : k.conn.state ≠ .kDisconnected) : k.destroyed = false := by
  cases hdestroyed : k.destroyed with
  | false => rfl
  | true => exact absurd (h.destroyed hdestroyed) hstate

/-- What an entry of a table of the poller of loop `l` says about its connection. -/
structure Registered (l : Fin (n + 1)) (fd : Fd) : Prop where
  loop : k.loop = l
  fd : k.conn.channel.fd = fd
  established : k.established = true
  alive : k.destroyed = false

end ServerConn

namespace TcpServer

variable {n : Nat} (cfg : ServerConfig) (s : TcpServer n)

def InMap (c : Nat) (k : ServerConn n) : Prop := s.connections k.name = some c

def TokenOk (l : Fin (n + 1)) (t : Token) : Prop :=
  ∃ k, s.conns t.conn = some k ∧ t.hold.Meets l k (s.InMap t.conn k)

/-- The connection is in the map or on its way through `connectDestroyed`. -/
def Kept (c : Nat) (k : ServerConn n) : Prop :=
  s.InMap c k ∨ ∃ l hold, Hold.Carries hold ∧ ⟨hold, c⟩ ∈ (s.loops l).tokens

structure Consistent : Prop where
  ids : ∀ c k, s.conns c = some k → c < s.nextConnId ∧ k.name = connName cfg c
  bound : s.nextConnId ≤ 2 ^ 31
  map : ∀ name c, s.connections name = some c → name = connName cfg c ∧ c < s.nextConnId
  life : ∀ c k, s.conns c = some k → k.Life
  gone : ∀ c k, s.conns c = some k → k.destroyed = true → ¬ s.InMap c k
  tokens : ∀ l t, t ∈ (s.loops l).tokens → s.TokenOk l t
  once : ∀ l c, (s.loops l).queue.count (.connectEstablished c) ≤ 1
  wellFormed : ∀ l, (s.loops l).WellFormed
  channels : ∀ l fd c, (s.loops l).poller.channels fd = some c →
    ∃ k, s.conns c = some k ∧ k.Registered l fd
  kernel : ∀ l fd ev c, (s.loops l).poller.kernel fd = some (ev, c) →
    ∃ k, s.conns c = some k ∧ k.Registered l fd ∧ k.conn.channel.index = .kAdded

structure Owned : Prop extends Consistent cfg s where
  kept : ∀ c k, s.conns c = some k → k.destroyed = false → s.Kept c k

theorem new_conns {c : Nat} {k : ServerConn n} (h : (new : TcpServer n).conns c = some k) :
    False := by cases h

theorem new_owned : (new : TcpServer n).Owned cfg := by
  constructor
  · constructor
    case bound => exact show 1 ≤ 2 ^ 31 by decide
    case tokens => exact fun _ _ h => absurd h List.not_mem_nil
    case once => exact fun _ _ => Nat.zero_le 1
    case wellFormed => exact fun _ => ⟨nofun, nofun, nofun⟩
    all_goals
      intros
      contradiction
  · exact fun _ _ hk => (new_conns hk).elim

/-! ### Names -/

theorem length_connId {connId : Nat} (h : connId < 2 ^ 31) :
    (Nat.toDigits 10 connId).length ≤ 10 := by
  rw [Nat.length_toDigits_le_iff (by decide) (by decide)]
  omega

/-- Below 2^31 connections, `snprintf` truncates nothing and the names differ. -/
theorem connName_injective {c c' : Nat} (hc : c < 2 ^ 31) (hc' : c' < 2 ^ 31)
    (h : connName cfg c = connName cfg c') : c = c' := by
  have hipPort := cfg.length_ipPort
  have hfits {d : Nat} (hd : d < 2 ^ 31) :
      ('-' :: cfg.ipPort ++ '#' :: Nat.toDigits 10 d).length ≤ 63 := by
    have hdigits := length_connId hd
    simp only [List.length_append, List.length_cons]
    omega
  rw [connName, connName, List.take_of_length_le (hfits hc), List.take_of_length_le (hfits hc')] at h
  have hdigits : Nat.toDigits 10 c = Nat.toDigits 10 c' := by
    have htail := List.append_cancel_left (List.append_cancel_left h)
    exact (List.cons.inj htail).2
  rw [← Nat.ofDigitChars_ten_toDigits (n := c), hdigits, Nat.ofDigitChars_ten_toDigits]

/-! ### Changes of one loop -/

variable {cfg s}

@[simp] theorem setLoop_self (l : Fin (n + 1)) (x : IoLoop) : (s.setLoop l x).loops l = x :=
  Function.update_self ..

theorem setLoop_of_ne {l l' : Fin (n + 1)} (h : l' ≠ l) (x : IoLoop) :
    (s.setLoop l x).loops l' = s.loops l' := Function.update_of_ne h ..

theorem setLoop_setLoop (l : Fin (n + 1)) (x y : IoLoop) :
    (s.setLoop l x).setLoop l y = s.setLoop l y := by
  rw [setLoop, setLoop, setLoop, Function.update_idem]

theorem setLoop_comm {l l' : Fin (n + 1)} (h : l ≠ l') (x y : IoLoop) :
    (s.setLoop l x).setLoop l' y = (s.setLoop l' y).setLoop l x := by
  simp only [setLoop]
  rw [Function.update_comm h]

theorem forall_setLoop {P : Fin (n + 1) → IoLoop → Prop} {l : Fin (n + 1)} {x : IoLoop}
    (hx : P l x) (hs : ∀ l', P l' (s.loops l')) (l' : Fin (n + 1)) :
    P l' ((s.setLoop l x).loops l') := by
  by_cases hl : l' = l
  · subst l'
    rw [setLoop_self]
    exact hx
  · rw [setLoop_of_ne hl]
    exact hs l'

/-- A loop goes on without touching its poller. Its tokens are old ones or agree with their connections. -/
theorem Consistent.setLoop (h : s.Consistent cfg) {l : Fin (n + 1)} {x : IoLoop}
    (hpoller : x.poller = (s.loops l).poller) (hwf : x.WellFormed)
    (honce : ∀ c, x.queue.count (.connectEstablished c) ≤ 1)
    (htokens : ∀ t ∈ x.tokens, t ∈ (s.loops l).tokens ∨ s.TokenOk l t) :
    (s.setLoop l x).Consistent cfg where
  ids := h.ids
  bound := h.bound
  map := h.map
  life := h.life
  gone := h.gone
  tokens := forall_setLoop (P := fun l x => ∀ t ∈ x.tokens, s.TokenOk l t)
    (fun t ht => (htokens t ht).elim (h.tokens l t) id) h.tokens
  once := forall_setLoop (P := fun _ x => ∀ c, x.queue.count (.connectEstablished c) ≤ 1) honce h.once
  wellFormed := forall_setLoop (P := fun _ x => x.WellFormed) hwf h.wellFormed
  channels := by
    have hbefore := h.channels l
    rw [← hpoller] at hbefore
    exact forall_setLoop (P := fun l x => ∀ fd c, x.poller.channels fd = some c →
      ∃ k, s.conns c = some k ∧ k.Registered l fd) hbefore h.channels
  kernel := by
    have hbefore := h.kernel l
    rw [← hpoller] at hbefore
    exact forall_setLoop (P := fun l x => ∀ fd ev c, x.poller.kernel fd = some (ev, c) →
      ∃ k, s.conns c = some k ∧ k.Registered l fd ∧ k.conn.channel.index = .kAdded) hbefore h.kernel

theorem Kept.of_mem {c : Nat} {k : ServerConn n} {l : Fin (n + 1)} {x : IoLoop} {hold : Hold}
    (hcarries : hold.Carries) (hmem : ⟨hold, c⟩ ∈ x.tokens) : (s.setLoop l x).Kept c k :=
  Or.inr ⟨l, hold, hcarries, by rwa [setLoop_self]⟩

theorem Kept.setLoop {c : Nat} {k : ServerConn n} (h : s.Kept c k) {l : Fin (n + 1)} {x : IoLoop}
    (hcarry : ∀ hold : Hold, hold.Carries → ⟨hold, c⟩ ∈ (s.loops l).tokens →
      (s.setLoop l x).Kept c k) : (s.setLoop l x).Kept c k := by
  cases h with
  | inl hmap => exact Or.inl hmap
  | inr hheld =>
    obtain ⟨l', hold, hcarries, hmem⟩ := hheld
    by_cases hl : l' = l
    · subst l'
      exact hcarry hold hcarries hmem
    · exact Or.inr ⟨l', hold, hcarries, by rwa [setLoop_of_ne hl]⟩

theorem Owned.setLoop (h : s.Owned cfg) {l : Fin (n + 1)} {x : IoLoop}
    (hpoller : x.poller = (s.loops l).poller) (hwf : x.WellFormed)
    (honce : ∀ c, x.queue.count (.connectEstablished c) ≤ 1)
    (htokens : ∀ t ∈ x.tokens, t ∈ (s.loops l).tokens ∨ s.TokenOk l t)
    (hcarry : ∀ c k, s.conns c = some k → k.destroyed = false → ∀ hold : Hold, hold.Carries →
      ⟨hold, c⟩ ∈ (s.loops l).tokens → (s.setLoop l x).Kept c k) :
    (s.setLoop l x).Owned cfg where
  toConsistent := h.toConsistent.setLoop hpoller hwf honce htokens
  kept := fun c k hk halive => (h.kept c k hk halive).setLoop (hcarry c k hk halive)

/-- A loop goes on and drops only tokens that keep nothing. -/
theorem Owned.drop (h : s.Owned cfg) {l : Fin (n + 1)} {x : IoLoop}
    (hpoller : x.poller = (s.loops l).poller) (hwf : x.WellFormed)
    (hqueue : x.queue.Sublist (s.loops l).queue)
    (htokens : ∀ t ∈ x.tokens, t ∈ (s.loops l).tokens)
    (hcarry : ∀ t ∈ (s.loops l).tokens, t.hold.Carries → t ∈ x.tokens) :
    (s.setLoop l x).Owned cfg := by
  apply h.setLoop hpoller hwf
  · intro c
    exact (hqueue.count_le _).trans (h.once l c)
  · intro t ht
    exact Or.inl (htokens t ht)
  · intro c k _ _ hold hcarries hmem
    exact Kept.of_mem hcarries (hcarry _ hmem hcarries)

/-! ### Changes of one connection -/

@[simp] theorem setConn_self (c : Nat) (k : ServerConn n) : (s.setConn c k).conns c = some k :=
  Function.update_self ..

theorem setConn_of_ne {c e : Nat} (h : e ≠ c) (k : ServerConn n) :
    (s.setConn c k).conns e = s.conns e := Function.update_of_ne h ..

theorem forall_setConn {P : Nat → ServerConn n → Prop} {c : Nat} {k : ServerConn n} (hk : P c k)
    (hs : ∀ e k, s.conns e = some k → P e k) (e : Nat) (k' : ServerConn n)
    (he : (s.setConn c k).conns e = some k') : P e k' := by
  rcases Function.update_eq_some he with ⟨rfl, hnew⟩ | ⟨_, hbefore⟩
  · cases hnew
    exact hk
  · exact hs e k' hbefore

/-- What is known of the connection with number `e` stays known, if it stays true where `e` is `c`. -/
theorem lookup_setConn {P : ServerConn n → Prop} {c e : Nat} {k k' : ServerConn n}
    (hk : s.conns c = some k) (hbefore : ∃ j, s.conns e = some j ∧ P j) (hkeep : e = c → P k → P k') :
    ∃ j, (s.setConn c k').conns e = some j ∧ P j := by
  obtain ⟨j, hj, hP⟩ := hbefore
  by_cases hec : e = c
  · subst e
    cases hk.symm.trans hj
    exact ⟨k', setConn_self .., hkeep rfl hP⟩
  · exact ⟨j, (setConn_of_ne hec k').trans hj, hP⟩

theorem inMap_of_name {c : Nat} {k k' : ServerConn n} (hname : k'.name = k.name) :
    s.InMap c k' = s.InMap c k := by
  rw [InMap, InMap, hname]

theorem Consistent.setConn (h : s.Consistent cfg) {c : Nat} {k k' : ServerConn n}
    {p : EPollPoller Nat} (hk : s.conns c = some k) (hname : k'.name = k.name)
    (hlife : k'.Life) (hgone : k'.destroyed = true → ¬ s.InMap c k)
    (hmeets : ∀ l hold, ⟨hold, c⟩ ∈ (s.loops l).tokens → hold.Meets l k (s.InMap c k) →
      hold.Meets l k' (s.InMap c k))
    (hchannels : ∀ fd e, p.channels fd = some e →
      e ≠ c ∧ (s.loops k.loop).poller.channels fd = some e ∨ e = c ∧ k'.Registered k.loop fd)
    (hkernel : ∀ fd ev e, p.kernel fd = some (ev, e) →
      e ≠ c ∧ (s.loops k.loop).poller.kernel fd = some (ev, e) ∨
        e = c ∧ k'.Registered k.loop fd ∧ k'.conn.channel.index = .kAdded) :
    ((s.setConn c k').setLoop k.loop { s.loops k.loop with poller := p }).Consistent cfg where
  ids := forall_setConn (P := fun e k => e < s.nextConnId ∧ k.name = connName cfg e)
    ⟨(h.ids c k hk).1, hname.trans (h.ids c k hk).2⟩ h.ids
  bound := h.bound
  map := h.map
  life := forall_setConn (P := fun _ k => k.Life) hlife h.life
  gone := by
    apply forall_setConn (P := fun e j => j.destroyed = true → ¬ s.InMap e j)
    · rw [inMap_of_name hname]
      exact hgone
    · exact h.gone
  tokens := by
    have hok (l : Fin (n + 1)) (t : Token) (ht : t ∈ (s.loops l).tokens) :
        (s.setConn c k').TokenOk l t := by
      refine lookup_setConn hk (h.tokens l t ht) ?_
      intro htc hmeet
      obtain ⟨hold, e⟩ := t
      change e = c at htc
      subst e
      change hold.Meets l k' (s.InMap c k')
      rw [inMap_of_name hname]
      exact hmeets l hold ht hmeet
    exact forall_setLoop (P := fun l x => ∀ t ∈ x.tokens, (s.setConn c k').TokenOk l t)
      (hok k.loop) hok
  once := forall_setLoop (P := fun _ x => ∀ c, x.queue.count (.connectEstablished c) ≤ 1)
    (h.once k.loop) h.once
  wellFormed := by
    have hwf := h.wellFormed k.loop
    exact forall_setLoop (P := fun _ x => x.WellFormed) ⟨hwf.closing, hwf.destroying, hwf.rest⟩
      h.wellFormed
  channels := by
    intro l fd e he
    by_cases hl : l = k.loop
    · subst l
      rw [setLoop_self] at he
      rcases hchannels fd e he with ⟨hec, hbefore⟩ | ⟨rfl, hregistered⟩
      · exact lookup_setConn hk (h.channels _ fd e hbefore) fun heq => absurd heq hec
      · exact ⟨k', setConn_self .., hregistered⟩
    · rw [setLoop_of_ne hl] at he
      exact lookup_setConn hk (h.channels l fd e he) fun _ hold => absurd hold.loop.symm hl
  kernel := by
    intro l fd ev e he
    by_cases hl : l = k.loop
    · subst l
      rw [setLoop_self] at he
      rcases hkernel fd ev e he with ⟨hec, hbefore⟩ | ⟨rfl, hregistered⟩
      · exact lookup_setConn hk (h.kernel _ fd ev e hbefore) fun heq => absurd heq hec
      · exact ⟨k', setConn_self .., hregistered⟩
    · rw [setLoop_of_ne hl] at he
      exact lookup_setConn hk (h.kernel l fd ev e he) fun _ hold => absurd hold.1.loop.symm hl

theorem Owned.setConn (h : s.Owned cfg) {c : Nat} {k k' : ServerConn n} {p : EPollPoller Nat}
    (hk : s.conns c = some k) (hname : k'.name = k.name)
    (halive : k'.destroyed = false → k.destroyed = false)
    (hcons : ((s.setConn c k').setLoop k.loop
      { s.loops k.loop with poller := p }).Consistent cfg) :
    ((s.setConn c k').setLoop k.loop { s.loops k.loop with poller := p }).Owned cfg where
  toConsistent := hcons
  kept := by
    have hkept : ∀ e j, (s.setConn c k').conns e = some j → j.destroyed = false → s.Kept e j := by
      refine forall_setConn (P := fun e j => j.destroyed = false → s.Kept e j) ?_ h.kept
      intro halive'
      rw [Kept, inMap_of_name hname]
      exact h.kept c k hk (halive halive')
    intro e j hj halive'
    have hkept' : (s.setConn c k').Kept e j := hkept e j hj halive'
    exact hkept'.setLoop fun hold hcarries hmem => Kept.of_mem hcarries hmem

end TcpServer

end LTMuduo
