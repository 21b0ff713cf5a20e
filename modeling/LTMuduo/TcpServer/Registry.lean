import LTMuduo.TcpServer.Ownership

/-!
# The registry of the connections

`connections_` under any run of `newConnection` and `removeConnectionInLoop` on the base loop, with `nextConnId_` as the 32-bit `int` that it is. A connection is known by its place in the order of the accepted ones, which stands for the pointer. An increment past the largest `int` is undefined; the model wraps, as the machine would.
-/

namespace LTMuduo

/-- A `sockaddr_in`: the octets of `sin_addr` in network order, and `ntohs(sin_port)`. -/
structure InetAddress where
  octets : Fin 4 → Byte
  port : UInt16

namespace InetAddress

variable (addr : InetAddress)

/-- `toIp`, which is `::inet_ntop`. -/
def toIp : List Char :=
  Nat.toDigits 10 (addr.octets 0).toNat ++ '.' :: Nat.toDigits 10 (addr.octets 1).toNat ++
    '.' :: Nat.toDigits 10 (addr.octets 2).toNat ++ '.' :: Nat.toDigits 10 (addr.octets 3).toNat

def toIpPort : List Char := addr.toIp ++ ':' :: Nat.toDigits 10 addr.port.toNat

theorem length_toIpPort : addr.toIpPort.length ≤ 21 := by
  have hoctet (i : Fin 4) : (Nat.toDigits 10 (addr.octets i).toNat).length ≤ 3 := by
    rw [Nat.length_toDigits_le_iff (by decide) (by decide)]
    have hlt := (addr.octets i).toNat_lt
    omega
  have hport : (Nat.toDigits 10 addr.port.toNat).length ≤ 5 := by
    rw [Nat.length_toDigits_le_iff (by decide) (by decide)]
    have hlt := addr.port.toNat_lt
    omega
  have h0 := hoctet 0
  have h1 := hoctet 1
  have h2 := hoctet 2
  have h3 := hoctet 3
  simp only [toIpPort, toIp, List.length_append, List.length_cons]
  omega

end InetAddress

/-- The conversion `%d`. -/
def formatInt : Int → List Char
  | .ofNat n => Nat.toDigits 10 n
  | .negSucc n => '-' :: Nat.toDigits 10 (n + 1)

theorem length_formatInt (i : BitVec 32) : (formatInt i.toInt).length ≤ 11 := by
  have hlow := BitVec.le_toInt i
  have hhigh := BitVec.toInt_lt (x := i)
  cases hi : i.toInt with
  | ofNat n =>
    rw [hi, Int.ofNat_eq_natCast] at hhigh
    have hdigits : (Nat.toDigits 10 n).length ≤ 10 := by
      rw [Nat.length_toDigits_le_iff (by decide) (by decide)]
      omega
    exact Nat.le_succ_of_le hdigits
  | negSucc n =>
    rw [hi] at hlow
    have hdigits : (Nat.toDigits 10 (n + 1)).length ≤ 10 := by
      rw [Nat.length_toDigits_le_iff (by decide) (by decide)]
      omega
    exact Nat.succ_le_succ hdigits

/-- `accepted` are the names of the accepted connections, and `removed` the connections whose `removeConnectionInLoop` has run. -/
structure Registry where
  nextConnId : BitVec 32
  connections : List Char → Option Nat
  accepted : List (List Char)
  removed : List Nat

inductive RegistryStep
  | newConnection
  | removeConnectionInLoop (conn : Nat)
  deriving DecidableEq

namespace Registry

/-- The text that `newConnection` formats, before the buffer cuts it. -/
def suffix (addr : InetAddress) (connId : BitVec 32) : List Char :=
  '-' :: addr.toIpPort ++ '#' :: formatInt connId.toInt

/-- `snprintf` into the buffer of 64 bytes, behind the name of the server. -/
def connName (name : List Char) (addr : InetAddress) (connId : BitVec 32) : List Char :=
  name ++ (suffix addr connId).take 63

def start : Registry where
  nextConnId := 1
  connections := fun _ => none
  accepted := []
  removed := []

variable (name : List Char) (addr : InetAddress) (s : Registry)

def step : RegistryStep → Option Registry
  | .newConnection =>
    let connName := connName name addr s.nextConnId
    some { s with
      nextConnId := s.nextConnId + 1
      connections := Function.update s.connections connName (some s.accepted.length)
      accepted := s.accepted ++ [connName] }
  | .removeConnectionInLoop conn =>
    match s.accepted[conn]? with
    | some connName => some { s with
        connections := Function.update s.connections connName none
        removed := conn :: s.removed }
    | none => none

def machine : Machine Registry RegistryStep where
  init s := s = start
  step := step name addr

/-- The largest `int`. -/
def intMax : BitVec 32 := 0x7fffffff

/-- `connections_` is the set of the accepted connections whose removal has not run, each under its name. -/
def Exact : Prop :=
  ∀ connName conn, s.connections connName = some conn ↔
    s.accepted[conn]? = some connName ∧ conn ∉ s.removed

/-- What each step has to do. -/
structure Right (s : Registry) (a : RegistryStep) (s' : Registry) : Prop where
  increment : a = .newConnection → s'.nextConnId.toInt = s.nextConnId.toInt + 1
  whole : a = .newConnection → (suffix addr s.nextConnId).length < 64
  inserts : a = .newConnection → s.connections (connName name addr s.nextConnId) = none
  exact : s'.Exact

/-- The increment does not overflow. -/
def inRange : RegistryStep → Bool
  | .newConnection => s.nextConnId != intMax
  | _ => true

/-! ### The invariant -/

structure Sound (s : Registry) : Prop where
  nextConnId : s.nextConnId.toNat = s.accepted.length + 1
  bound : s.nextConnId.toNat < 2 ^ 31
  names : ∀ conn connName', s.accepted[conn]? = some connName' →
    connName' = connName name addr (.ofNat 32 (conn + 1))
  removed : ∀ conn ∈ s.removed, conn < s.accepted.length
  exact : s.Exact

theorem start_sound : start.Sound name addr :=
  ⟨rfl, by decide, nofun, nofun, fun _ _ => ⟨nofun, nofun⟩⟩

/-! ### Names -/

/-- The server for the names; its callbacks have no part in them. -/
def config : ServerConfig where
  name := name
  ipPort := addr.toIpPort
  length_ipPort := addr.length_toIpPort
  writeCompleteCallback := false
  highWaterMarkCallback := false
  highWaterMark := 0

variable {name addr s} {s' : Registry} {a : RegistryStep}

theorem length_suffix (addr : InetAddress) (connId : BitVec 32) :
    (suffix addr connId).length < 64 := by
  have hipPort := addr.length_toIpPort
  have hid := length_formatInt connId
  simp only [suffix, List.length_append, List.length_cons]
  omega

theorem connName_eq {connId : Nat} (h : connId < 2 ^ 31) :
    connName name addr (.ofNat 32 connId) = TcpServer.connName (config name addr) connId := by
  have htoNat : (BitVec.ofNat 32 connId).toNat = connId := Nat.mod_eq_of_lt (by omega)
  have htoInt : (BitVec.ofNat 32 connId).toInt = connId := by
    rw [BitVec.toInt_eq_toNat_of_lt (by omega), htoNat]
  rw [connName, suffix, htoInt]
  rfl

theorem connName_inj {c d : Nat} (hc : c < 2 ^ 31) (hd : d < 2 ^ 31)
    (h : connName name addr (.ofNat 32 c) = connName name addr (.ofNat 32 d)) : c = d := by
  rw [connName_eq hc, connName_eq hd] at h
  exact TcpServer.connName_injective _ hc hd h

theorem lt_of_accepted {conn : Nat} {n : List Char} (h : s.accepted[conn]? = some n) :
    conn < s.accepted.length := (List.getElem?_eq_some_iff.mp h).1

theorem Sound.name_inj (h : s.Sound name addr) {c d : Nat} {n : List Char}
    (hc : s.accepted[c]? = some n) (hd : s.accepted[d]? = some n) : c = d := by
  have hbound := h.nextConnId ▸ h.bound
  have hclt := lt_of_accepted hc
  have hdlt := lt_of_accepted hd
  have heq := connName_inj (by omega) (by omega) ((h.names c n hc).symm.trans (h.names d n hd))
  omega

theorem Sound.nextConnId_eq (h : s.Sound name addr) :
    s.nextConnId = .ofNat 32 (s.accepted.length + 1) := by
  rw [← h.nextConnId, BitVec.ofNat_toNat, BitVec.setWidth_eq]

theorem Sound.name_fresh (h : s.Sound name addr) (c : Nat) :
    s.accepted[c]? ≠ some (connName name addr s.nextConnId) := by
  intro hc
  have hbound := h.nextConnId ▸ h.bound
  have hlt := lt_of_accepted hc
  have hname := h.names c _ hc
  rw [h.nextConnId_eq] at hname
  have heq := connName_inj (by omega) (by omega) hname
  omega

/-! ### The steps -/

theorem Sound.exact_newConnection (h : s.Sound name addr)
    (hstep : s.step name addr .newConnection = some s') : s'.Exact := by
  cases hstep
  intro n c
  have hnew : s.accepted.length ∉ s.removed := fun hmem => Nat.lt_irrefl _ (h.removed _ hmem)
  rcases Nat.lt_trichotomy c s.accepted.length with hlt | rfl | hgt
  · -- an old connection keeps its entry, since the name is new
    dsimp only
    rw [List.getElem?_append_left hlt, ← h.exact n c]
    by_cases hn : n = connName name addr s.nextConnId
    · subst hn
      rw [Function.update_self]
      refine iff_of_false (fun heq => ?_) fun hold => h.name_fresh c ((h.exact _ c).mp hold).1
      exact Nat.lt_irrefl _ (Option.some.inj heq ▸ hlt)
    · rw [Function.update_of_ne hn]
  · dsimp only
    rw [List.getElem?_append_right (Nat.le_refl _), Nat.sub_self, List.getElem?_cons_zero]
    by_cases hn : n = connName name addr s.nextConnId
    · subst hn
      rw [Function.update_self]
      exact iff_of_true rfl ⟨rfl, hnew⟩
    · rw [Function.update_of_ne hn]
      refine iff_of_false (fun hold => ?_) fun hsame => hn (Option.some.inj hsame.1).symm
      exact Nat.lt_irrefl _ (lt_of_accepted ((h.exact n _).mp hold).1)
  · have hnone : (s.accepted ++ [connName name addr s.nextConnId])[c]? = none := by
      rw [List.getElem?_eq_none_iff, List.length_append]
      exact hgt
    dsimp only
    rw [hnone]
    refine iff_of_false (fun hentry => ?_) fun hsome => nomatch hsome.1
    by_cases hn : n = connName name addr s.nextConnId
    · subst hn
      rw [Function.update_self] at hentry
      exact Nat.lt_irrefl _ (Option.some.inj hentry ▸ hgt)
    · rw [Function.update_of_ne hn] at hentry
      have hlt := lt_of_accepted ((h.exact n c).mp hentry).1
      omega

theorem Sound.exact_removeConnectionInLoop (h : s.Sound name addr) {conn : Nat} {n : List Char}
    (hconn : s.accepted[conn]? = some n) : Registry.Exact { s with
      connections := Function.update s.connections n none
      removed := conn :: s.removed } := by
  intro m c
  dsimp only
  by_cases hm : m = n
  · subst hm
    rw [Function.update_self]
    refine iff_of_false nofun fun hin => hin.2 ?_
    rw [h.name_inj hin.1 hconn]
    exact List.mem_cons_self
  · rw [Function.update_of_ne hm, h.exact m c, List.mem_cons, not_or]
    refine and_congr_right fun hc => ⟨fun hnot => ⟨?_, hnot⟩, And.right⟩
    intro hcc
    subst hcc
    rw [hconn] at hc
    exact hm (Option.some.inj hc).symm

theorem Sound.toNat_lt (h : s.Sound name addr) (hguard : s.nextConnId ≠ intMax) :
    s.nextConnId.toNat + 1 < 2 ^ 31 := by
  have hbound := h.bound
  have hne : s.nextConnId.toNat ≠ 0x7fffffff := fun heq => hguard (BitVec.eq_of_toNat_eq heq)
  omega

theorem toNat_increment {connId : BitVec 32} (h : connId.toNat + 1 < 2 ^ 31) :
    (connId + 1).toNat = connId.toNat + 1 := by
  rw [BitVec.toNat_add]
  exact Nat.mod_eq_of_lt (show connId.toNat + 1 < 2 ^ 32 by omega)

theorem Sound.right (h : s.Sound name addr) (hguard : s.inRange a = true)
    (hstep : s.step name addr a = some s') : Right name addr s a s' := by
  cases a with
  | newConnection =>
    refine ⟨fun _ => ?_, fun _ => length_suffix addr _, fun _ => ?_, h.exact_newConnection hstep⟩
    · cases hstep
      have hlt := h.toNat_lt (by simpa [inRange] using hguard)
      have hnext := toNat_increment hlt
      dsimp only
      rw [BitVec.toInt_eq_toNat_of_lt (by omega), BitVec.toInt_eq_toNat_of_lt (by omega), hnext]
      rfl
    · cases hentry : s.connections (connName name addr s.nextConnId) with
      | none => rfl
      | some c => exact absurd ((h.exact _ c).mp hentry).1 (h.name_fresh c)
  | removeConnectionInLoop conn =>
    unfold Registry.step at hstep
    dsimp only at hstep
    split at hstep
    · rename_i n hconn
      cases hstep
      exact ⟨nofun, nofun, nofun, h.exact_removeConnectionInLoop hconn⟩
    · cases hstep

theorem Sound.step (h : s.Sound name addr) (hguard : s.inRange a = true)
    (hstep : s.step name addr a = some s') : s'.Sound name addr := by
  have hright := h.right hguard hstep
  cases a with
  | newConnection =>
    have hlt := h.toNat_lt (by simpa [inRange] using hguard)
    have hid := h.nextConnId_eq
    cases hstep
    refine ⟨?_, ?_, fun c n hc => ?_, fun c hc => ?_, hright.exact⟩
    · dsimp only
      rw [toNat_increment hlt, h.nextConnId, List.length_append]
      rfl
    · dsimp only
      rw [toNat_increment hlt]
      exact hlt
    · dsimp only at hc
      rcases Nat.lt_or_ge c s.accepted.length with hold | hnew
      · rw [List.getElem?_append_left hold] at hc
        exact h.names c n hc
      · obtain ⟨hone, hlast⟩ := List.getElem?_eq_some_iff.mp hc
        rw [List.length_append, List.length_singleton] at hone
        have hc' : c = s.accepted.length := by omega
        subst hc'
        rw [List.getElem_append_right (Nat.le_refl _)] at hlast
        rw [← hid, ← hlast]
        simp
    · have hold := h.removed c hc
      simp only [List.length_append]
      omega
  | removeConnectionInLoop conn =>
    unfold Registry.step at hstep
    dsimp only at hstep
    split at hstep
    · rename_i n hconn
      cases hstep
      refine ⟨h.nextConnId, h.bound, h.names, fun c hc => ?_, hright.exact⟩
      rcases List.mem_cons.mp hc with rfl | hc
      · exact lt_of_accepted hconn
      · exact h.removed c hc
    · cases hstep

theorem right_iff (h : s.Sound name addr) (hstep : s.step name addr a = some s') :
    Right name addr s a s' ↔ s.inRange a = true := by
  refine ⟨fun hright => ?_, fun hguard => h.right hguard hstep⟩
  cases a with
  | removeConnectionInLoop => rfl
  | newConnection =>
    by_contra hover
    have hmax : s.nextConnId = intMax := by simpa [inRange] using hover
    have hincrement := hright.increment rfl
    cases hstep
    dsimp only at hincrement
    rw [hmax] at hincrement
    exact absurd hincrement (by decide)

/-! ### The runs -/

/-- The calls of `newConnection` in a run. -/
def newConnections (as : List RegistryStep) : Nat := as.count .newConnection

theorem step_accepted (as : List RegistryStep) (hstep : s.step name addr a = some s') :
    s'.accepted.length + newConnections as = s.accepted.length + newConnections (a :: as) := by
  unfold newConnections
  rw [List.count_cons]
  cases a with
  | newConnection =>
    cases hstep
    simp only [List.length_append, List.length_singleton, beq_self_eq_true, if_true]
    omega
  | removeConnectionInLoop conn =>
    unfold Registry.step at hstep
    dsimp only at hstep
    split at hstep
    · cases hstep
      rfl
    · cases hstep

theorem restrict_iff {as : List RegistryStep} (h : s.Sound name addr)
    (hrun : (machine name addr).run s as = some s') :
    ((machine name addr).restrict fun s a => s.inRange a = true).run s as = some s' ↔
      s.accepted.length + newConnections as ≤ 2 ^ 31 - 2 := by
  induction as generalizing s with
  | nil =>
    have hbound := h.nextConnId ▸ h.bound
    refine iff_of_true hrun ?_
    change s.accepted.length + 0 ≤ _
    omega
  | cons a as ih =>
    rw [Machine.run_cons] at hrun
    obtain ⟨t, hstep, hrest⟩ := Option.bind_eq_some_iff.mp hrun
    rw [Machine.run_cons, Machine.restrict_step, ← step_accepted as hstep]
    by_cases hguard : s.inRange a = true
    · rw [if_pos hguard, hstep]
      exact ih (h.step hguard hstep) hrest
    · rw [if_neg hguard]
      refine iff_of_false (by simp) ?_
      cases a with
      | removeConnectionInLoop => exact absurd rfl hguard
      | newConnection =>
        have hmax : s.nextConnId = intMax := by simpa [inRange] using hguard
        have hid := h.nextConnId
        rw [hmax] at hid
        have hlast : s.accepted.length + 1 = 0x7fffffff := hid.symm
        cases hstep
        simp only [List.length_append, List.length_singleton]
        omega

theorem everyStep_right_iff {as : List RegistryStep} (h : s.Sound name addr)
    (hrun : (machine name addr).run s as = some s') :
    (machine name addr).EveryStep (Right name addr) s as ↔
      s.accepted.length + newConnections as ≤ 2 ^ 31 - 2 := by
  rw [← restrict_iff h hrun]
  apply Machine.everyStep_iff_restrict (I := Sound name addr) _ _ h hrun
  · exact fun t b t' ht hstep => right_iff ht hstep
  · exact fun t b t' ht hguard hstep => ht.step hguard hstep

/-- In a run of the registry, no increment overflows, no name is cut short or taken, and `connections_` is always the set of the connections that are not removed, if and only if there are at most 2^31 - 2 calls of `newConnection`. -/
theorem registry_right_iff (name : List Char) (addr : InetAddress) {as : List RegistryStep}
    {s' : Registry} (hrun : (machine name addr).run start as = some s') :
    (machine name addr).EveryStep (Right name addr) start as ↔
      newConnections as ≤ 2 ^ 31 - 2 := by
  rw [everyStep_right_iff (start_sound name addr) hrun]
  change 0 + newConnections as ≤ _ ↔ _
  rw [Nat.zero_add]

/-- Two connections, of which one is removed. -/
theorem registry_right_iff_two :
    ∃ s' : Registry,
      (machine ['s'] ⟨fun _ => 127, 8000⟩).run start
        [.newConnection, .newConnection, .removeConnectionInLoop 0] = some s' ∧
      ((machine ['s'] ⟨fun _ => 127, 8000⟩).EveryStep (Right ['s'] ⟨fun _ => 127, 8000⟩) start
          [.newConnection, .newConnection, .removeConnectionInLoop 0] ↔
        newConnections [.newConnection, .newConnection, .removeConnectionInLoop 0] ≤ 2 ^ 31 - 2) := by
  have hend : ((machine ['s'] ⟨fun _ => 127, 8000⟩).run start
      [.newConnection, .newConnection, .removeConnectionInLoop 0]).isSome = true := by decide +kernel
  obtain ⟨s', hrun⟩ := Option.isSome_iff_exists.mp hend
  exact ⟨s', hrun, registry_right_iff ['s'] ⟨fun _ => 127, 8000⟩ hrun⟩

theorem run_newConnections (name : List Char) (addr : InetAddress) (k : Nat) (s : Registry) :
    ∃ s', (machine name addr).run s (List.replicate k .newConnection) = some s' := by
  induction k generalizing s with
  | zero => exact ⟨s, rfl⟩
  | succ k ih =>
    rw [List.replicate_succ, Machine.run_cons]
    exact ih _

/-- The server has accepted 2^31 - 1 connections. -/
theorem connId_overflows :
    ¬ ∀ (name : List Char) (addr : InetAddress) (as : List RegistryStep) (s' : Registry),
      (machine name addr).run start as = some s' →
        (machine name addr).EveryStep (Right name addr) start as := by
  intro hclaim
  obtain ⟨s', hrun⟩ := run_newConnections [] ⟨fun _ => 127, 8000⟩ (2 ^ 31 - 1) start
  have hright := hclaim _ _ _ s' hrun
  rw [everyStep_right_iff (start_sound _ _) hrun, newConnections, List.count_replicate_self] at hright
  change 0 + (2 ^ 31 - 1) ≤ _ at hright
  omega

end Registry

end LTMuduo
