import LTMuduo.TcpServer.Registry
import Mathlib.Data.List.TakeWhile

/-!
# `InetAddress`

The constructor from a port and a text, and the way back. `::inet_addr` takes the numbers-and-dots notation: one to four numbers, decimal, octal behind a `0` or hexadecimal behind a `0x`, of which the last one fills all the bytes that are left. A text it cannot read becomes `INADDR_NONE`, and so the constructor never fails.
-/

namespace LTMuduo

namespace InetAddress

/-- `isspace`. -/
def isSpace (c : Char) : Bool := c = ' ' ∨ c = '\t' ∨ c = '\n' ∨ c = '\x0b' ∨ c = '\x0c' ∨ c = '\r'

def hexDigit (c : Char) : Option Nat :=
  if c.isDigit then some (c.toNat - '0'.toNat)
  else if 'a' ≤ c ∧ c ≤ 'f' then some (c.toNat - 'a'.toNat + 10)
  else if 'A' ≤ c ∧ c ≤ 'F' then some (c.toNat - 'A'.toNat + 10)
  else none

/-- A number that is written in base `base`, with at least one digit. -/
def numberInBase (base : Nat) (text : List Char) : Option Nat :=
  let putDigit (n : Nat) (c : Char) : Option Nat :=
    (hexDigit c).bind fun d => if d < base then some (base * n + d) else none
  if text = [] then none else text.foldlM putDigit 0

/-- `strtoul` in base 0, on all of the text. -/
def number : List Char → Option Nat
  | '0' :: 'x' :: digits => numberInBase 16 digits
  | '0' :: 'X' :: digits => numberInBase 16 digits
  | '0' :: digits => numberInBase 8 ('0' :: digits)
  | text => numberInBase 10 text

/-- The parts of an address make its 32 bits: a byte each, and the last one the rest. -/
def word (parts : List Nat) : Option Nat :=
  match parts.reverse with
  | [] => none
  | last :: leading =>
    if leading.length ≤ 3 ∧ (∀ byte ∈ leading, byte < 256) ∧ last < 256 ^ (4 - leading.length) then
      some (last + 256 ^ (4 - leading.length) * leading.foldr (fun byte n => byte + 256 * n) 0)
    else none

/-- `::inet_addr`, with `none` for a text that it cannot read. The text ends where white space begins. -/
def inetAddr (cp : List Char) : Option Nat :=
  (((cp.takeWhile fun c => c ≠ '\x00' ∧ !isSpace c).splitOn '.').mapM number).bind word

def INADDR_NONE : Nat := 0xffffffff

/-- The constructor. -/
def new (port : UInt16 := 0) (ip : List Char := "127.0.0.1".toList) : InetAddress where
  octets i := UInt8.ofNat ((inetAddr ip).getD INADDR_NONE / 256 ^ (3 - i.val))
  port := port

def toPort (addr : InetAddress) : UInt16 := addr.port

variable {addr : InetAddress} {n : Nat} {text : List Char}

/-! ### Numbers -/

theorem numberInBase_digits (hne : text ≠ []) (hdigits : ∀ c ∈ text, c.isDigit = true) :
    numberInBase 10 text = some (Nat.ofDigitChars 10 text 0) := by
  have hfold (n : Nat) : text.foldlM (fun n c =>
      (hexDigit c).bind fun d => if d < 10 then some (10 * n + d) else none) n =
        some (Nat.ofDigitChars 10 text n) := by
    clear hne
    induction text generalizing n with
    | nil => rfl
    | cons c text ih =>
      have hc := hdigits c List.mem_cons_self
      have hsmall : c.toNat - '0'.toNat < 10 := by
        have hlast : c.toNat ≤ 57 := (Char.isDigit_iff_toNat.mp hc).2
        exact show c.toNat - 48 < 10 by omega
      rw [List.foldlM_cons, hexDigit, if_pos hc, Option.bind_some, if_pos hsmall,
        Nat.ofDigitChars_cons]
      exact ih (fun d hd => hdigits d (List.mem_cons_of_mem _ hd)) _
  unfold numberInBase
  rw [if_neg hne]
  exact hfold 0

theorem head_toDigits (hn : 0 < n) : (Nat.toDigits 10 n).head? ≠ some '0' := by
  induction n using Nat.base_induction 10 (by decide) with
  | single m hm =>
    have hdigit : ∀ m < 10, 0 < m → m.digitChar ≠ '0' := by decide
    rw [Nat.toDigits_of_lt_base hm]
    exact fun h => hdigit m hm hn (Option.some.inj h)
  | digit m k hk hm ih =>
    rw [← Nat.toDigits_append_toDigits (by decide) hm hk,
      List.head?_append_of_ne_nil _ Nat.toDigits_ne_nil]
    exact ih hm

theorem number_of_head (hhead : text.head? ≠ some '0') : number text = numberInBase 10 text := by
  unfold number
  split
  · exact absurd rfl hhead
  · exact absurd rfl hhead
  · exact absurd rfl hhead
  · rfl

theorem number_toDigits (n : Nat) : number (Nat.toDigits 10 n) = some n := by
  rcases Nat.eq_zero_or_pos n with rfl | hn
  · rfl
  · rw [number_of_head (head_toDigits hn), numberInBase_digits Nat.toDigits_ne_nil
      fun c hc => Nat.isDigit_of_mem_toDigits (by decide) (by decide) hc]
    rw [Nat.ofDigitChars_ten_toDigits]

/-! ### The text of an address -/

/-- The 32 bits of an address, in the order of the host. -/
def value (addr : InetAddress) : Nat :=
  (List.ofFn addr.octets).foldl (fun n byte => 256 * n + byte.toNat) 0

theorem value_eq (addr : InetAddress) :
    addr.value = 256 * (256 * (256 * (addr.octets 0).toNat + (addr.octets 1).toNat) +
      (addr.octets 2).toNat) + (addr.octets 3).toNat := by
  simp [value, List.ofFn_succ]

theorem toIp_eq (addr : InetAddress) :
    addr.toIp = ['.'].intercalate
      [Nat.toDigits 10 (addr.octets 0).toNat, Nat.toDigits 10 (addr.octets 1).toNat,
        Nat.toDigits 10 (addr.octets 2).toNat, Nat.toDigits 10 (addr.octets 3).toNat] := by
  simp [toIp, List.intercalate, List.intersperse]

theorem not_mem_toDigits {c : Char} (hc : c.isDigit = false) (n : Nat) : c ∉ Nat.toDigits 10 n := by
  intro h
  have hdigit := Nat.isDigit_of_mem_toDigits (by decide) (by decide) h
  rw [hc] at hdigit
  exact Bool.false_ne_true hdigit

theorem mem_toIp {c : Char} (hc : c ∈ addr.toIp) : c.isDigit = true ∨ c = '.' := by
  have hdigits (n : Nat) (h : c ∈ Nat.toDigits 10 n) : c.isDigit = true :=
    Nat.isDigit_of_mem_toDigits (by decide) (by decide) h
  unfold toIp at hc
  simp only [List.mem_append, List.mem_cons] at hc
  rcases hc with ((h | h | h) | h | h) | h | h
  · exact Or.inl (hdigits _ h)
  · exact Or.inr h
  · exact Or.inl (hdigits _ h)
  · exact Or.inr h
  · exact Or.inl (hdigits _ h)
  · exact Or.inr h
  · exact Or.inl (hdigits _ h)

theorem takeWhile_toIp (addr : InetAddress) :
    (addr.toIp.takeWhile fun c => c ≠ '\x00' ∧ !isSpace c) = addr.toIp := by
  rw [List.takeWhile_eq_self_iff]
  intro c hc
  have hother (d : Char) (hd : d.isDigit = false) (hdot : d ≠ '.') : c ≠ d := by
    rintro rfl
    rcases mem_toIp hc with h | h
    · rw [hd] at h
      exact Bool.false_ne_true h
    · exact hdot h
  have hspace : isSpace c = false := by
    simp only [isSpace, hother ' ' rfl (by decide), hother '\t' rfl (by decide),
      hother '\n' rfl (by decide), hother '\x0b' rfl (by decide), hother '\x0c' rfl (by decide),
      hother '\r' rfl (by decide), or_self, decide_false]
  rw [hspace]
  exact decide_eq_true ⟨hother '\x00' rfl (by decide), rfl⟩

theorem inetAddr_toIp (addr : InetAddress) : inetAddr addr.toIp = some addr.value := by
  have h0 := (addr.octets 0).toNat_lt
  have h1 := (addr.octets 1).toNat_lt
  have h2 := (addr.octets 2).toNat_lt
  have h3 := (addr.octets 3).toNat_lt
  have hparts : (addr.toIp.splitOn '.') =
      [Nat.toDigits 10 (addr.octets 0).toNat, Nat.toDigits 10 (addr.octets 1).toNat,
        Nat.toDigits 10 (addr.octets 2).toNat, Nat.toDigits 10 (addr.octets 3).toNat] := by
    rw [toIp_eq]
    refine List.splitOn_intercalate '.' ?_ (List.cons_ne_nil _ _)
    intro part hpart
    simp only [List.mem_cons, List.not_mem_nil, or_false] at hpart
    rcases hpart with rfl | rfl | rfl | rfl <;> exact not_mem_toDigits rfl _
  rw [inetAddr, takeWhile_toIp, hparts]
  simp only [List.mapM_cons, List.mapM_nil, number_toDigits, Option.pure_def, Option.bind_eq_bind,
    Option.bind_some]
  have hbytes : ∀ byte ∈ [(addr.octets 2).toNat, (addr.octets 1).toNat, (addr.octets 0).toNat],
      byte < 256 := by
    intro byte hbyte
    simp only [List.mem_cons, List.not_mem_nil, or_false] at hbyte
    rcases hbyte with rfl | rfl | rfl
    · exact h2
    · exact h1
    · exact h0
  refine (if_pos ⟨Nat.le_refl 3, hbytes, h3⟩).trans (congrArg some ?_)
  simp only [List.foldr_cons, List.foldr_nil, List.length_cons, List.length_nil, value_eq]
  omega

theorem octets_new (port : UInt16) (ip : List Char) (i : Fin 4) :
    ((new port ip).octets i).toNat = (inetAddr ip).getD INADDR_NONE / 256 ^ (3 - i.val) % 256 :=
  UInt8.toNat_ofNat'

theorem foldr_lt (leading : List Nat) (hbytes : ∀ byte ∈ leading, byte < 256) :
    leading.foldr (fun byte n => byte + 256 * n) 0 < 256 ^ leading.length := by
  induction leading with
  | nil => exact Nat.one_pos
  | cons byte leading ih =>
    have hbyte := hbytes byte List.mem_cons_self
    have hrest := ih fun b hb => hbytes b (List.mem_cons_of_mem _ hb)
    rw [List.foldr_cons, List.length_cons, Nat.pow_succ]
    omega

theorem word_lt {parts : List Nat} {w : Nat} (h : word parts = some w) : w < 256 ^ 4 := by
  unfold word at h
  split at h
  · cases h
  · rename_i last leading _
    obtain ⟨⟨hlength, hbytes, hlast⟩, hw⟩ := Option.ite_none_right_eq_some.mp h
    have hleading := foldr_lt leading hbytes
    cases hw
    calc last + 256 ^ (4 - leading.length) * leading.foldr (fun byte n => byte + 256 * n) 0
        < 256 ^ (4 - leading.length) * (leading.foldr (fun byte n => byte + 256 * n) 0 + 1) := by
          rw [Nat.mul_succ]
          omega
      _ ≤ 256 ^ (4 - leading.length) * 256 ^ leading.length := Nat.mul_le_mul_left _ hleading
      _ = 256 ^ 4 := by rw [← Nat.pow_add, Nat.sub_add_cancel (by omega)]

theorem value_new (port : UInt16) (ip : List Char) :
    (new port ip).value = (inetAddr ip).getD INADDR_NONE := by
  have hbound : (inetAddr ip).getD INADDR_NONE < 256 ^ 4 := by
    cases hcode : inetAddr ip with
    | none => exact show INADDR_NONE < 256 ^ 4 by decide
    | some w =>
      obtain ⟨parts, _, hword⟩ := Option.bind_eq_some_iff.mp hcode
      exact word_lt hword
  have h0 := octets_new port ip 0
  have h1 := octets_new port ip 1
  have h2 := octets_new port ip 2
  have h3 := octets_new port ip 3
  set v := (inetAddr ip).getD INADDR_NONE
  change _ = v / 16777216 % 256 at h0
  change _ = v / 65536 % 256 at h1
  change _ = v / 256 % 256 at h2
  change _ = v / 1 % 256 at h3
  rw [value_eq]
  omega

theorem octets_of_value (addr : InetAddress) (i : Fin 4) :
    addr.value / 256 ^ (3 - i.val) % 256 = (addr.octets i).toNat := by
  have h0 := (addr.octets 0).toNat_lt
  have h1 := (addr.octets 1).toNat_lt
  have h2 := (addr.octets 2).toNat_lt
  have h3 := (addr.octets 3).toNat_lt
  rw [value_eq]
  rcases i with ⟨_ | _ | _ | _ | i, hi⟩
  · change _ / 16777216 % 256 = (addr.octets 0).toNat
    omega
  · change _ / 65536 % 256 = (addr.octets 1).toNat
    omega
  · change _ / 256 % 256 = (addr.octets 2).toNat
    omega
  · change _ / 1 % 256 = (addr.octets 3).toNat
    omega
  · omega

theorem value_inj {addr' : InetAddress} (h : addr.value = addr'.value) :
    addr.octets = addr'.octets := by
  funext i
  apply UInt8.toNat_inj.mp
  rw [← octets_of_value, ← octets_of_value, h]

theorem new_toIp (addr : InetAddress) : new addr.toPort addr.toIp = addr := by
  have hvalue : (new addr.toPort addr.toIp).value = addr.value := by
    rw [value_new, inetAddr_toIp]
    rfl
  have hoctets := value_inj hvalue
  unfold new at hoctets ⊢
  dsimp only at hoctets
  rw [hoctets]
  rfl

theorem splitOn_toIpPort (addr : InetAddress) :
    addr.toIpPort.splitOn ':' = [addr.toIp, Nat.toDigits 10 addr.port.toNat] := by
  have hjoined : addr.toIpPort = [':'].intercalate [addr.toIp, Nat.toDigits 10 addr.port.toNat] := by
    simp [toIpPort, List.intercalate, List.intersperse]
  rw [hjoined]
  refine List.splitOn_intercalate ':' ?_ (List.cons_ne_nil _ _)
  intro part hpart
  simp only [List.mem_cons, List.not_mem_nil, or_false] at hpart
  rcases hpart with rfl | rfl
  · intro hcolon
    rcases mem_toIp hcolon with h | h
    · exact absurd h (by decide)
    · exact absurd h (by decide)
  · exact not_mem_toDigits rfl _

/-- The constructor gives back the address that was printed, and what it makes of a text in any notation prints as the same 32 bits, those of `INADDR_NONE` when there is nothing to read. No two addresses print alike. -/
theorem address_round_trip :
    (∀ addr : InetAddress, new addr.toPort addr.toIp = addr) ∧
      (∀ port ip, inetAddr (new port ip).toIp = some ((inetAddr ip).getD INADDR_NONE)) ∧
      Function.Injective toIpPort := by
  refine ⟨new_toIp, ?_, ?_⟩
  · intro port ip
    rw [inetAddr_toIp, value_new]
  · intro addr addr' h
    have hsplit := splitOn_toIpPort addr
    rw [h, splitOn_toIpPort] at hsplit
    obtain ⟨hip, hrest⟩ := List.cons.inj hsplit
    obtain ⟨hport, _⟩ := List.cons.inj hrest
    have hports := congrArg (Nat.ofDigitChars 10 · 0) hport
    simp only [Nat.ofDigitChars_ten_toDigits] at hports
    have hthere := new_toIp addr
    rw [← hip, toPort, ← UInt16.toNat_inj.mp hports] at hthere
    exact hthere.symm.trans (new_toIp addr')

example : inetAddr "0x7f.0.1 ".toList = some 0x7f000001 := by decide

end InetAddress

end LTMuduo
