import Mathlib.Data.List.Basic

/-!
# The system calls

What the kernel answers is an argument of the functions that ask: a `WriteResult` or a `ReadvResult` is one answer the kernel may give, and a statement for every result is a statement for every behaviour of the socket.
-/

namespace LTMuduo

abbrev Byte := UInt8

abbrev Fd := Nat

/-- The values of `errno` the code tells apart. -/
inductive Errno
  | EWOULDBLOCK
  | EPIPE
  | ECONNRESET
  | other (code : Nat)
  deriving DecidableEq

/-- An answer to `::write`. After a failure `errno` is what `::write` has left in `errno`, and `logged` what stands there once the failure has been logged: `LOG_ERROR` asks for the local time and writes to standard output, and both may change it. -/
inductive WriteResult
  | accepted (n : Nat)
  | failed (errno logged : Errno)
  deriving DecidableEq

namespace WriteResult

/-- The value returned for a request of `len` bytes. The kernel never accepts more than it was handed. -/
def returned (r : WriteResult) (len : Nat) : Int :=
  match r with
  | .accepted n => (min n len : Nat)
  | .failed _ _ => -1

/-- The bytes of the request that the kernel took over. -/
def taken (r : WriteResult) (data : List Byte) : List Byte :=
  match r with
  | .accepted n => data.take n
  | .failed _ _ => []

theorem length_taken (n : Nat) (data : List Byte) :
    ((WriteResult.accepted n).taken data).length = min n data.length := List.length_take

theorem taken_append_drop (r : WriteResult) (data : List Byte) :
    r.taken data ++ data.drop (r.taken data).length = data := by
  cases r with
  | accepted n =>
    rw [length_taken, taken]
    rcases Nat.le_total n data.length with hn | hn
    · rw [Nat.min_eq_left hn, List.take_append_drop]
    · rw [Nat.min_eq_right hn, List.take_of_length_le hn, List.drop_length, List.append_nil]
  | failed errno logged => rfl

theorem returned_toNat (r : WriteResult) (data : List Byte) :
    (r.returned data.length).toNat = (r.taken data).length := by
  cases r with
  | accepted n => rw [length_taken, returned, Int.toNat_natCast]
  | failed errno logged => rfl

/-- Not an error other than `EWOULDBLOCK`. -/
def isHealthy : WriteResult → Bool
  | .accepted _ => true
  | .failed errno _ => errno = .EWOULDBLOCK

/-- `::write` has failed with `EPIPE` or `ECONNRESET`. -/
def Broken : WriteResult → Prop
  | .accepted _ => False
  | .failed errno _ => errno = .EPIPE ∨ errno = .ECONNRESET

instance decidableBroken : (r : WriteResult) → Decidable r.Broken
  | .accepted _ => .isFalse id
  | .failed _ _ => inferInstanceAs (Decidable (_ ∨ _))

/-- `EPIPE` or `ECONNRESET` stands in `errno` when it is looked at again behind the log line of the failure. -/
def Faults : WriteResult → Prop
  | .accepted _ => False
  | .failed errno logged => errno ≠ .EWOULDBLOCK ∧ (logged = .EPIPE ∨ logged = .ECONNRESET)

instance decidableFaults : (r : WriteResult) → Decidable r.Faults
  | .accepted _ => .isFalse id
  | .failed _ _ => inferInstanceAs (Decidable (_ ∧ _))

theorem not_faults_of_isHealthy {r : WriteResult} (h : r.isHealthy = true) : ¬ r.Faults := by
  cases r with
  | accepted n => exact id
  | failed errno logged => exact fun hfaults => hfaults.1 (of_decide_eq_true h)

/-- The log line of a failure neither hides `EPIPE` or `ECONNRESET` nor leaves one of them behind. -/
def KeepsErrno : WriteResult → Prop
  | .accepted _ => True
  | .failed errno logged => errno ≠ .EWOULDBLOCK →
      ((logged = .EPIPE ∨ logged = .ECONNRESET) ↔ (errno = .EPIPE ∨ errno = .ECONNRESET))

instance decidableKeepsErrno : (r : WriteResult) → Decidable r.KeepsErrno
  | .accepted _ => .isTrue trivial
  | .failed _ _ => inferInstanceAs (Decidable (_ → _))

theorem keepsErrno_iff (r : WriteResult) : r.KeepsErrno ↔ (r.Faults ↔ r.Broken) := by
  cases r with
  | accepted n => simp [KeepsErrno, Faults, Broken]
  | failed errno logged =>
    by_cases hblock : errno = .EWOULDBLOCK
    · simp [KeepsErrno, Faults, Broken, hblock]
    · simp [KeepsErrno, Faults, Broken, hblock]

theorem Faults.taken {r : WriteResult} (h : r.Faults) (data : List Byte) : r.taken data = [] := by
  cases r with
  | accepted n => exact h.elim
  | failed errno logged => rfl

end WriteResult

/-- An answer to `::readv`: the bytes it delivered, or the value of `errno`. -/
inductive ReadvResult
  | delivered (s : List Byte)
  | failed (errno : Errno)
  deriving DecidableEq

end LTMuduo
