import LTMuduo.Buffer.Spec

/-!
# Buffers that carry their validity

A `ValidBuffer` cannot be out of order, so the operations on it are total: they are the functions of `Code.lean`, whose copies stay in bounds by the lemmas of `Spec.lean`. The connections own their two buffers at this type.
-/

namespace LTMuduo

/-- A buffer whose indices are in order. -/
def ValidBuffer := { b : Buffer // b.Valid }

namespace ValidBuffer

open Buffer

def new (initialSize : Nat) : ValidBuffer := ⟨Buffer.new initialSize, new_valid initialSize⟩

def content (b : ValidBuffer) : List Byte := b.1.content

def readableBytes (b : ValidBuffer) : Nat := b.1.readableBytes

theorem append_isSome (b : ValidBuffer) (data : List Byte) :
    (b.1.append data data.length).isSome := by
  obtain ⟨b', hcode, _⟩ := b.2.append (Nat.le_refl data.length)
  rw [hcode]
  rfl

theorem append_valid (b : ValidBuffer) (data : List Byte) :
    ((b.1.append data data.length).get (b.append_isSome data)).Valid := by
  obtain ⟨b', hcode, hvalid, _⟩ := b.2.append (Nat.le_refl data.length)
  simpa only [hcode, Option.get_some] using hvalid

/-- `append(data, len)`, where `data` is all of the memory the arguments name. -/
def append (b : ValidBuffer) (data : List Byte) : ValidBuffer :=
  ⟨(b.1.append data data.length).get (b.append_isSome data), b.append_valid data⟩

def retrieve (b : ValidBuffer) (len : Nat) : ValidBuffer := ⟨b.1.retrieve len, b.2.retrieve len⟩

theorem retrieveAllAsString_isSome (b : ValidBuffer) : b.1.retrieveAllAsString.isSome := by
  rw [b.2.retrieveAllAsString]
  rfl

theorem retrieveAllAsString_valid (b : ValidBuffer) :
    (b.1.retrieveAllAsString.get b.retrieveAllAsString_isSome).1.Valid := by
  simpa only [b.2.retrieveAllAsString, Option.get_some] using b.2.retrieve _

/-- The buffer after `retrieveAllAsString`, and the string. -/
def retrieveAllAsString (b : ValidBuffer) : ValidBuffer × List Byte :=
  let result := b.1.retrieveAllAsString.get b.retrieveAllAsString_isSome
  (⟨result.1, b.retrieveAllAsString_valid⟩, result.2)

/-- `readv` delivers no more than the iovecs hold. -/
def readv (b : ValidBuffer) : ReadvResult → ReadvResult
  | .delivered s => .delivered (s.take b.1.readvCapacity)
  | .failed errno => .failed errno

theorem readv_fits (b : ValidBuffer) (r : ReadvResult) :
    (deliveredBytes (b.readv r)).length ≤ b.1.readvCapacity := by
  cases r with
  | delivered s => exact List.length_take_le _ _
  | failed errno => exact Nat.zero_le _

theorem readFd_isSome (b : ValidBuffer) (r : ReadvResult) : (b.1.readFd (b.readv r)).isSome := by
  obtain ⟨b', hcode, _⟩ := b.2.readFd (b.readv_fits r)
  rw [hcode]
  rfl

theorem readFd_valid (b : ValidBuffer) (r : ReadvResult) :
    ((b.1.readFd (b.readv r)).get (b.readFd_isSome r)).1.Valid := by
  obtain ⟨b', hcode, hvalid, _⟩ := b.2.readFd (b.readv_fits r)
  simpa only [hcode, Option.get_some] using hvalid

/-- The buffer after `readFd` and its result. -/
def readFd (b : ValidBuffer) (r : ReadvResult) : ValidBuffer × Int :=
  let result := (b.1.readFd (b.readv r)).get (b.readFd_isSome r)
  (⟨result.1, b.readFd_valid r⟩, result.2.1)

theorem writeFd_isSome (b : ValidBuffer) (r : WriteResult) : (b.1.writeFd r).isSome := by
  obtain ⟨errno, hcode⟩ := b.2.writeFd r
  rw [hcode]
  rfl

/-- The result of `writeFd`, and the bytes the kernel took over. -/
def writeFd (b : ValidBuffer) (r : WriteResult) : Int × List Byte :=
  let result := (b.1.writeFd r).get (b.writeFd_isSome r)
  (result.1, result.2.2)

@[simp] theorem content_new (initialSize : Nat) : (new initialSize).content = [] :=
  Buffer.content_new initialSize

@[simp] theorem length_content (b : ValidBuffer) : b.content.length = b.readableBytes :=
  b.2.length_content

theorem readableBytes_eq_zero_iff (b : ValidBuffer) : b.readableBytes = 0 ↔ b.content = [] :=
  b.2.readableBytes_eq_zero_iff

@[simp] theorem content_append (b : ValidBuffer) (data : List Byte) :
    (b.append data).content = b.content ++ data := by
  obtain ⟨b', hcode, _, hcontent⟩ := b.2.append (Nat.le_refl data.length)
  simp only [append, content, hcode, Option.get_some, hcontent, List.take_length]

@[simp] theorem content_retrieve (b : ValidBuffer) (len : Nat) :
    (b.retrieve len).content = b.content.drop len := b.2.content_retrieve len

theorem retrieveAllAsString_eq (b : ValidBuffer) :
    b.retrieveAllAsString = (b.retrieve b.readableBytes, b.content) := by
  simp only [retrieveAllAsString, b.2.retrieveAllAsString, Option.get_some]
  rfl

/-- The bytes written by `writeFd` are the oldest ones, as many as the result says. -/
@[simp] theorem writeFd_eq (b : ValidBuffer) (r : WriteResult) :
    b.writeFd r = (r.returned b.content.length, r.taken b.content) := by
  obtain ⟨errno, hcode⟩ := b.2.writeFd r
  simp only [writeFd, content, hcode, Option.get_some]

theorem content_readFd (b : ValidBuffer) (r : ReadvResult) :
    (b.readFd r).1.content = b.content ++ deliveredBytes (b.readv r) := by
  obtain ⟨b', hcode, _, hcontent⟩ := b.2.readFd (b.readv_fits r)
  simp only [readFd, content, hcode, Option.get_some, hcontent]

theorem readFd_result (b : ValidBuffer) (r : ReadvResult) :
    (b.readFd r).2 = (readFdReturn (b.readv r)).1 := by
  obtain ⟨b', hcode, _⟩ := b.2.readFd (b.readv_fits r)
  simp only [readFd, hcode, Option.get_some]

end ValidBuffer

end LTMuduo
