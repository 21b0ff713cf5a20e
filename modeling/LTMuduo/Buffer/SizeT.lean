import LTMuduo.Buffer.Queue
import LTMuduo.Lib.Word

/-!
# The buffer in words of 64 bits

The functions of `Buffer.h` and `Buffer.cc` once more, with every sum and difference taken modulo `2 ^ 64`. `std::vector::resize` throws `std::length_error` above `maxSize`, which is its `max_size()`, and leaves the vector alone; so does the constructor. `none` is an access outside of the memory a function works on, as in `Code.lean`.

No sum of sizes is checked in the code. The constructor can wrap `kCheapPrepend + initialSize`, and `makeSpace` can wrap either side of its test and the new size.
-/

namespace LTMuduo.Buffer.SizeT

open Block

/-- How a call ends: the buffer, and the result unless an exception has left the call. -/
structure Exit (α : Type*) where
  buffer : Buffer
  result : Option α
  deriving DecidableEq

/-- The constructor. -/
def new (maxSize initialSize : Nat) : Option Buffer :=
  let size := Word.add 64 kCheapPrepend initialSize
  if size ≤ maxSize then
    some
      { buffer := List.replicate size 0
        readerIndex := kCheapPrepend
        writerIndex := kCheapPrepend }
  else none

variable (maxSize : Nat) (b : Buffer)

def readableBytes : Nat := Word.sub 64 b.writerIndex b.readerIndex

def writableBytes : Nat := Word.sub 64 b.buffer.length b.writerIndex

def retrieve (len : Nat) : Buffer :=
  if len < readableBytes b then { b with readerIndex := Word.add 64 b.readerIndex len }
  else b.retrieveAll

def retrieveAsString (len : Nat) : Option (Exit (List Byte)) :=
  (readBlock b.buffer b.readerIndex len).map fun result => ⟨retrieve b len, some result⟩

def retrieveAllAsString : Option (Exit (List Byte)) := retrieveAsString b (readableBytes b)

/-- `buffer_.resize(n)`. -/
def resizeBuffer (n : Nat) : Exit Unit :=
  if n ≤ maxSize then ⟨{ b with buffer := resize b.buffer n 0 }, some ()⟩ else ⟨b, none⟩

def makeSpace (len : Nat) : Option (Exit Unit) :=
  if Word.add 64 (writableBytes b) b.prependableBytes < Word.add 64 len kCheapPrepend then
    some (resizeBuffer maxSize b (Word.add 64 b.writerIndex len))
  else
    let readable := readableBytes b
    (copyBlock b.buffer b.readerIndex b.writerIndex kCheapPrepend).map fun buffer =>
      ⟨{ buffer
         readerIndex := kCheapPrepend
         writerIndex := Word.add 64 kCheapPrepend readable }, some ()⟩

def ensureWritableBytes (len : Nat) : Option (Exit Unit) :=
  if writableBytes b < len then makeSpace maxSize b len else some ⟨b, some ()⟩

/-- The rest of `append`, behind `ensureWritableBytes`. -/
def copyIn (data : List Byte) (len : Nat) : Option Buffer := do
  let bytes ← readBlock data 0 len
  let buffer ← writeBlock b.buffer b.writerIndex bytes
  return { b with buffer, writerIndex := Word.add 64 b.writerIndex len }

def append (data : List Byte) (len : Nat) : Option (Exit Unit) :=
  (ensureWritableBytes maxSize b len).bind fun e =>
    match e.result with
    | none => some e
    | some () => (copyIn e.buffer data len).map fun b' => ⟨b', some ()⟩

def readvCapacity : Nat :=
  if writableBytes b < extrabufSize then writableBytes b + extrabufSize else writableBytes b

def readFd (r : ReadvResult) : Option (Exit (Int × Option Errno)) :=
  let extrabuf : List Byte := List.replicate extrabufSize 0
  let writable := writableBytes b
  let iovcnt := if writable < extrabufSize then 2 else 1
  match r with
  | .failed errno => some ⟨b, some (-1, some errno)⟩
  | .delivered s => do
    let buffer ← writeBlock b.buffer b.writerIndex (s.take writable)
    let extrabuf ← writeBlock (if iovcnt = 2 then extrabuf else []) 0 (s.drop writable)
    let n := s.length
    if n ≤ writable then
      return ⟨{ b with buffer, writerIndex := Word.add 64 b.writerIndex n }, some ((n : Int), none)⟩
    else
      let full := { b with buffer, writerIndex := buffer.length }
      let e ← append maxSize full extrabuf (Word.sub 64 n writable)
      return ⟨e.buffer, e.result.map fun _ => ((n : Int), none)⟩

/-- The buffer that a call leaves, by its return or by an exception. -/
def exec : Call → Option Buffer
  | .append data len => (append maxSize b data len).map Exit.buffer
  | .readFd r => (readFd maxSize b r).map Exit.buffer
  | .retrieve len => some (retrieve b len)
  | .retrieveAll => some b.retrieveAll
  | .retrieveAllAsString => (retrieveAllAsString b).map Exit.buffer
  | .retrieveAsString len => (retrieveAsString b len).map Exit.buffer
  | .ensureWritableBytes len => (ensureWritableBytes maxSize b len).map Exit.buffer

/-- What the caller and the kernel owe: lengths that fit into a `size_t`, a pointer to `len` bytes, no more bytes than the iovecs hold. -/
def Owed : Call → Prop
  | .append data len => len ≤ data.length ∧ len < 2 ^ 64
  | .readFd r => (deliveredBytes r).length ≤ readvCapacity b
  | .retrieve len => len < 2 ^ 64
  | .retrieveAsString len => len < 2 ^ 64
  | .ensureWritableBytes len => len < 2 ^ 64
  | _ => True

instance : (call : Call) → Decidable (Owed b call)
  | .append data len => inferInstanceAs (Decidable (len ≤ data.length ∧ len < 2 ^ 64))
  | .readFd r => inferInstanceAs (Decidable ((deliveredBytes r).length ≤ readvCapacity b))
  | .retrieve len => inferInstanceAs (Decidable (len < 2 ^ 64))
  | .retrieveAsString len => inferInstanceAs (Decidable (len < 2 ^ 64))
  | .ensureWritableBytes len => inferInstanceAs (Decidable (len < 2 ^ 64))
  | .retrieveAll => inferInstanceAs (Decidable True)
  | .retrieveAllAsString => inferInstanceAs (Decidable True)

inductive SizeTStep
  | construct (initialSize : Nat)
  | call (call : Call)

/-- The life of a buffer, from its constructor on. -/
def machine : Machine (Option Buffer) SizeTStep where
  init s := s = none
  step
    | none, .construct initialSize =>
      if initialSize < 2 ^ 64 then (new maxSize initialSize).map some else none
    | some b, .call call => if Owed b call then (exec maxSize b call).map some else none
    | _, _ => none

/-- `ensureWritableBytes(len)` throws and changes nothing, or makes the room; the readable bytes are the same, and the indices are in order. -/
def Right (len : Nat) : Prop :=
  ∃ e, ensureWritableBytes maxSize b len = some e ∧ (e.result = none → e.buffer = b) ∧
    (e.result = some () → len ≤ writableBytes e.buffer) ∧ e.buffer.content = b.content ∧
    e.buffer.readerIndex ≤ e.buffer.writerIndex ∧ e.buffer.writerIndex ≤ e.buffer.buffer.length

/-- The size that `makeSpace` may ask for does not wrap, or it does not have to ask. -/
def SumFits (len : Nat) : Prop :=
  b.writerIndex + len < 2 ^ 64 ∨ len + kCheapPrepend ≤ b.writableBytes + b.prependableBytes

instance (len : Nat) : Decidable (SumFits b len) := inferInstanceAs (Decidable (_ ∨ _))

/-- No sum of the constructor or of a call of `ensureWritableBytes` wraps. -/
def sumsFit : Option Buffer → SizeTStep → Prop
  | _, .construct initialSize => kCheapPrepend + initialSize < 2 ^ 64
  | some b, .call (.ensureWritableBytes len) => SumFits b len
  | _, .call _ => True

/-! ### What the calls do -/

/-- The ways of `ensureWritableBytes(len)`. -/
inductive Ensures (len : Nat) : Exit Unit → Prop
  | room (hroom : len ≤ writableBytes b) : Ensures len ⟨b, some ()⟩
  | throws (hroom : writableBytes b < len) (hsize : maxSize < Word.add 64 b.writerIndex len) :
      Ensures len ⟨b, none⟩
  | grows (hroom : writableBytes b < len)
      (htotal : Word.add 64 (writableBytes b) b.prependableBytes < Word.add 64 len kCheapPrepend)
      (hsize : Word.add 64 b.writerIndex len ≤ maxSize) :
      Ensures len ⟨{ b with buffer := resize b.buffer (Word.add 64 b.writerIndex len) 0 }, some ()⟩
  | compacts (buffer : List Byte) (hroom : writableBytes b < len)
      (htotal : ¬ Word.add 64 (writableBytes b) b.prependableBytes < Word.add 64 len kCheapPrepend)
      (hcopy : copyBlock b.buffer b.readerIndex b.writerIndex kCheapPrepend = some buffer) :
      Ensures len ⟨{ buffer
                     readerIndex := kCheapPrepend
                     writerIndex := Word.add 64 kCheapPrepend (readableBytes b) }, some ()⟩

variable {maxSize b}

theorem ensureWritableBytes_ensures {len : Nat} {e : Exit Unit}
    (hcode : ensureWritableBytes maxSize b len = some e) : Ensures maxSize b len e := by
  unfold ensureWritableBytes at hcode
  split at hcode
  · rename_i hroom
    unfold makeSpace at hcode
    split at hcode
    · rename_i htotal
      cases hcode
      unfold resizeBuffer
      split
      · rename_i hsize
        exact .grows hroom htotal hsize
      · rename_i hsize
        exact .throws hroom (Nat.lt_of_not_le hsize)
    · rename_i htotal
      obtain ⟨buffer, hcopy, hset⟩ := Option.map_eq_some_iff.mp hcode
      cases hset
      exact .compacts buffer hroom htotal hcopy
  · rename_i hroom
    cases hcode
    exact .room (Nat.le_of_not_lt hroom)

/-- What holds of the vector and the indices after any calls, whether sums have wrapped or not. -/
structure InWord (maxSize : Nat) (b : Buffer) : Prop where
  size : b.buffer.length ≤ maxSize
  prepend : kCheapPrepend ≤ b.readerIndex
  order : b.readerIndex ≤ b.writerIndex
  word : b.writerIndex < 2 ^ 64

theorem InWord.valid (h : InWord maxSize b) (hbound : b.writerIndex ≤ b.buffer.length) : b.Valid :=
  ⟨h.prepend, h.order, hbound⟩

theorem InWord.readableBytes (h : InWord maxSize b) : readableBytes b = b.readableBytes :=
  Word.sub_of_le h.order h.word

theorem InWord.compacted (h : InWord maxSize b) :
    Word.add 64 kCheapPrepend (SizeT.readableBytes b) = kCheapPrepend + b.readableBytes := by
  have hprepend := h.prepend
  have horder := h.order
  have hword := h.word
  rw [h.readableBytes]
  apply Word.add_of_lt
  unfold Buffer.readableBytes
  omega

theorem Ensures.inWord {len : Nat} {e : Exit Unit} (h : InWord maxSize b)
    (hensures : Ensures maxSize b len e) : InWord maxSize e.buffer := by
  have hprepend := h.prepend
  have horder := h.order
  have hword := h.word
  cases hensures with
  | room => exact h
  | throws => exact h
  | grows _ _ hsize =>
    refine ⟨?_, hprepend, horder, hword⟩
    dsimp only
    rw [length_resize]
    exact hsize
  | compacts buffer _ _ hcopy =>
    refine ⟨?_, Nat.le_refl _, ?_, ?_⟩
    · dsimp only
      rw [length_of_copyBlock hcopy]
      exact h.size
    · dsimp only
      rw [h.compacted]
      exact Nat.le_add_right _ _
    · exact Word.add_lt _ _ _

section

variable {b' : Buffer} (hmax : maxSize < 2 ^ 64)

include hmax

/-- Bytes that are written lie in the vector, so `writerIndex_` does not wrap behind them. -/
theorem InWord.write (h : InWord maxSize b) {data buffer : List Byte} {len : Nat}
    (hlen : len = data.length) (hwrite : writeBlock b.buffer b.writerIndex data = some buffer) :
    let b' : Buffer := { b with buffer, writerIndex := Word.add 64 b.writerIndex len }
    InWord maxSize b' ∧ b'.writerIndex ≤ b'.buffer.length := by
  have hbound := writeBlock_bound hwrite
  have hlength := length_of_writeBlock hwrite
  have hsize := h.size
  have horder := h.order
  have hsum : Word.add 64 b.writerIndex len = b.writerIndex + len := by
    apply Word.add_of_lt
    omega
  dsimp only
  rw [hsum]
  refine ⟨⟨?_, h.prepend, ?_, ?_⟩, ?_⟩
  · exact Nat.le_trans (Nat.le_of_eq hlength) hsize
  · exact Nat.le_trans horder (Nat.le_add_right _ _)
  · dsimp only
    omega
  · omega

theorem InWord.copyIn (h : InWord maxSize b) {data : List Byte} {len : Nat}
    (hcode : copyIn b data len = some b') : InWord maxSize b' ∧ b'.writerIndex ≤ b'.buffer.length := by
  unfold SizeT.copyIn at hcode
  obtain ⟨bytes, hread, hcode⟩ := Option.bind_eq_some_iff.mp hcode
  obtain ⟨buffer, hwrite, hset⟩ := Option.bind_eq_some_iff.mp hcode
  cases hset
  exact h.write hmax (length_of_readBlock hread).symm hwrite

theorem InWord.append (h : InWord maxSize b) {data : List Byte} {len : Nat} {e : Exit Unit}
    (hcode : append maxSize b data len = some e) :
    InWord maxSize e.buffer ∧
      (b.writerIndex ≤ b.buffer.length → e.buffer.writerIndex ≤ e.buffer.buffer.length) := by
  unfold SizeT.append at hcode
  obtain ⟨e₁, hensure, hcode⟩ := Option.bind_eq_some_iff.mp hcode
  have hensures := ensureWritableBytes_ensures hensure
  have h₁ := hensures.inWord h
  split at hcode
  · rename_i hthrew
    cases hcode
    refine ⟨h₁, fun hbound => ?_⟩
    cases hensures with
    | throws => exact hbound
    | _ => cases hthrew
  · obtain ⟨b', hcopy, hset⟩ := Option.map_eq_some_iff.mp hcode
    cases hset
    obtain ⟨hword, hbound⟩ := h₁.copyIn hmax hcopy
    exact ⟨hword, fun _ => hbound⟩

theorem InWord.readFd (h : InWord maxSize b) {r : ReadvResult} {e : Exit (Int × Option Errno)}
    (hcode : readFd maxSize b r = some e) :
    InWord maxSize e.buffer ∧
      (b.writerIndex ≤ b.buffer.length → e.buffer.writerIndex ≤ e.buffer.buffer.length) := by
  cases r with
  | failed errno =>
    cases hcode
    exact ⟨h, id⟩
  | delivered s =>
    unfold SizeT.readFd at hcode
    obtain ⟨buffer, hwrite, hcode⟩ := Option.bind_eq_some_iff.mp hcode
    obtain ⟨extrabuf, _, hcode⟩ := Option.bind_eq_some_iff.mp hcode
    dsimp only at hcode
    split at hcode
    · rename_i hroom
      cases hcode
      have hall : s.length = (s.take (writableBytes b)).length := by
        rw [List.take_of_length_le hroom]
      obtain ⟨hword, hbound⟩ := h.write hmax hall hwrite
      exact ⟨hword, fun _ => hbound⟩
    · obtain ⟨e₁, happend, hset⟩ := Option.bind_eq_some_iff.mp hcode
      cases hset
      have hlength := length_of_writeBlock hwrite
      have hwritten := writeBlock_bound hwrite
      have hsize := h.size
      have horder := h.order
      have hfull : InWord maxSize { b with buffer, writerIndex := buffer.length } := by
        refine ⟨Nat.le_trans (Nat.le_of_eq hlength) hsize, h.prepend, ?_, ?_⟩
        · dsimp only
          omega
        · dsimp only
          omega
      obtain ⟨hword, hbound⟩ := hfull.append hmax happend
      exact ⟨hword, fun _ => hbound (Nat.le_refl _)⟩

end

theorem InWord.retrieveAll (h : InWord maxSize b) :
    InWord maxSize b.retrieveAll ∧
      (b.writerIndex ≤ b.buffer.length → b.retrieveAll.writerIndex ≤ b.retrieveAll.buffer.length) := by
  have hfirst : kCheapPrepend ≤ b.writerIndex := Nat.le_trans h.prepend h.order
  refine ⟨⟨h.size, Nat.le_refl _, Nat.le_refl _, ?_⟩, fun hbound => ?_⟩
  · exact Nat.lt_of_le_of_lt hfirst h.word
  · exact Nat.le_trans hfirst hbound

theorem InWord.retrieve (h : InWord maxSize b) (len : Nat) :
    InWord maxSize (retrieve b len) ∧
      (b.writerIndex ≤ b.buffer.length →
        (retrieve b len).writerIndex ≤ (retrieve b len).buffer.length) := by
  have hprepend := h.prepend
  have horder := h.order
  have hword := h.word
  unfold SizeT.retrieve
  split
  · rename_i hlt
    rw [h.readableBytes] at hlt
    unfold Buffer.readableBytes at hlt
    have hsum : Word.add 64 b.readerIndex len = b.readerIndex + len := by
      apply Word.add_of_lt
      omega
    refine ⟨⟨h.size, ?_, ?_, hword⟩, id⟩
    · dsimp only
      omega
    · dsimp only
      omega
  · exact h.retrieveAll

/-! ### `ensureWritableBytes` -/

section

variable (hmax : maxSize < 2 ^ 64) {len : Nat}

include hmax

theorem InWord.writableBytes (h : InWord maxSize b) (hbound : b.writerIndex ≤ b.buffer.length) :
    writableBytes b = b.writableBytes :=
  Word.sub_of_le hbound (Nat.lt_of_le_of_lt h.size hmax)

theorem InWord.total (h : InWord maxSize b) (hbound : b.writerIndex ≤ b.buffer.length) :
    Word.add 64 (SizeT.writableBytes b) b.prependableBytes =
      b.writableBytes + b.prependableBytes := by
  have horder := h.order
  have hsize := h.size
  rw [h.writableBytes hmax hbound]
  apply Word.add_of_lt
  unfold Buffer.writableBytes prependableBytes
  omega

/-- Where its sums fit, `ensureWritableBytes` is the one of `Code.lean`, or it throws. -/
theorem InWord.ensureWritableBytes_eq (h : InWord maxSize b)
    (hbound : b.writerIndex ≤ b.buffer.length) (hfits : SumFits b len) :
    ∃ b', b.ensureWritableBytes len = some b' ∧
      ensureWritableBytes maxSize b len =
        some (if b'.buffer.length ≤ maxSize then ⟨b', some ()⟩ else ⟨b, none⟩) := by
  have hprepend := h.prepend
  have horder := h.order
  have hsize := h.size
  obtain ⟨b', hcode, _⟩ := (h.valid hbound).ensureWritableBytes len
  refine ⟨b', hcode, ?_⟩
  unfold Buffer.ensureWritableBytes at hcode
  unfold ensureWritableBytes
  rw [h.writableBytes hmax hbound]
  split
  · rename_i hroom
    rw [if_pos hroom] at hcode
    have hlen : Word.add 64 len kCheapPrepend = len + kCheapPrepend := by
      apply Word.add_of_lt
      unfold SumFits Buffer.writableBytes prependableBytes at hfits
      omega
    unfold Buffer.makeSpace at hcode
    unfold makeSpace
    rw [h.total hmax hbound, hlen]
    split
    · rename_i htotal
      rw [if_pos htotal] at hcode
      cases hcode
      have hsum : Word.add 64 b.writerIndex len = b.writerIndex + len := by
        apply Word.add_of_lt
        exact hfits.resolve_right (Nat.not_le_of_lt htotal)
      rw [hsum, resizeBuffer]
      dsimp only
      rw [length_resize]
    · rename_i htotal
      rw [if_neg htotal] at hcode
      obtain ⟨buffer, hcopy, hset⟩ := Option.map_eq_some_iff.mp hcode
      cases hset
      dsimp only
      rw [hcopy, h.compacted, length_of_copyBlock hcopy, if_pos hsize]
      rfl
  · rename_i hroom
    rw [if_neg hroom] at hcode
    cases hcode
    rw [if_pos hsize]

theorem InWord.right (h : InWord maxSize b) (hbound : b.writerIndex ≤ b.buffer.length)
    (hfits : SumFits b len) : Right maxSize b len := by
  have hvalid := h.valid hbound
  obtain ⟨b', hcode, hword⟩ := h.ensureWritableBytes_eq hmax hbound hfits
  obtain ⟨b₁, hcode₁, hvalid', hcontent, hroom⟩ := hvalid.ensureWritableBytes len
  rw [hcode] at hcode₁
  cases hcode₁
  refine ⟨_, hword, ?_⟩
  split
  · rename_i hsize
    refine ⟨nofun, fun _ => ?_, hcontent, hvalid'.order, hvalid'.bound⟩
    dsimp only
    rw [SizeT.writableBytes, Word.sub_of_le hvalid'.bound (Nat.lt_of_le_of_lt hsize hmax)]
    exact hroom
  · exact ⟨fun _ => rfl, nofun, rfl, hvalid.order, hvalid.bound⟩

/-- With the readable bytes not in the vector, the room behind `writerIndex_` has wrapped. -/
theorem InWord.inside_of_right (h : InWord maxSize b) (hlen : len < 2 ^ 64)
    (hright : Right maxSize b len) : b.writerIndex ≤ b.buffer.length := by
  have hprepend := h.prepend
  have horder := h.order
  have hword := h.word
  have hsize := h.size
  obtain ⟨e, hcode, _, hmade, _, _, hbehind⟩ := hright
  by_contra hout
  have hroom : SizeT.writableBytes b = b.buffer.length + 2 ^ 64 - b.writerIndex :=
    Word.sub_of_lt (Nat.lt_of_not_le hout) hword
  cases ensureWritableBytes_ensures hcode with
  | room => exact hout hbehind
  | throws => exact hout hbehind
  | grows hneed _ _ =>
    have hwraps : Word.add 64 b.writerIndex len = b.writerIndex + len - 2 ^ 64 := by
      apply Word.add_of_le hword hlen
      omega
    dsimp only at hbehind
    rw [length_resize, hwraps] at hbehind
    omega
  | compacts buffer hneed _ hcopy =>
    have hlength := length_of_copyBlock hcopy
    have hafter := hmade rfl
    dsimp only at hbehind hafter
    rw [SizeT.writableBytes, Word.sub_of_le hbehind (by omega)] at hafter
    omega

/-- A sum that wraps asks for a vector that ends before `writerIndex_`, or for nothing at all. -/
theorem InWord.fits_of_right (h : InWord maxSize b) (hlen : len < 2 ^ 64)
    (hinside : b.writerIndex ≤ b.buffer.length) (hright : Right maxSize b len) :
    SumFits b len := by
  have hword := h.word
  have hsize := h.size
  obtain ⟨e, hcode, _, hmade, _, _, hbehind⟩ := hright
  by_contra hwraps
  obtain ⟨hsum, htotal⟩ := not_or.mp hwraps
  have hsum : Word.add 64 b.writerIndex len = b.writerIndex + len - 2 ^ 64 :=
    Word.add_of_le hword hlen (Nat.le_of_not_lt hsum)
  have hroom := h.writableBytes hmax hinside
  have hadd := h.total hmax hinside
  cases ensureWritableBytes_ensures hcode with
  | room hneed =>
    rw [hroom] at hneed
    unfold Buffer.writableBytes at hneed
    omega
  | throws _ hlarge =>
    rw [hsum] at hlarge
    omega
  | grows _ _ _ =>
    dsimp only at hbehind
    rw [length_resize, hsum] at hbehind
    omega
  | compacts buffer _ hless hcopy =>
    have hlength := length_of_copyBlock hcopy
    have hafter := hmade rfl
    dsimp only at hbehind hafter
    rw [SizeT.writableBytes, Word.sub_of_le hbehind (by omega), h.compacted] at hafter
    -- `len + kCheapPrepend` must have wrapped, and the vector is shorter than that
    have hprependWraps : 2 ^ 64 ≤ len + kCheapPrepend := by
      by_contra hfits
      rw [hadd, Word.add_of_lt (Nat.lt_of_not_le hfits)] at hless
      exact htotal (Nat.le_of_not_lt hless)
    omega

theorem InWord.right_iff (h : InWord maxSize b) (hlen : len < 2 ^ 64) :
    Right maxSize b len ↔ b.writerIndex ≤ b.buffer.length ∧ SumFits b len :=
  ⟨fun hright =>
      have hinside := h.inside_of_right hmax hlen hright
      ⟨hinside, h.fits_of_right hmax hlen hinside hright⟩,
    fun hfits => h.right hmax hfits.1 hfits.2⟩

/-! ### Runs -/

/-- A call keeps the indices in words, and in the vector if they were and no sum of it wraps. -/
theorem InWord.exec (h : InWord maxSize b) {call : Call} {b' : Buffer}
    (hcode : exec maxSize b call = some b') :
    InWord maxSize b' ∧ (b.writerIndex ≤ b.buffer.length → sumsFit (some b) (.call call) →
      b'.writerIndex ≤ b'.buffer.length) := by
  cases call with
  | append data len =>
    obtain ⟨e, happend, hset⟩ := Option.map_eq_some_iff.mp hcode
    cases hset
    obtain ⟨hword, hbound⟩ := h.append hmax happend
    exact ⟨hword, fun hbefore _ => hbound hbefore⟩
  | readFd r =>
    obtain ⟨e, hread, hset⟩ := Option.map_eq_some_iff.mp hcode
    cases hset
    obtain ⟨hword, hbound⟩ := h.readFd hmax hread
    exact ⟨hword, fun hbefore _ => hbound hbefore⟩
  | retrieve len =>
    cases hcode
    exact ⟨(h.retrieve len).1, fun hbefore _ => (h.retrieve len).2 hbefore⟩
  | retrieveAll =>
    cases hcode
    exact ⟨h.retrieveAll.1, fun hbefore _ => h.retrieveAll.2 hbefore⟩
  | retrieveAllAsString =>
    obtain ⟨e, hstring, hset⟩ := Option.map_eq_some_iff.mp hcode
    obtain ⟨bytes, _, hresult⟩ := Option.map_eq_some_iff.mp hstring
    cases hresult
    cases hset
    exact ⟨(h.retrieve _).1, fun hbefore _ => (h.retrieve _).2 hbefore⟩
  | retrieveAsString len =>
    obtain ⟨e, hstring, hset⟩ := Option.map_eq_some_iff.mp hcode
    obtain ⟨bytes, _, hresult⟩ := Option.map_eq_some_iff.mp hstring
    cases hresult
    cases hset
    exact ⟨(h.retrieve len).1, fun hbefore _ => (h.retrieve len).2 hbefore⟩
  | ensureWritableBytes len =>
    obtain ⟨e, hensure, hset⟩ := Option.map_eq_some_iff.mp hcode
    cases hset
    refine ⟨(ensureWritableBytes_ensures hensure).inWord h, fun hbefore hfits => ?_⟩
    obtain ⟨e₁, hensure₁, _, _, _, _, hinside⟩ := h.right hmax hbefore hfits
    rw [hensure] at hensure₁
    cases hensure₁
    exact hinside

omit hmax in
theorem new_inWord {initialSize : Nat} (hcode : new maxSize initialSize = some b) :
    InWord maxSize b ∧
      (kCheapPrepend + initialSize < 2 ^ 64 → b.writerIndex ≤ b.buffer.length) := by
  obtain ⟨hsize, hset⟩ := Option.ite_none_right_eq_some.mp hcode
  cases hset
  refine ⟨⟨?_, Nat.le_refl _, Nat.le_refl _, ?_⟩, fun hfits => ?_⟩
  · dsimp only
    rw [List.length_replicate]
    exact hsize
  · exact show 8 < 2 ^ 64 by decide
  · dsimp only
    rw [List.length_replicate, Word.add_of_lt hfits]
    exact Nat.le_add_right _ _

omit hmax in
theorem step_cases {s s' : Option Buffer} {a : SizeTStep}
    (hstep : (machine maxSize).step s a = some s') :
    (∃ initialSize b', a = .construct initialSize ∧ new maxSize initialSize = some b' ∧
      s' = some b') ∨
    (∃ b call b', s = some b ∧ a = .call call ∧ SizeT.exec maxSize b call = some b' ∧
      s' = some b') := by
  cases s with
  | none =>
    cases a with
    | construct initialSize =>
      obtain ⟨_, hstep⟩ := Option.ite_none_right_eq_some.mp hstep
      obtain ⟨b', hnew, hset⟩ := Option.map_eq_some_iff.mp hstep
      exact Or.inl ⟨initialSize, b', rfl, hnew, hset.symm⟩
    | call call => cases hstep
  | some b =>
    cases a with
    | construct initialSize => cases hstep
    | call call =>
      obtain ⟨_, hstep⟩ := Option.ite_none_right_eq_some.mp hstep
      obtain ⟨b', hexec, hset⟩ := Option.map_eq_some_iff.mp hstep
      exact Or.inr ⟨b, call, b', rfl, rfl, hexec, hset.symm⟩

theorem reachable_inWord (hreach : (machine maxSize).Reachable (some b)) : InWord maxSize b := by
  refine hreach.invariant (P := fun s => ∀ b, s = some b → InWord maxSize b) ?_ ?_ b rfl
  · intro s hinit b hs
    rw [hinit] at hs
    cases hs
  · intro s a s' _ _ hstep h b hs
    rcases step_cases hstep with ⟨n, b', _, hnew, rfl⟩ | ⟨b₀, call, b', rfl, _, hexec, rfl⟩
    · cases hs
      exact (new_inWord hnew).1
    · cases hs
      exact ((h b₀ rfl).exec hmax hexec).1

theorem inside_of_sumsFit (hreach : (machine maxSize).ReachableVia sumsFit (some b)) :
    b.writerIndex ≤ b.buffer.length := by
  refine hreach.invariant (P := fun s => ∀ b, s = some b → b.writerIndex ≤ b.buffer.length)
    ?_ ?_ b rfl
  · intro s hinit b hs
    rw [hinit] at hs
    cases hs
  · intro s a s' hbefore hfits hstep h b hs
    rcases step_cases hstep with ⟨n, b', rfl, hnew, rfl⟩ | ⟨b₀, call, b', rfl, rfl, hexec, rfl⟩
    · cases hs
      exact (new_inWord hnew).2 hfits
    · cases hs
      exact ((reachable_inWord hmax hbefore.reachable).exec hmax hexec).2 (h b₀ rfl) hfits

end

/-- In any state of any run, `ensureWritableBytes(len)` is right exactly when the readable bytes lie in the vector and the sum of the call does not wrap; in a run in which no sum wraps, they do. -/
theorem ensureWritableBytes_right_iff (hmax : maxSize < 2 ^ 64)
    (hreach : (machine maxSize).Reachable (some b)) {len : Nat} (hlen : len < 2 ^ 64) :
    (Right maxSize b len ↔ b.writerIndex ≤ b.buffer.length ∧ SumFits b len) ∧
      ((machine maxSize).ReachableVia sumsFit (some b) → b.writerIndex ≤ b.buffer.length) :=
  ⟨(reachable_inWord hmax hreach).right_iff hmax hlen, inside_of_sumsFit hmax⟩

/-- A request that the vector refuses. -/
theorem ensureWritableBytes_right_iff_throws :
    ∃ b, (machine (2 ^ 63 - 1)).run none [.construct 16, .call (.append [1, 2, 3] 3)] =
        some (some b) ∧
      (Right (2 ^ 63 - 1) b (2 ^ 63) ↔ b.writerIndex ≤ b.buffer.length ∧ SumFits b (2 ^ 63)) ∧
      ((machine (2 ^ 63 - 1)).ReachableVia sumsFit (some b) → b.writerIndex ≤ b.buffer.length) := by
  have hend : ((machine (2 ^ 63 - 1)).run none
      [.construct 16, .call (.append [1, 2, 3] 3)]).map Option.isSome = some true := by
    decide +kernel
  obtain ⟨s, hrun, hs⟩ := Option.map_eq_some_iff.mp hend
  obtain ⟨b, rfl⟩ := Option.isSome_iff_exists.mp hs
  exact ⟨b, hrun, ensureWritableBytes_right_iff (by decide) (Machine.Reachable.run (.init rfl) hrun)
    (by decide)⟩

/-- The new size wraps, and the vector is cut to a size in front of `writerIndex_`. -/
theorem vector_cut_short :
    ¬ ∀ (maxSize : Nat) (b : Buffer) (len : Nat), maxSize < 2 ^ 64 →
      (machine maxSize).Reachable (some b) → len < 2 ^ 64 → Right maxSize b len := by
  intro hclaim
  let b : Buffer := ⟨[0, 0, 0, 0, 0, 0, 0, 0, 1, 2, 3, 4], 8, 12⟩
  have hrun : (machine (2 ^ 63 - 1)).run none [.construct 4, .call (.append [1, 2, 3, 4] 4)] =
      some (some b) := by decide +kernel
  obtain ⟨e, hcode, _, _, _, _, hinside⟩ :=
    hclaim (2 ^ 63 - 1) b (2 ^ 64 - 9) (by decide) (Machine.Reachable.run (.init rfl) hrun) (by decide)
  have hcut : ensureWritableBytes (2 ^ 63 - 1) b (2 ^ 64 - 9) =
      some ⟨⟨[0, 0, 0], 8, 12⟩, some ()⟩ := by decide +kernel
  rw [hcut] at hcode
  cases hcode
  exact absurd hinside (by decide)

end LTMuduo.Buffer.SizeT
