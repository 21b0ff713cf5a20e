import LTMuduo.Buffer.Code

/-!
# What the operations of a buffer do

A valid buffer has its indices in order behind the eight prependable bytes. One lemma for each operation: on a valid buffer none of its copies leaves the memory it works on, the result is valid again, and the readable bytes change as said. Everything later reaches the code of the buffer only through these lemmas.
-/

namespace LTMuduo.Buffer

open Block

/-- `kCheapPrepend <= readerIndex_ <= writerIndex_ <= buffer_.size()`. -/
structure Valid (b : Buffer) : Prop where
  prepend : kCheapPrepend ≤ b.readerIndex
  order : b.readerIndex ≤ b.writerIndex
  bound : b.writerIndex ≤ b.buffer.length

/-- The readable bytes. -/
def content (b : Buffer) : List Byte := Block.segment b.buffer b.readerIndex b.writerIndex

theorem Valid.length_content {b : Buffer} (h : b.Valid) : b.content.length = b.readableBytes :=
  length_segment h.bound

theorem Valid.readableBytes_eq_zero_iff {b : Buffer} (h : b.Valid) :
    b.readableBytes = 0 ↔ b.content = [] := by
  rw [← h.length_content, List.length_eq_zero_iff]

theorem new_valid (initialSize : Nat) : (new initialSize).Valid :=
  ⟨Nat.le_refl _, Nat.le_refl _, by simp [new]⟩

@[simp] theorem content_new (initialSize : Nat) : (new initialSize).content = [] := by
  simp [new, content]

/-! ### Retrieving -/

theorem Valid.retrieveAll {b : Buffer} (h : b.Valid) : b.retrieveAll.Valid := by
  refine ⟨Nat.le_refl _, Nat.le_refl _, ?_⟩
  have hprepend := h.prepend
  have horder := h.order
  have hbound := h.bound
  simp only [Buffer.retrieveAll]
  omega

@[simp] theorem content_retrieveAll (b : Buffer) : b.retrieveAll.content = [] := by
  simp [Buffer.retrieveAll, content]

theorem Valid.retrieve {b : Buffer} (h : b.Valid) (len : Nat) : (b.retrieve len).Valid := by
  unfold Buffer.retrieve
  split
  · rename_i hlt
    unfold readableBytes at hlt
    refine ⟨?_, ?_, h.bound⟩
    · exact Nat.le_trans h.prepend (Nat.le_add_right _ _)
    · show b.readerIndex + len ≤ b.writerIndex
      omega
  · exact h.retrieveAll

theorem Valid.content_retrieve {b : Buffer} (h : b.Valid) (len : Nat) :
    (b.retrieve len).content = b.content.drop len := by
  unfold Buffer.retrieve
  split
  · exact (drop_segment b.buffer b.readerIndex b.writerIndex len).symm
  · rename_i hlt
    rw [content_retrieveAll, List.drop_eq_nil_of_le]
    rw [h.length_content]
    omega

theorem Valid.retrieveAsString {b : Buffer} (h : b.Valid) {len : Nat} (hlen : len ≤ b.readableBytes) :
    b.retrieveAsString len = some (b.retrieve len, b.content.take len) := by
  have horder := h.order
  have hbound := h.bound
  unfold readableBytes at hlen
  rw [Buffer.retrieveAsString, readBlock_eq (by omega), content, take_segment hlen]
  rfl

theorem Valid.retrieveAllAsString {b : Buffer} (h : b.Valid) :
    b.retrieveAllAsString = some (b.retrieve b.readableBytes, b.content) := by
  rw [Buffer.retrieveAllAsString, h.retrieveAsString (Nat.le_refl _), ← h.length_content,
    List.take_length]

/-! ### Making room -/

/-- `makeSpace` takes its compaction branch. -/
def Compacts (b : Buffer) (len : Nat) : Prop :=
  b.writableBytes < len ∧ ¬ b.writableBytes + b.prependableBytes < len + kCheapPrepend

theorem Compacts.reader_gt {b : Buffer} {len : Nat} (h : b.Compacts len) :
    kCheapPrepend < b.readerIndex := by
  obtain ⟨hroom, htotal⟩ := h
  unfold prependableBytes at htotal
  omega

theorem Valid.makeSpace {b : Buffer} (h : b.Valid) {len : Nat} (hlen : b.writableBytes < len) :
    ∃ b', b.makeSpace len = some b' ∧ b'.Valid ∧ b'.content = b.content ∧
      len ≤ b'.writableBytes := by
  have hprepend := h.prepend
  have horder := h.order
  have hbound := h.bound
  unfold Buffer.makeSpace
  split
  · have hsize := length_resize b.buffer (b.writerIndex + len) 0
    refine ⟨_, rfl, ⟨hprepend, horder, ?_⟩, ?_, ?_⟩
    · show b.writerIndex ≤ (resize b.buffer (b.writerIndex + len) 0).length
      omega
    · exact segment_resize 0 (Nat.le_add_right _ _) hbound
    · simp only [writableBytes, hsize]
      omega
  · rename_i htotal
    have hgt : kCheapPrepend < b.readerIndex := Compacts.reader_gt ⟨hlen, htotal⟩
    have hread : (Block.segment b.buffer b.readerIndex b.writerIndex).length
        = b.writerIndex - b.readerIndex := length_segment hbound
    have hlength := @length_overwrite _ b.buffer kCheapPrepend
      (Block.segment b.buffer b.readerIndex b.writerIndex) (by omega)
    simp only [writableBytes, prependableBytes] at hlen htotal
    rw [copyBlock_eq hgt horder hbound]
    refine ⟨_, rfl, ⟨Nat.le_refl _, ?_, ?_⟩, ?_, ?_⟩
    · exact Nat.le_add_right _ _
    · simp only [readableBytes, hlength]
      omega
    · simp only [content, readableBytes]
      rw [← hread, segment_overwrite_self (by omega)]
    · simp only [readableBytes, writableBytes, hlength]
      omega

theorem Valid.ensureWritableBytes {b : Buffer} (h : b.Valid) (len : Nat) :
    ∃ b', b.ensureWritableBytes len = some b' ∧ b'.Valid ∧ b'.content = b.content ∧
      len ≤ b'.writableBytes := by
  unfold Buffer.ensureWritableBytes
  split
  · rename_i hlen
    exact h.makeSpace hlen
  · rename_i hlen
    exact ⟨b, rfl, h, rfl, Nat.le_of_not_lt hlen⟩

/-! ### Adding bytes -/

/-- Bytes written at `writerIndex_` become readable when `writerIndex_` moves past them. -/
theorem Valid.extend {b : Buffer} (h : b.Valid) {data : List Byte}
    (hroom : data.length ≤ b.writableBytes) :
    let b' : Buffer := { b with buffer := overwrite b.buffer b.writerIndex data,
                                writerIndex := b.writerIndex + data.length }
    b'.Valid ∧ b'.content = b.content ++ data := by
  have horder := h.order
  have hbound := h.bound
  unfold writableBytes at hroom
  refine ⟨⟨h.prepend, Nat.le_trans horder (Nat.le_add_right _ _), ?_⟩, ?_⟩
  · show b.writerIndex + data.length ≤ (overwrite b.buffer b.writerIndex data).length
    rw [length_overwrite (by omega)]
    omega
  · exact segment_overwrite_extend horder hbound

theorem Valid.append {b : Buffer} (h : b.Valid) {data : List Byte} {len : Nat}
    (hlen : len ≤ data.length) :
    ∃ b', b.append data len = some b' ∧ b'.Valid ∧ b'.content = b.content ++ data.take len := by
  obtain ⟨b₁, hensure, hvalid, hcontent, hroom⟩ := h.ensureWritableBytes len
  have hbound := hvalid.bound
  have hbytes : Block.segment data 0 (0 + len) = data.take len := by simp [Block.segment]
  have htake : (data.take len).length = len := List.length_take_of_le hlen
  have hwrite : writeBlock b₁.buffer b₁.writerIndex (data.take len)
      = some (overwrite b₁.buffer b₁.writerIndex (data.take len)) := by
    apply writeBlock_eq
    unfold writableBytes at hroom
    omega
  have hextend := @Valid.extend b₁ hvalid (data.take len) (by omega)
  simp only [htake] at hextend
  refine ⟨_, ?_, hextend.1, hextend.2.trans (by rw [hcontent])⟩
  have hread : readBlock data 0 len = some (data.take len) := by
    rw [readBlock_eq (by omega), hbytes]
  simp only [Buffer.append, hensure, hread, hwrite, Option.bind_eq_bind, Option.bind_some,
    Option.pure_def]

/-- What `readFd` hands back for an answer of `readv`: its result and the value stored to `*saveErrno`. -/
def readFdReturn : ReadvResult → Int × Option Errno
  | .delivered s => (s.length, none)
  | .failed errno => (-1, some errno)

/-- The bytes an answer of `readv` delivers. -/
def deliveredBytes : ReadvResult → List Byte
  | .delivered s => s
  | .failed _ => []

theorem Valid.readFd {b : Buffer} (h : b.Valid) {r : ReadvResult}
    (hfits : (deliveredBytes r).length ≤ b.readvCapacity) :
    ∃ b', b.readFd r = some (b', readFdReturn r) ∧ b'.Valid ∧
      b'.content = b.content ++ deliveredBytes r := by
  cases r with
  | failed errno => exact ⟨b, rfl, h, (List.append_nil _).symm⟩
  | delivered s =>
    have horder := h.order
    have hbound := h.bound
    have hwritable : b.writerIndex + b.writableBytes = b.buffer.length := by
      unfold writableBytes
      omega
    have hfirst : (s.take b.writableBytes).length ≤ b.writableBytes := List.length_take_le _ _
    have hwrite : writeBlock b.buffer b.writerIndex (s.take b.writableBytes)
        = some (overwrite b.buffer b.writerIndex (s.take b.writableBytes)) :=
      writeBlock_eq (by omega)
    simp only [deliveredBytes] at hfits
    by_cases hspill : s.length ≤ b.writableBytes
    · have htake : s.take b.writableBytes = s := List.take_of_length_le hspill
      have hrest : s.drop b.writableBytes = [] := List.drop_eq_nil_of_le hspill
      have hextend := h.extend hspill
      refine ⟨_, ?_, hextend.1, hextend.2⟩
      have hnone (xs : List Byte) : writeBlock xs 0 [] = some xs := by simp [writeBlock, overwrite]
      rw [htake] at hwrite
      simp only [Buffer.readFd, htake, hwrite, hrest, hnone, hspill, if_true, readFdReturn,
        Option.bind_eq_bind, Option.bind_some, Option.pure_def]
    · -- the rest went to extrabuf, and is appended to a vector without room
      have hcap : b.writableBytes < extrabufSize := by
        by_contra hlarge
        rw [readvCapacity, if_neg hlarge] at hfits
        exact hspill hfits
      rw [readvCapacity, if_pos hcap] at hfits
      have hlen : (s.take b.writableBytes).length = b.writableBytes :=
        List.length_take_of_le (by omega)
      have hdrop : (s.drop b.writableBytes).length = s.length - b.writableBytes :=
        List.length_drop
      have hextra : writeBlock (List.replicate extrabufSize (0 : Byte)) 0 (s.drop b.writableBytes)
          = some (overwrite (List.replicate extrabufSize 0) 0 (s.drop b.writableBytes)) := by
        apply writeBlock_eq
        rw [List.length_replicate]
        omega
      have hsize : (overwrite b.buffer b.writerIndex (s.take b.writableBytes)).length
          = b.writerIndex + (s.take b.writableBytes).length := by
        rw [length_overwrite (by omega)]
        omega
      have hfull := h.extend hfirst
      rw [← hsize] at hfull
      have hextraLength : (overwrite (List.replicate extrabufSize (0 : Byte)) 0
          (s.drop b.writableBytes)).length = extrabufSize := by
        rw [length_overwrite (by rw [List.length_replicate]; omega), List.length_replicate]
      have hrest : s.length - b.writableBytes ≤ (overwrite (List.replicate extrabufSize (0 : Byte)) 0
          (s.drop b.writableBytes)).length := by omega
      obtain ⟨b', happend, hvalid, hcontent⟩ := hfull.1.append hrest
      refine ⟨b', ?_, hvalid, ?_⟩
      · simp [Buffer.readFd, hwrite, hcap, hextra, hspill, happend, readFdReturn]
      · have htaken : (overwrite (List.replicate extrabufSize (0 : Byte)) 0
            (s.drop b.writableBytes)).take (s.length - b.writableBytes)
            = s.drop b.writableBytes := by
          rw [← hdrop]
          simp [overwrite]
        rw [hcontent, hfull.2, htaken, List.append_assoc, List.take_append_drop]
        rfl

/-! ### Sending -/

theorem Valid.writeFd {b : Buffer} (h : b.Valid) (r : WriteResult) :
    ∃ errno, b.writeFd r = some (r.returned b.content.length, errno, r.taken b.content) := by
  have horder := h.order
  have hbound := h.bound
  have hread : readBlock b.buffer b.readerIndex b.readableBytes = some b.content := by
    rw [readBlock_eq (by unfold readableBytes; omega), content, readableBytes,
      Nat.add_sub_cancel' horder]
  cases r with
  | accepted n => exact ⟨none, by rw [Buffer.writeFd, hread]; rfl⟩
  | failed errno logged => exact ⟨some errno, by rw [Buffer.writeFd, hread]; rfl⟩

end LTMuduo.Buffer
