import LTMuduo.Buffer.Queue

/-!
# The size of the vector

`makeSpace` grows the vector behind `writerIndex_` and carries the retrieved bytes before `readerIndex_` along. It grows only when these bytes and the free ones together are too few, so the retrieved bytes in the new vector are at most as many as the bytes that are being added. That bounds the vector by the readable bytes of the moment, and nothing adds up over a run.
-/

namespace LTMuduo.Buffer

open Block

variable {b b' : Buffer}

theorem Valid.length_ensureWritableBytes (h : b.Valid) {len : Nat}
    (hcode : b.ensureWritableBytes len = some b') :
    b'.buffer.length ≤ max b.buffer.length (b.readableBytes + 2 * len + 7) := by
  have horder := h.order
  have hbound := h.bound
  unfold Buffer.ensureWritableBytes at hcode
  split at hcode
  · unfold Buffer.makeSpace at hcode
    split at hcode
    · rename_i htotal
      cases hcode
      simp only [length_resize]
      simp only [writableBytes, prependableBytes, kCheapPrepend, readableBytes] at htotal ⊢
      omega
    · obtain ⟨buffer, hcopy, hset⟩ := Option.map_eq_some_iff.mp hcode
      cases hset
      rw [length_of_copyBlock hcopy]
      exact Nat.le_max_left _ _
  · cases hcode
    exact Nat.le_max_left _ _

theorem Valid.readableBytes_append (h : b.Valid) {data : List Byte} {len : Nat}
    (hlen : len ≤ data.length) (hcode : b.append data len = some b') :
    b'.readableBytes = b.readableBytes + len := by
  obtain ⟨b₁, hcode₁, hvalid, hcontent⟩ := h.append hlen
  rw [hcode] at hcode₁
  cases hcode₁
  rw [← hvalid.length_content, hcontent, List.length_append, h.length_content,
    List.length_take_of_le hlen]

theorem Valid.length_append (h : b.Valid) {data : List Byte} {len : Nat}
    (hcode : b.append data len = some b') :
    b'.buffer.length ≤ max b.buffer.length (b.readableBytes + 2 * len + 7) := by
  unfold Buffer.append at hcode
  obtain ⟨b₁, hensure, hcode⟩ := Option.bind_eq_some_iff.mp hcode
  obtain ⟨bytes, _, hcode⟩ := Option.bind_eq_some_iff.mp hcode
  obtain ⟨buffer, hwrite, hset⟩ := Option.bind_eq_some_iff.mp hcode
  cases hset
  rw [length_of_writeBlock hwrite]
  exact h.length_ensureWritableBytes hensure

theorem length_retrieve (b : Buffer) (len : Nat) :
    (b.retrieve len).buffer.length = b.buffer.length := by
  unfold retrieve
  split <;> rfl

theorem Valid.length_readFd (h : b.Valid) {r : ReadvResult}
    (hfits : (deliveredBytes r).length ≤ b.readvCapacity) {result : Int × Option Errno}
    (hcode : b.readFd r = some (b', result)) :
    b'.buffer.length ≤ max b.buffer.length (2 * b'.readableBytes + 7) := by
  have hreadable : b'.readableBytes = b.readableBytes + (deliveredBytes r).length := by
    obtain ⟨b₁, hcode₁, hvalid, hcontent⟩ := h.readFd hfits
    rw [hcode] at hcode₁
    cases hcode₁
    rw [← hvalid.length_content, hcontent, List.length_append, h.length_content]
  cases r with
  | failed errno =>
    cases hcode
    exact Nat.le_max_left _ _
  | delivered s =>
    unfold Buffer.readFd at hcode
    obtain ⟨buffer, hwrite, hcode⟩ := Option.bind_eq_some_iff.mp hcode
    obtain ⟨extrabuf, hextra, hcode⟩ := Option.bind_eq_some_iff.mp hcode
    have hsize := length_of_writeBlock hwrite
    dsimp only at hcode
    split at hcode
    · cases hcode
      rw [hsize]
      exact Nat.le_max_left _ _
    · rename_i hspill
      obtain ⟨b₁, happend, hset⟩ := Option.bind_eq_some_iff.mp hcode
      cases hset
      have horder := h.order
      have hbound := h.bound
      have hfull : Valid { b with buffer, writerIndex := buffer.length } := by
        refine ⟨h.prepend, ?_, Nat.le_refl _⟩
        rw [hsize]
        exact Nat.le_trans horder hbound
      have hgrown := hfull.length_append happend
      rw [hreadable]
      simp only [readableBytes, writableBytes, deliveredBytes, hsize] at hgrown hspill ⊢
      omega

/-! ### Runs -/

/-- The call asks for room and does not fill it. -/
def Call.reserves : Call → Bool
  | .ensureWritableBytes _ => true
  | _ => false

theorem Valid.length_exec (h : b.Valid) {call : Call} (hreserves : call.reserves = false)
    (hallowed : call.Allowed b) {out : Option (List Byte)} (hcode : call.exec b = some (b', out)) :
    b'.buffer.length ≤ max b.buffer.length (2 * b'.readableBytes + 7) := by
  cases call with
  | append data len =>
    obtain ⟨b₁, happend, hset⟩ := Option.map_eq_some_iff.mp hcode
    cases hset
    have hgrown := h.length_append happend
    rw [h.readableBytes_append hallowed happend]
    omega
  | readFd r =>
    obtain ⟨⟨b₁, result⟩, hread, hset⟩ := Option.map_eq_some_iff.mp hcode
    cases hset
    exact h.length_readFd hallowed hread
  | retrieve len =>
    cases hcode
    rw [length_retrieve]
    exact Nat.le_max_left _ _
  | retrieveAll =>
    cases hcode
    exact Nat.le_max_left _ _
  | retrieveAllAsString =>
    obtain ⟨result, hstring, hset⟩ := Option.map_eq_some_iff.mp hcode
    obtain ⟨bytes, _, hresult⟩ := Option.map_eq_some_iff.mp hstring
    cases hresult
    cases hset
    rw [length_retrieve]
    exact Nat.le_max_left _ _
  | retrieveAsString len =>
    obtain ⟨result, hstring, hset⟩ := Option.map_eq_some_iff.mp hcode
    obtain ⟨bytes, _, hresult⟩ := Option.map_eq_some_iff.mp hstring
    cases hresult
    cases hset
    rw [length_retrieve]
    exact Nat.le_max_left _ _
  | ensureWritableBytes len => cases hreserves

/-- The vector stays within twice the readable bytes at their most, or at its first size. -/
theorem storage_bounded (initialSize M : Nat) {calls : List Call}
    (hreserves : ∀ call ∈ calls, call.reserves = false)
    (hreadable : (machine initialSize).EveryStep (fun _ _ s' => s'.state.readableBytes ≤ M)
      ⟨new initialSize, []⟩ calls) :
    (machine initialSize).EveryStep
      (fun _ _ s' => s'.state.buffer.length ≤ max (8 + initialSize) (2 * M + 8))
      ⟨new initialSize, []⟩ calls := by
  refine hreadable.imp (I := fun s => s.state.Valid ∧
    s.state.buffer.length ≤ max (8 + initialSize) (2 * M + 8)) ?_ ⟨new_valid initialSize, ?_⟩
  · intro s call s' hcall hI hstep hM
    have hvalid := (machine_step hI.1 hstep).1
    obtain ⟨hallowed, hstep⟩ := Option.ite_none_right_eq_some.mp hstep
    obtain ⟨⟨b', out⟩, hexec, hset⟩ := Option.map_eq_some_iff.mp hstep
    cases hset
    have hgrown := hI.1.length_exec (hreserves call hcall) hallowed hexec
    have hbefore := hI.2
    dsimp only at hgrown hM ⊢
    have hafter : b'.buffer.length ≤ max (8 + initialSize) (2 * M + 8) := by omega
    exact ⟨hafter, hvalid, hafter⟩
  · have hlength : (new initialSize).buffer.length = 8 + initialSize := List.length_replicate
    rw [hlength]
    exact Nat.le_max_left _ _

/-- Partial retrieves in front of appends. -/
theorem storage_bounded_retrieve :
    (machine 3).EveryStep (fun _ _ s' => s'.state.buffer.length ≤ max (8 + 3) (2 * 5 + 8))
      ⟨new 3, []⟩
      [.append [1, 2, 3] 3, .retrieve 2, .append [4, 5, 6] 3, .retrieve 1,
        .readFd (.failed .EWOULDBLOCK), .append [7, 8] 2, .retrieveAsString 5, .retrieveAll] :=
  storage_bounded 3 5 (by decide) (by decide +kernel)

end LTMuduo.Buffer
