import LTMuduo.Buffer.Queue

/-!
# The strings of a buffer

`retrieve` takes any length and stops at the readable bytes. `retrieveAsString` builds its string from the length as it is, so the two agree on the lengths up to `readableBytes()` and on no other.
-/

namespace LTMuduo.Buffer

variable {initialSize : Nat} {b b' : Buffer}

/-- What the caller and the kernel owe apart from the lengths that are retrieved. -/
def Call.Backed (b : Buffer) : Call → Prop
  | .append data len => len ≤ data.length
  | .readFd r => (deliveredBytes r).length ≤ b.readvCapacity
  | _ => True

instance (b : Buffer) : (call : Call) → Decidable (call.Backed b)
  | .append data len => inferInstanceAs (Decidable (len ≤ data.length))
  | .readFd r => inferInstanceAs (Decidable ((deliveredBytes r).length ≤ b.readvCapacity))
  | .retrieve _ | .retrieveAll | .retrieveAllAsString | .retrieveAsString _
  | .ensureWritableBytes _ => inferInstanceAs (Decidable True)

/-- The code of the buffer, with strings of any length that the vector can give. -/
def history (initialSize : Nat) : Machine Buffer Call where
  init b := b = new initialSize
  step b call := if call.Backed b then (call.exec b).map Prod.fst else none

/-- The indices that `std::string result(peek(), len)` reads. -/
def stringReads (b : Buffer) (len : Nat) : List Nat := List.range' b.readerIndex len

/-- The string is made of readable bytes, and it is what `retrieve` takes away. -/
structure StringExact (b : Buffer) (len : Nat) : Prop where
  reads : ∀ i ∈ b.stringReads len, i < b.writerIndex
  taken : ∃ b' result, b.retrieveAsString len = some (b', result) ∧
    result ++ b'.content = b.content ∧
    result.length + (b.retrieve len).readableBytes = b.readableBytes

theorem Valid.exec_backed (h : b.Valid) {call : Call} (hbacked : call.Backed b)
    {out : Option (List Byte)} (hexec : call.exec b = some (b', out)) : b'.Valid := by
  by_cases hallowed : call.Allowed b
  · obtain ⟨b₁, out₁, hexec₁, hvalid, _⟩ := h.exec hallowed
    rw [hexec] at hexec₁
    cases hexec₁
    exact hvalid
  · cases call with
    | retrieveAsString len =>
      obtain ⟨result, hstring, hset⟩ := Option.map_eq_some_iff.mp hexec
      obtain ⟨bytes, _, hresult⟩ := Option.map_eq_some_iff.mp hstring
      cases hresult
      cases hset
      exact h.retrieve len
    | append data len => exact absurd hbacked hallowed
    | readFd r => exact absurd hbacked hallowed
    | _ => exact absurd trivial hallowed

theorem history_valid (h : (history initialSize).Reachable b) : b.Valid := by
  refine h.invariant (P := Valid) ?_ ?_
  · intro b hinit
    subst hinit
    exact new_valid initialSize
  · intro b call b' _ _ hstep hvalid
    obtain ⟨hbacked, hstep⟩ := Option.ite_none_right_eq_some.mp hstep
    obtain ⟨⟨b₁, out⟩, hexec, hset⟩ := Option.map_eq_some_iff.mp hstep
    cases hset
    exact hvalid.exec_backed hbacked hexec

theorem Valid.stringExact (h : b.Valid) {len : Nat} (hlen : len ≤ b.readableBytes) :
    b.StringExact len := by
  constructor
  · intro i hi
    obtain ⟨_, hlt⟩ := List.mem_range'_1.mp hi
    have horder := h.order
    unfold readableBytes at hlen
    omega
  · refine ⟨_, _, h.retrieveAsString hlen, ?_, ?_⟩
    · rw [h.content_retrieve, List.take_append_drop]
    · rw [← (h.retrieve len).length_content, h.content_retrieve, List.length_drop,
        List.length_take_of_le (by rwa [h.length_content]), h.length_content]
      omega

theorem StringExact.le {len : Nat} (h : b.StringExact len) : len ≤ b.readableBytes := by
  by_contra hlong
  have hlong : b.readableBytes < len := Nat.lt_of_not_le hlong
  have hread : b.readerIndex + b.readableBytes ∈ b.stringReads len :=
    List.mem_range'_1.mpr ⟨Nat.le_add_right _ _, Nat.add_lt_add_left hlong _⟩
  have hbelow := h.reads _ hread
  unfold readableBytes at hbelow
  omega

/-- `retrieveAsString` returns what it consumes exactly for the lengths up to `readableBytes()`. -/
theorem retrieveAsString_exact_iff (hreach : (history initialSize).Reachable b) (len : Nat) :
    b.StringExact len ↔ len ≤ b.readableBytes :=
  ⟨StringExact.le, (history_valid hreach).stringExact⟩

/-- Behind a compaction, a string of both bytes that are readable. -/
theorem retrieveAsString_exact_iff_two :
    ∃ b, (history 3).run (new 3) [.append [1, 2, 3] 3, .retrieve 2, .append [4] 1] = some b ∧
      (b.StringExact 2 ↔ 2 ≤ b.readableBytes) := by
  have hend : ((history 3).run (new 3) [.append [1, 2, 3] 3, .retrieve 2, .append [4] 1]).isSome := by
    decide
  obtain ⟨b, hrun⟩ := Option.isSome_iff_exists.mp hend
  exact ⟨b, hrun, retrieveAsString_exact_iff (Machine.Reachable.run (.init rfl) hrun) 2⟩

/-- The string ends with a byte of the message that was retrieved before. -/
theorem stale_byte_returned :
    ¬ ∀ (initialSize : Nat) (b : Buffer) (len : Nat), (history initialSize).Reachable b →
      b.StringExact len := by
  intro hclaim
  have hend : ((history 3).run (new 3) [.append [1, 2, 3] 3, .retrieve 3, .append [4] 1]).map
      (fun b => (b.readableBytes, b.retrieveAsString 2)) =
      some (1, some (⟨[0, 0, 0, 0, 0, 0, 0, 0, 4, 2, 3], 8, 8⟩, [4, 2])) := by decide
  obtain ⟨b, hrun, hb⟩ := Option.map_eq_some_iff.mp hend
  obtain ⟨hreadable, _⟩ := Prod.mk.inj hb
  have hlen := (hclaim 3 b 2 (Machine.Reachable.run (.init rfl) hrun)).le
  rw [hreadable] at hlen
  exact absurd hlen (by decide)

end LTMuduo.Buffer
