import LTMuduo.Buffer.SizeT
import LTMuduo.Buffer.Storage

/-!
# While no sum wraps

The functions in words of 64 bits, under calls that never want more than `M` readable bytes. When the vector may have twice that many, no sum wraps, no call throws, and the words are the natural numbers of `Code.lean`; so the buffer in words is a byte queue as well.
-/

namespace LTMuduo.Buffer

open Block

/-- The bytes a call makes room for. -/
def Call.demand : Call → Nat
  | .append _ len => len
  | .readFd r => (deliveredBytes r).length
  | .ensureWritableBytes len => len
  | _ => 0

theorem length_onQueue_le (c : Call) (q : List Byte) :
    (c.onQueue q).1.length ≤ q.length + c.demand := by
  cases c with
  | append data len =>
    rw [Call.onQueue, List.length_append]
    exact Nat.add_le_add_left (List.length_take_le _ _) _
  | readFd r => exact Nat.le_of_eq List.length_append
  | retrieve len => exact Nat.le_trans (List.drop_sublist _ _).length_le (Nat.le_add_right _ _)
  | retrieveAll => exact Nat.zero_le _
  | retrieveAllAsString => exact Nat.zero_le _
  | retrieveAsString len => exact Nat.le_trans (List.drop_sublist _ _).length_le (Nat.le_add_right _ _)
  | ensureWritableBytes len => exact Nat.le_add_right _ _

namespace SizeT

variable (maxSize : Nat) (b : Buffer)

/-- A call with the string it returns, in words. -/
def execReturn : Call → Option (Exit (Option (List Byte)))
  | .append data len =>
    (append maxSize b data len).map fun e => ⟨e.buffer, e.result.map fun _ => none⟩
  | .readFd r => (readFd maxSize b r).map fun e => ⟨e.buffer, e.result.map fun _ => none⟩
  | .retrieve len => some ⟨retrieve b len, some none⟩
  | .retrieveAll => some ⟨b.retrieveAll, some none⟩
  | .retrieveAllAsString => (retrieveAllAsString b).map fun e => ⟨e.buffer, e.result.map some⟩
  | .retrieveAsString len => (retrieveAsString b len).map fun e => ⟨e.buffer, e.result.map some⟩
  | .ensureWritableBytes len =>
    (ensureWritableBytes maxSize b len).map fun e => ⟨e.buffer, e.result.map fun _ => none⟩

/-- What the caller and the kernel owe, in words. -/
def Allowed : Call → Prop
  | .append data len => len ≤ data.length
  | .readFd r => (deliveredBytes r).length ≤ readvCapacity b
  | .retrieveAsString len => len ≤ readableBytes b
  | _ => True

instance : (c : Call) → Decidable (Allowed b c)
  | .append data len => inferInstanceAs (Decidable (len ≤ data.length))
  | .readFd r => inferInstanceAs (Decidable ((deliveredBytes r).length ≤ readvCapacity b))
  | .retrieveAsString len => inferInstanceAs (Decidable (len ≤ readableBytes b))
  | .retrieve _ | .retrieveAll | .retrieveAllAsString | .ensureWritableBytes _ =>
    inferInstanceAs (Decidable True)

/-- The code in words, under allowed calls. An exception ends the run. -/
def sessionMachine (initialSize : Nat) : Machine (Session Buffer) Call where
  init s := ∃ b, new maxSize initialSize = some b ∧ s = ⟨b, []⟩
  step s c :=
    if Allowed s.state c then
      (execReturn maxSize s.state c).bind fun e =>
        e.result.map fun out => ⟨e.buffer, s.returned ++ out.toList⟩
    else none

/-- The call does not want more than `M` readable bytes. -/
def Small (M : Nat) (s : Session Buffer) (c : Call) : Prop := readableBytes s.state + c.demand ≤ M

instance (M : Nat) (s : Session Buffer) (c : Call) : Decidable (Small M s c) :=
  inferInstanceAs (Decidable (_ ≤ _))

variable {maxSize b}

/-! ### The functions, one by one -/

section

variable (hmax : maxSize < 2 ^ 64) {M : Nat}

include hmax

theorem inWord_of_valid (h : b.Valid) (hsize : b.buffer.length ≤ maxSize) : InWord maxSize b := by
  have hbound := h.bound
  exact ⟨hsize, h.prepend, h.order, by omega⟩

theorem ensureWritableBytes_eq (h : b.Valid) (hsize : b.buffer.length ≤ maxSize) {len : Nat}
    (hroom : b.readableBytes + 2 * len + 8 ≤ maxSize) :
    ensureWritableBytes maxSize b len = (b.ensureWritableBytes len).map fun b' => ⟨b', some ()⟩ := by
  have hword := inWord_of_valid hmax h hsize
  have hfits : SumFits b len := by
    have horder := h.order
    have hbound := h.bound
    unfold SumFits Buffer.writableBytes prependableBytes kCheapPrepend
    unfold Buffer.readableBytes at hroom
    omega
  obtain ⟨b', hcode, hwords⟩ := hword.ensureWritableBytes_eq hmax h.bound hfits
  have hlength := h.length_ensureWritableBytes hcode
  rw [hwords, hcode, if_pos (by omega)]
  rfl

theorem copyIn_eq (h : InWord maxSize b) {data : List Byte} {len : Nat} :
    copyIn b data len = (do
      let bytes ← readBlock data 0 len
      let buffer ← writeBlock b.buffer b.writerIndex bytes
      return { b with buffer, writerIndex := b.writerIndex + len }) := by
  unfold copyIn
  refine Option.bind_congr fun bytes hread => Option.bind_congr fun buffer hwrite => ?_
  have hbound := writeBlock_bound hwrite
  have hlength := length_of_readBlock hread
  have hsize := h.size
  have hsum : Word.add 64 b.writerIndex len = b.writerIndex + len := by
    apply Word.add_of_lt
    omega
  rw [hsum]

theorem append_eq (h : b.Valid) (hsize : b.buffer.length ≤ maxSize) {data : List Byte} {len : Nat}
    (hroom : b.readableBytes + 2 * len + 8 ≤ maxSize) :
    append maxSize b data len = (b.append data len).map fun b' => ⟨b', some ()⟩ := by
  unfold append Buffer.append
  rw [ensureWritableBytes_eq hmax h hsize hroom]
  obtain ⟨b₁, hcode, hvalid, _⟩ := h.ensureWritableBytes len
  have hlength := h.length_ensureWritableBytes hcode
  rw [hcode]
  exact congrArg (Option.map _) (copyIn_eq hmax (inWord_of_valid hmax hvalid (by omega)))

theorem readFd_eq (h : b.Valid) (hsize : b.buffer.length ≤ maxSize) {r : ReadvResult}
    (hroom : b.readableBytes + 2 * (deliveredBytes r).length + 8 ≤ maxSize) :
    readFd maxSize b r = (b.readFd r).map fun result => ⟨result.1, some result.2⟩ := by
  have hword := inWord_of_valid hmax h hsize
  have horder := h.order
  have hbound := h.bound
  cases r with
  | failed errno => rfl
  | delivered s =>
    unfold readFd Buffer.readFd
    dsimp only
    rw [hword.writableBytes hmax h.bound]
    change b.writerIndex - b.readerIndex + 2 * s.length + 8 ≤ maxSize at hroom
    simp only [Option.bind_eq_bind, Option.map_bind]
    refine Option.bind_congr fun buffer hwrite => ?_
    rw [Function.comp_apply, Option.map_bind]
    refine Option.bind_congr fun extrabuf _ => ?_
    have hlength := length_of_writeBlock hwrite
    have hwritten := writeBlock_bound hwrite
    rw [List.length_take] at hwritten
    rw [Function.comp_apply]
    split
    · have hsum : Word.add 64 b.writerIndex s.length = b.writerIndex + s.length := by
        apply Word.add_of_lt
        omega
      rw [hsum]
      rfl
    · rename_i hspill
      have hfull : Valid { b with buffer, writerIndex := buffer.length } :=
        ⟨h.prepend, by dsimp only; omega, Nat.le_refl _⟩
      have hrest : Word.sub 64 s.length b.writableBytes = s.length - b.writableBytes :=
        Word.sub_of_le (by omega) (by omega)
      rw [hrest, append_eq hmax hfull (by dsimp only; omega)]
      · rw [Option.bind_map, Option.map_bind]
        rfl
      · unfold Buffer.writableBytes at hspill hwritten ⊢
        unfold Buffer.readableBytes
        dsimp only
        omega

theorem readvCapacity_eq (h : b.Valid) (hsize : b.buffer.length ≤ maxSize) :
    readvCapacity b = b.readvCapacity := by
  unfold readvCapacity Buffer.readvCapacity
  rw [(inWord_of_valid hmax h hsize).writableBytes hmax h.bound]

theorem allowed_iff (h : b.Valid) (hsize : b.buffer.length ≤ maxSize) {c : Call} :
    Allowed b c ↔ c.Allowed b := by
  cases c with
  | readFd r => rw [Allowed, Call.Allowed, readvCapacity_eq hmax h hsize]
  | retrieveAsString len =>
    rw [Allowed, Call.Allowed, (inWord_of_valid hmax h hsize).readableBytes]
  | _ => exact Iff.rfl

theorem retrieve_eq (h : b.Valid) (hsize : b.buffer.length ≤ maxSize) (len : Nat) :
    retrieve b len = b.retrieve len := by
  have hword := inWord_of_valid hmax h hsize
  unfold retrieve Buffer.retrieve
  rw [hword.readableBytes]
  split
  · rename_i hlt
    have hsum : Word.add 64 b.readerIndex len = b.readerIndex + len := by
      apply Word.add_of_lt
      have hlast := hword.word
      unfold Buffer.readableBytes at hlt
      omega
    rw [hsum]
  · rfl

theorem retrieveAsString_eq (h : b.Valid) (hsize : b.buffer.length ≤ maxSize) (len : Nat) :
    retrieveAsString b len =
      (b.retrieveAsString len).map fun result => ⟨result.1, some result.2⟩ := by
  unfold retrieveAsString Buffer.retrieveAsString
  rw [retrieve_eq hmax h hsize, Option.map_map]
  rfl

theorem execReturn_eq (h : b.Valid) (hsize : b.buffer.length ≤ maxSize) {c : Call}
    (hroom : b.readableBytes + 2 * c.demand + 8 ≤ maxSize) :
    execReturn maxSize b c = (c.exec b).map fun result => ⟨result.1, some result.2⟩ := by
  cases c with
  | append data len =>
    have hcode : append maxSize b data len = _ := append_eq hmax h hsize hroom
    rw [execReturn, hcode, Call.exec, Option.map_map, Option.map_map]
    rfl
  | readFd r =>
    have hcode : readFd maxSize b r = _ := readFd_eq hmax h hsize hroom
    rw [execReturn, hcode, Call.exec, Option.map_map, Option.map_map]
    rfl
  | retrieve len =>
    rw [execReturn, retrieve_eq hmax h hsize]
    rfl
  | retrieveAll => rfl
  | retrieveAllAsString =>
    rw [execReturn, retrieveAllAsString, (inWord_of_valid hmax h hsize).readableBytes,
      retrieveAsString_eq hmax h hsize, Call.exec, Buffer.retrieveAllAsString, Option.map_map,
      Option.map_map]
    rfl
  | retrieveAsString len =>
    rw [execReturn, retrieveAsString_eq hmax h hsize, Call.exec, Option.map_map, Option.map_map]
    rfl
  | ensureWritableBytes len =>
    have hcode : ensureWritableBytes maxSize b len = _ := ensureWritableBytes_eq hmax h hsize hroom
    rw [execReturn, hcode, Call.exec, Option.map_map, Option.map_map]
    rfl

/-! ### Runs -/

/-- The vector has stayed within its first size or twice what was wanted. -/
structure InRange (initialSize M : Nat) (b : Buffer) : Prop where
  valid : b.Valid
  size : b.buffer.length ≤ max (8 + initialSize) (2 * M + 8)

omit hmax in
theorem new_inRange (initialSize M : Nat) : InRange initialSize M (Buffer.new initialSize) := by
  have hlength : (Buffer.new initialSize).buffer.length = 8 + initialSize := List.length_replicate
  refine ⟨new_valid initialSize, ?_⟩
  rw [hlength]
  exact Nat.le_max_left _ _

omit hmax in
theorem InRange.exec {initialSize : Nat} (h : InRange initialSize M b) {c : Call}
    (hallowed : c.Allowed b) (hsmall : b.readableBytes + c.demand ≤ M) {b' : Buffer}
    {out : Option (List Byte)} (hexec : c.exec b = some (b', out)) : InRange initialSize M b' := by
  have hsize := h.size
  obtain ⟨b₁, out₁, hexec₁, hvalid, hqueue⟩ := h.valid.exec hallowed
  cases hexec.symm.trans hexec₁
  have hreadable := length_onQueue_le c b.content
  rw [hqueue, hvalid.length_content, h.valid.length_content] at hreadable
  refine ⟨hvalid, ?_⟩
  by_cases hreserves : c.reserves = false
  · have hgrown := h.valid.length_exec hreserves hallowed hexec
    omega
  · cases c with
    | ensureWritableBytes len =>
      obtain ⟨b₂, hensure, hset⟩ := Option.map_eq_some_iff.mp hexec
      cases hset
      have hgrown := h.valid.length_ensureWritableBytes hensure
      change b.readableBytes + len ≤ M at hsmall
      omega
    | _ => exact absurd rfl hreserves

variable {initialSize : Nat} (hfits : max (8 + initialSize) (2 * M + 8) ≤ maxSize)

include hfits

theorem step_eq {s : Session Buffer} (h : InRange initialSize M s.state) {c : Call}
    (hsmall : Small M s c) :
    (sessionMachine maxSize initialSize).step s c = (Buffer.machine initialSize).step s c := by
  have hsize := Nat.le_trans h.size hfits
  have hroom : s.state.readableBytes + 2 * c.demand + 8 ≤ maxSize := by
    unfold Small at hsmall
    rw [(inWord_of_valid hmax h.valid hsize).readableBytes] at hsmall
    omega
  unfold sessionMachine Buffer.machine
  dsimp only
  rw [execReturn_eq hmax h.valid hsize hroom, Option.bind_map]
  simp only [allowed_iff hmax h.valid hsize]
  rw [Option.map_eq_bind]
  rfl

theorem small_iff {s : Session Buffer} (h : InRange initialSize M s.state) (c : Call) :
    Small M s c ↔ s.state.readableBytes + c.demand ≤ M := by
  rw [Small, (inWord_of_valid hmax h.valid (Nat.le_trans h.size hfits)).readableBytes]

/-- The run lemma: a run in words is a run in natural numbers. -/
theorem run_inRange {calls : List Call} {s : Session Buffer}
    (hrun : ((sessionMachine maxSize initialSize).restrict (Small M)).run
      ⟨Buffer.new initialSize, []⟩ calls = some s) :
    (Buffer.machine initialSize).run ⟨Buffer.new initialSize, []⟩ calls = some s ∧
      InRange initialSize M s.state := by
  refine Machine.run_induction
    (P := fun calls s => (Buffer.machine initialSize).run ⟨Buffer.new initialSize, []⟩ calls = some s ∧
      InRange initialSize M s.state) ⟨rfl, new_inRange initialSize M⟩ ?_ hrun
  intro calls t c t' _ hP hstep
  obtain ⟨hbefore, hrange⟩ := hP
  obtain ⟨hsmall, hstep⟩ := Option.ite_none_right_eq_some.mp hstep
  rw [step_eq hmax hfits hrange hsmall] at hstep
  refine ⟨Machine.run_concat hbefore hstep, ?_⟩
  obtain ⟨hallowed, hstep⟩ := Option.ite_none_right_eq_some.mp hstep
  obtain ⟨⟨b', out⟩, hexec, hset⟩ := Option.map_eq_some_iff.mp hstep
  cases hset
  exact hrange.exec hallowed ((small_iff hmax hfits hrange c).mp hsmall) hexec

end

/-- With a vector that may hold twice as many bytes as are ever wanted, the code in words of 64 bits is a byte queue: the constructor does not throw, any allowed calls that want at most `M` readable bytes run as they do in natural numbers, where no sum wraps, the readable bytes and the returned strings are those of the queue, and the next such call returns, again as in natural numbers. -/
theorem words_refine_queue {M initialSize : Nat} (hmax : maxSize < 2 ^ 64)
    (hfits : max (8 + initialSize) (2 * M + 8) ≤ maxSize) {calls : List Call} {s : Session Buffer}
    (hrun : ((sessionMachine maxSize initialSize).restrict (Small M)).run
      ⟨Buffer.new initialSize, []⟩ calls = some s) :
    new maxSize initialSize = some (Buffer.new initialSize) ∧
      (Buffer.machine initialSize).run ⟨Buffer.new initialSize, []⟩ calls = some s ∧
      queueMachine.run ⟨[], []⟩ calls = some ⟨s.state.content, s.returned⟩ ∧
      ∀ c, Allowed s.state c → Small M s c →
        ((sessionMachine maxSize initialSize).step s c).isSome ∧
          (sessionMachine maxSize initialSize).step s c = (Buffer.machine initialSize).step s c := by
  obtain ⟨hwords, hrange⟩ := run_inRange hmax hfits hrun
  refine ⟨?_, hwords, ?_, ?_⟩
  · have hsum : Word.add 64 kCheapPrepend initialSize = kCheapPrepend + initialSize := by
      apply Word.add_of_lt
      unfold kCheapPrepend
      omega
    unfold new
    rw [hsum, if_pos (by unfold kCheapPrepend; omega)]
    rfl
  · have hqueue := (refinement initialSize).run_map (f := id) (fun _ _ => rfl) (.init rfl) hwords
    rw [List.map_id] at hqueue
    simpa only [refinement, content_new] using hqueue
  · intro c hallowed hsmall
    refine ⟨?_, step_eq hmax hfits hrange hsmall⟩
    rw [allowed_iff hmax hrange.valid (Nat.le_trans hrange.size hfits)] at hallowed
    obtain ⟨b', out, hexec, _⟩ := hrange.valid.exec hallowed
    rw [step_eq hmax hfits hrange hsmall, Buffer.machine]
    dsimp only
    rw [if_pos hallowed, hexec]
    rfl

/-- Growth, a read behind the vector and a compaction, in a vector of at most 90 bytes. -/
theorem words_refine_queue_ninety :
    let calls : List Call :=
      [.append [104, 101, 108, 108, 111] 5, .readFd (.failed (.other 4)), .retrieve 3,
        .append [33, 10] 2, .retrieveAsString 3, .ensureWritableBytes 40, .retrieveAllAsString]
    ∃ s, ((sessionMachine 90 3).restrict (Small 41)).run ⟨Buffer.new 3, []⟩ calls = some s ∧
      new 90 3 = some (Buffer.new 3) ∧
      (Buffer.machine 3).run ⟨Buffer.new 3, []⟩ calls = some s ∧
      queueMachine.run ⟨[], []⟩ calls = some ⟨s.state.content, s.returned⟩ := by
  intro calls
  have hsome : (((sessionMachine 90 3).restrict (Small 41)).run ⟨Buffer.new 3, []⟩ calls).isSome := by
    decide +kernel
  obtain ⟨s, hrun⟩ := Option.isSome_iff_exists.mp hsome
  obtain ⟨hnew, hnumbers, hqueue, _⟩ := words_refine_queue (by decide) (by decide) hrun
  exact ⟨s, hrun, hnew, hnumbers, hqueue⟩

end SizeT

end LTMuduo.Buffer
