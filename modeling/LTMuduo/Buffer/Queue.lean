import LTMuduo.Buffer.Spec
import LTMuduo.Lib.Machine

/-!
# A buffer is a byte queue

Two machines take the same calls. One runs the code of the buffer, the other keeps the list of the bytes that were added and not yet retrieved, and knows nothing of indices. Reading the readable bytes off a buffer turns every run of the first into the run of the second, with the same strings returned on the way.
-/

namespace LTMuduo.Buffer

/-- A call of one of the public functions. `append` gets the memory its pointer argument points to, `readFd` the answer of `readv`. -/
inductive Call
  | append (data : List Byte) (len : Nat)
  | readFd (r : ReadvResult)
  | retrieve (len : Nat)
  | retrieveAll
  | retrieveAllAsString
  | retrieveAsString (len : Nat)
  | ensureWritableBytes (len : Nat)

/-- What the caller and the kernel owe: a pointer to `len` bytes, no more bytes than the iovecs hold, no string longer than what is readable. -/
def Call.Allowed (b : Buffer) : Call → Prop
  | .append data len => len ≤ data.length
  | .readFd r => (deliveredBytes r).length ≤ b.readvCapacity
  | .retrieveAsString len => len ≤ b.readableBytes
  | _ => True

instance (b : Buffer) : (c : Call) → Decidable (c.Allowed b)
  | .append data len => inferInstanceAs (Decidable (len ≤ data.length))
  | .readFd r => inferInstanceAs (Decidable ((deliveredBytes r).length ≤ b.readvCapacity))
  | .retrieveAsString len => inferInstanceAs (Decidable (len ≤ b.readableBytes))
  | .retrieve _ | .retrieveAll | .retrieveAllAsString | .ensureWritableBytes _ =>
    inferInstanceAs (Decidable True)

/-- Runs the code, and keeps the string a call returns. -/
def Call.exec (b : Buffer) : Call → Option (Buffer × Option (List Byte))
  | .append data len => (b.append data len).map fun b' => (b', none)
  | .readFd r => (b.readFd r).map fun result => (result.1, none)
  | .retrieve len => some (b.retrieve len, none)
  | .retrieveAll => some (b.retrieveAll, none)
  | .retrieveAllAsString => b.retrieveAllAsString.map fun result => (result.1, some result.2)
  | .retrieveAsString len => (b.retrieveAsString len).map fun result => (result.1, some result.2)
  | .ensureWritableBytes len => (b.ensureWritableBytes len).map fun b' => (b', none)

/-- What a call means for the queue. -/
def Call.onQueue (q : List Byte) : Call → List Byte × Option (List Byte)
  | .append data len => (q ++ data.take len, none)
  | .readFd r => (q ++ deliveredBytes r, none)
  | .retrieve len => (q.drop (min len q.length), none)
  | .retrieveAll => ([], none)
  | .retrieveAllAsString => ([], some q)
  | .retrieveAsString len => (q.drop len, some (q.take len))
  | .ensureWritableBytes _ => (q, none)

/-- A buffer or a queue, with the strings its calls have returned. -/
structure Session (σ : Type*) where
  state : σ
  returned : List (List Byte)
  deriving DecidableEq

/-- The code of the buffer, under allowed calls. -/
def machine (initialSize : Nat) : Machine (Session Buffer) Call where
  init s := s = ⟨new initialSize, []⟩
  step s c :=
    if c.Allowed s.state then
      (c.exec s.state).map fun result => ⟨result.1, s.returned ++ result.2.toList⟩
    else none

/-- The byte queue. -/
def queueMachine : Machine (Session (List Byte)) Call where
  init s := s = ⟨[], []⟩
  step s c :=
    let result := c.onQueue s.state
    some ⟨result.1, s.returned ++ result.2.toList⟩

/-- The step lemma: on a valid buffer an allowed call stays in bounds, leaves a valid buffer and acts on the readable bytes as on the queue. -/
theorem Valid.exec {b : Buffer} (h : b.Valid) {c : Call} (hallowed : c.Allowed b) :
    ∃ b' out, c.exec b = some (b', out) ∧ b'.Valid ∧ c.onQueue b.content = (b'.content, out) := by
  cases c with
  | append data len =>
    obtain ⟨b', hcode, hvalid, hcontent⟩ := h.append hallowed
    exact ⟨b', none, by rw [Call.exec, hcode]; rfl, hvalid, by rw [Call.onQueue, hcontent]⟩
  | readFd r =>
    obtain ⟨b', hcode, hvalid, hcontent⟩ := h.readFd hallowed
    exact ⟨b', none, by rw [Call.exec, hcode]; rfl, hvalid, by rw [Call.onQueue, hcontent]⟩
  | retrieve len =>
    refine ⟨b.retrieve len, none, rfl, h.retrieve len, ?_⟩
    rw [Call.onQueue, h.content_retrieve]
    rcases Nat.le_total len b.content.length with hle | hle
    · rw [Nat.min_eq_left hle]
    · rw [Nat.min_eq_right hle, List.drop_length, List.drop_eq_nil_of_le hle]
  | retrieveAll =>
    exact ⟨b.retrieveAll, none, rfl, h.retrieveAll, by rw [Call.onQueue, content_retrieveAll]⟩
  | retrieveAllAsString =>
    refine ⟨_, _, by rw [Call.exec, h.retrieveAllAsString]; rfl, h.retrieve _, ?_⟩
    rw [Call.onQueue, h.content_retrieve, ← h.length_content, List.drop_length]
  | retrieveAsString len =>
    refine ⟨_, _, by rw [Call.exec, h.retrieveAsString hallowed]; rfl, h.retrieve _, ?_⟩
    rw [Call.onQueue, h.content_retrieve]
  | ensureWritableBytes len =>
    obtain ⟨b', hcode, hvalid, hcontent, _⟩ := h.ensureWritableBytes len
    exact ⟨b', none, by rw [Call.exec, hcode]; rfl, hvalid, by rw [Call.onQueue, hcontent]⟩

variable {initialSize : Nat}

theorem machine_step {s s' : Session Buffer} {c : Call} (h : s.state.Valid)
    (hstep : (machine initialSize).step s c = some s') :
    s'.state.Valid ∧
      queueMachine.step ⟨s.state.content, s.returned⟩ c
        = some ⟨s'.state.content, s'.returned⟩ := by
  simp only [machine] at hstep
  split at hstep
  · rename_i hallowed
    obtain ⟨b', out, hexec, hvalid, hqueue⟩ := h.exec hallowed
    rw [hexec] at hstep
    cases hstep
    exact ⟨hvalid, by simp only [queueMachine, hqueue]⟩
  · cases hstep

theorem machine_reachable_valid {s : Session Buffer} (h : (machine initialSize).Reachable s) :
    s.state.Valid := by
  refine h.invariant (P := fun s => s.state.Valid) ?_ ?_
  · intro s h
    subst h
    exact new_valid initialSize
  · intro s c s' _ _ hstep hs
    exact (machine_step hs hstep).1

/-- The readable bytes refine the queue. -/
def refinement (initialSize : Nat) : Machine.Refinement (machine initialSize) queueMachine where
  abs s := ⟨s.state.content, s.returned⟩
  acts _ c := [c]
  init := by
    intro s h
    subst h
    simp [queueMachine]
  step s c s' hreach hstep := by
    rw [Machine.run_cons, (machine_step (machine_reachable_valid hreach) hstep).2]
    rfl

/-- After any allowed calls the indices are in order, the readable bytes and the returned strings are those of the queue under the same calls, no next allowed call leaves the memory it works on, and compaction never starts at the prepend area. -/
theorem refines_byte_queue (initialSize : Nat) (calls : List Call) (s : Session Buffer)
    (hrun : (machine initialSize).run ⟨new initialSize, []⟩ calls = some s) :
    (kCheapPrepend ≤ s.state.readerIndex ∧ s.state.readerIndex ≤ s.state.writerIndex ∧
      s.state.writerIndex ≤ s.state.buffer.length) ∧
    queueMachine.run ⟨[], []⟩ calls = some ⟨s.state.content, s.returned⟩ ∧
    (∀ c : Call, c.Allowed s.state → (c.exec s.state).isSome) ∧
    ∀ (b : Buffer) (len : Nat), b.Compacts len → kCheapPrepend < b.readerIndex := by
  have hstart : (machine initialSize).Reachable ⟨new initialSize, []⟩ := .init rfl
  have hvalid := machine_reachable_valid (hstart.run hrun)
  have hqueue := (refinement initialSize).run_map (f := id) (fun _ _ => rfl) hstart hrun
  refine ⟨⟨hvalid.prepend, hvalid.order, hvalid.bound⟩, ?_, ?_, fun b len h => h.reader_gt⟩
  · rw [List.map_id] at hqueue
    simpa only [refinement, content_new] using hqueue
  · intro c hallowed
    obtain ⟨b', out, hexec, _⟩ := hvalid.exec hallowed
    rw [hexec]
    rfl

/-- Growth, a failed read, a partial retrieve, compaction, and strings on the way. -/
theorem refines_byte_queue_echo :
    let calls : List Call :=
      [.append [104, 101, 108, 108, 111] 5, .readFd (.failed (.other 4)), .retrieve 3,
        .append [33, 10] 2, .retrieveAsString 3, .ensureWritableBytes 2, .retrieveAllAsString]
    let s : Session Buffer :=
      ⟨⟨[0, 0, 0, 0, 0, 0, 0, 0, 10, 111, 33, 10, 111], 8, 8⟩, [[108, 111, 33], [10]]⟩
    (machine 3).run ⟨new 3, []⟩ calls = some s ∧
      queueMachine.run ⟨[], []⟩ calls = some ⟨s.state.content, s.returned⟩ :=
  ⟨by decide, (refines_byte_queue 3 _ _ (by decide)).2.1⟩

end LTMuduo.Buffer
