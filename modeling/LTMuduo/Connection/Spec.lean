import LTMuduo.Connection.Code

/-!
# What the functions of a connection do

What the statements about a connection look at are its state, its write interest, the content of its output buffer and its effects. Each function gets a lemma about them, and the proofs about runs use only these. `Coupled` is the invariant between the write interest and the output buffer that the two paths of a byte to the socket rely on.
-/

namespace LTMuduo

/-! ### Masks -/

namespace Channel

theorem testBit_isWriting (events : Events) :
    (events &&& kWriteEvent != 0) = events.getLsbD 2 := by
  have hbit : kWriteEvent = BitVec.twoPow 32 2 := by decide
  rw [hbit, BitVec.and_twoPow]
  cases events.getLsbD 2 <;> decide

variable {C : Type*} (p : EPollPoller C) (c : C) (ch : Channel)

@[simp] theorem updateChannel_events : (p.updateChannel c ch).2.events = ch.events := by
  unfold EPollPoller.updateChannel
  split
  · rfl
  · split <;> rfl

@[simp] theorem isWriting_setEvents (events : Events) :
    (ch.setEvents p c events).2.isWriting = events.getLsbD 2 := by
  rw [isWriting, setEvents, updateChannel_events, testBit_isWriting]

@[simp] theorem isWriting_enableReading : (ch.enableReading p c).2.isWriting = ch.isWriting := by
  rw [enableReading, isWriting_setEvents, isWriting, testBit_isWriting, BitVec.getLsbD_or,
    show kReadEvent.getLsbD 2 = false by decide, Bool.or_false]

@[simp] theorem isWriting_enableWriting : (ch.enableWriting p c).2.isWriting = true := by
  rw [enableWriting, isWriting_setEvents, BitVec.getLsbD_or,
    show kWriteEvent.getLsbD 2 = true by decide, Bool.or_true]

@[simp] theorem isWriting_disableWriting : (ch.disableWriting p c).2.isWriting = false := by
  rw [disableWriting, isWriting_setEvents, BitVec.getLsbD_and,
    show (~~~kWriteEvent).getLsbD 2 = false by decide, Bool.and_false]

@[simp] theorem isWriting_disableAll : (ch.disableAll p c).2.isWriting = false := by
  rw [disableAll, isWriting_setEvents]
  decide

@[simp] theorem isWriting_remove : (ch.remove p c).2.isWriting = ch.isWriting := rfl

end Channel

/-! ### Effects -/

namespace Effect

/-- The bytes that a `::write` of this effect put on the socket. -/
def wire : Effect → List Byte
  | .sendInLoop data (some r) => r.taken data
  | .handleWrite written _ => written
  | _ => []

/-- A `::write` was attempted. -/
def IsWrite : Effect → Prop
  | .sendInLoop _ (some _) => True
  | .handleWrite _ _ => True
  | _ => False

end Effect

namespace Conn

variable {C : Type*} (w : Conn C) (c : C)

/-- The bytes accepted by `::write` so far. -/
def wire : List Byte := w.effects.flatMap Effect.wire

/-- The readable bytes of the output buffer. -/
def pending : List Byte := w.conn.outputBuffer.content

/-- `channel_->isWriting()` holds exactly when the output buffer is not empty. -/
def Coupled : Prop := w.isWriting = true ↔ w.pending ≠ []

@[simp] theorem wire_emit (e : Effect) : (w.emit e).wire = w.wire ++ e.wire := by
  simp [wire, emit]

@[simp] theorem effects_emit (e : Effect) : (w.emit e).effects = w.effects ++ [e] := rfl
@[simp] theorem conn_emit (e : Effect) : (w.emit e).conn = w.conn := rfl
@[simp] theorem pending_emit (e : Effect) : (w.emit e).pending = w.pending := rfl
@[simp] theorem isWriting_emit (e : Effect) : (w.emit e).isWriting = w.isWriting := rfl

@[simp] theorem effects_setState (s : StateE) : (w.setState s).effects = w.effects := rfl
@[simp] theorem state_setState (s : StateE) : (w.setState s).conn.state = s := rfl
@[simp] theorem pending_setState (s : StateE) : (w.setState s).pending = w.pending := rfl
@[simp] theorem isWriting_setState (s : StateE) : (w.setState s).isWriting = w.isWriting := rfl

variable (result : EPollPoller C × Channel)

@[simp] theorem effects_putChannel : (w.putChannel result).effects = w.effects := rfl
@[simp] theorem state_putChannel : (w.putChannel result).conn.state = w.conn.state := rfl
@[simp] theorem pending_putChannel : (w.putChannel result).pending = w.pending := rfl

@[simp] theorem isWriting_enableReading : (w.enableReading c).isWriting = w.isWriting :=
  Channel.isWriting_enableReading _ _ _

@[simp] theorem isWriting_enableWriting : (w.enableWriting c).isWriting = true :=
  Channel.isWriting_enableWriting _ _ _

@[simp] theorem isWriting_disableWriting : (w.disableWriting c).isWriting = false :=
  Channel.isWriting_disableWriting _ _ _

@[simp] theorem isWriting_disableAll : (w.disableAll c).isWriting = false :=
  Channel.isWriting_disableAll _ _ _

@[simp] theorem isWriting_removeChannel : (w.removeChannel c).isWriting = w.isWriting := rfl

theorem readableBytes_eq_zero_iff : w.conn.outputBuffer.readableBytes = 0 ↔ w.pending = [] :=
  w.conn.outputBuffer.readableBytes_eq_zero_iff

theorem Coupled.writesDirectly_iff {w : Conn C} (h : w.Coupled) :
    w.writesDirectly = true ↔ w.pending = [] := by
  have hzero := w.readableBytes_eq_zero_iff
  unfold Coupled at h
  rw [writesDirectly, Bool.and_eq_true, Bool.not_eq_true', beq_iff_eq, hzero]
  constructor
  · intro h
    obtain ⟨_, hempty⟩ := h
    exact hempty
  · intro hempty
    refine ⟨?_, hempty⟩
    rw [← Bool.not_eq_true, h]
    exact fun hne => hne hempty

/-! ### `sendInLoop` -/

/-- The payload is written directly, and behind the log line of the failed `::write` it meets a fault. -/
def Dropped (w : Conn C) (r : WriteResult) : Prop := w.writesDirectly = true ∧ r.Faults

instance (r : WriteResult) : Decidable (w.Dropped r) := inferInstanceAs (Decidable (_ ∧ _))

/-- The effects of functions that hand at most callbacks to the loop. -/
def OnlyQueues (effects : List Effect) : Prop := ∀ e ∈ effects, ∃ f, e = .queueInLoop f

theorem OnlyQueues.nil : OnlyQueues [] := by
  intro e he
  cases he

theorem OnlyQueues.wire {effects : List Effect} (h : OnlyQueues effects) :
    effects.flatMap Effect.wire = [] := by
  rw [List.flatMap_eq_nil_iff]
  intro e he
  obtain ⟨f, rfl⟩ := h e he
  rfl

/-- `w'` is `w` after some callbacks were handed to the loop. -/
def Queued (w w' : Conn C) : Prop :=
  w'.conn = w.conn ∧ w'.poller = w.poller ∧
    ∃ queued, OnlyQueues queued ∧ w'.effects = w.effects ++ queued

theorem Queued.refl : w.Queued w := ⟨rfl, rfl, [], .nil, (List.append_nil _).symm⟩

theorem Queued.emit (f : Callback) : w.Queued (w.emit (.queueInLoop f)) := by
  refine ⟨rfl, rfl, [.queueInLoop f], ?_, rfl⟩
  intro e he
  exact ⟨f, List.mem_singleton.mp he⟩

theorem queued_queueWriteComplete : w.Queued w.queueWriteComplete := by
  unfold queueWriteComplete
  split
  · exact .emit w _
  · exact .refl w

theorem queued_queueHighWaterMark (remaining : Nat) : w.Queued (w.queueHighWaterMark remaining) := by
  unfold queueHighWaterMark
  dsimp only
  split
  · exact .emit w _
  · exact .refl w

/-- The first part of `sendInLoop` records the write, queues at most the completion callback, and leaves `data.drop nwrote` of the payload. -/
theorem sendDirectly_spec (data : List Byte) (r : WriteResult) :
    let result := w.sendDirectly data r
    let write := if w.writesDirectly then some r else none
    (w.emit (.sendInLoop data write)).Queued result.1 ∧
      (Effect.sendInLoop data write).wire ++ data.drop result.2.nwrote = data ∧
      result.2.remaining = (data.drop result.2.nwrote).length ∧
      (result.2.faultError = true ↔ w.Dropped r) := by
  unfold sendDirectly
  by_cases hdirect : w.writesDirectly = true
  · simp only [hdirect, if_true]
    cases r with
    | accepted n =>
      have hlen : (data.drop (min n data.length)).length = data.length - min n data.length :=
        List.length_drop
      have hsplit := WriteResult.taken_append_drop (.accepted n) data
      rw [WriteResult.length_taken] at hsplit
      refine ⟨?_, hsplit, hlen.symm, ?_⟩
      · dsimp only
        split
        · exact queued_queueWriteComplete _
        · exact .refl _
      · simp [Dropped, WriteResult.Faults]
    | failed errno logged =>
      refine ⟨.refl _, rfl, rfl, ?_⟩
      simp only [Dropped, hdirect, true_and, WriteResult.Faults, decide_eq_true_eq]
  · simp only [hdirect]
    refine ⟨.refl _, rfl, rfl, ?_⟩
    simp [Dropped, hdirect]

theorem bufferOutput_spec {rest : List Byte} (hrest : rest ≠ []) :
    let w' := w.bufferOutput c rest
    w'.conn.state = w.conn.state ∧ w'.Coupled ∧ w'.effects = w.effects ∧
      w'.pending = w.pending ++ rest := by
  have happend : (w.conn.outputBuffer.append rest).content = w.pending ++ rest :=
    ValidBuffer.content_append _ _
  have hnonempty : (w.conn.outputBuffer.append rest).content ≠ [] := by
    rw [happend]
    simp [hrest]
  unfold bufferOutput Coupled
  dsimp only
  split
  · refine ⟨rfl, ?_, rfl, happend⟩
    rw [isWriting_enableWriting]
    exact iff_of_true rfl hnonempty
  · rename_i hwriting
    refine ⟨rfl, ?_, rfl, happend⟩
    exact iff_of_true (by simpa using hwriting) hnonempty

/-- The second part of `sendInLoop` appends what is left, unless it is empty or a fault was seen, and then keeps the write interest on. -/
theorem bufferRest_spec (data : List Byte) (sent : Sent) (hcoupled : w.Coupled)
    (hremaining : sent.remaining = (data.drop sent.nwrote).length) :
    let w' := w.bufferRest c data sent
    w'.conn.state = w.conn.state ∧ w'.Coupled ∧
      (∃ queued, OnlyQueues queued ∧ w'.effects = w.effects ++ queued) ∧
      w'.pending = w.pending ++ if sent.faultError then [] else data.drop sent.nwrote := by
  unfold bufferRest
  by_cases hrest : !sent.faultError ∧ 0 < sent.remaining
  · have hfault : sent.faultError = false := by simpa using hrest.1
    have hne : data.drop sent.nwrote ≠ [] := by
      rw [← List.length_pos_iff, ← hremaining]
      exact hrest.2
    obtain ⟨hconn, _, queued, honly, heffects⟩ := w.queued_queueHighWaterMark sent.remaining
    obtain ⟨hstate, hcoupled', hsame, hpending⟩ :=
      (w.queueHighWaterMark sent.remaining).bufferOutput_spec c hne
    rw [if_pos hrest, hfault]
    refine ⟨hstate.trans (by rw [hconn]), hcoupled', ⟨queued, honly, hsame.trans heffects⟩, ?_⟩
    simpa [pending, hconn] using hpending
  · rw [if_neg hrest]
    refine ⟨rfl, hcoupled, ⟨[], .nil, (List.append_nil _).symm⟩, ?_⟩
    cases hfault : sent.faultError with
    | true => simp
    | false =>
      have hzero : (data.drop sent.nwrote).length = 0 := by
        simp only [hfault, Bool.not_false, true_and] at hrest
        omega
      simp [List.length_eq_zero_iff.mp hzero]

/-- `sendInLoop` on a connection that is not disconnected: the payload goes behind everything sent before, one part to the socket and the other to the buffer, unless its direct write saw a fault. -/
theorem sendInLoop_spec (data : List Byte) (r : WriteResult) (hcoupled : w.Coupled)
    (hstate : w.conn.state ≠ .kDisconnected) :
    let w' := w.sendInLoop c data r
    let write := if w.writesDirectly then some r else none
    w'.conn.state = w.conn.state ∧ w'.Coupled ∧
      (∃ queued, OnlyQueues queued ∧ w'.effects = w.effects ++ .sendInLoop data write :: queued) ∧
      w'.wire ++ w'.pending = w.wire ++ w.pending ++ if w.Dropped r then [] else data := by
  obtain ⟨⟨hconn, hpoller, queued₁, honly₁, heffects₁⟩, htaken, hremaining, hfault⟩ :=
    w.sendDirectly_spec data r
  rw [sendInLoop, if_neg hstate]
  generalize w.sendDirectly data r = result at *
  obtain ⟨w₁, sent⟩ := result
  dsimp only at *
  set write := if w.writesDirectly then some r else none with hwrite
  have hcoupled₁ : w₁.Coupled := by
    rw [Coupled, isWriting, pending, hconn]
    exact hcoupled
  obtain ⟨hstate₂, hcoupled₂, ⟨queued₂, honly₂, heffects₂⟩, hpending₂⟩ :=
    w₁.bufferRest_spec c data sent hcoupled₁ hremaining
  have hpending₁ : w₁.pending = w.pending := by
    rw [pending, hconn]
    rfl
  have hall : (w₁.bufferRest c data sent).effects
      = w.effects ++ .sendInLoop data write :: (queued₁ ++ queued₂) := by
    rw [heffects₂, heffects₁, effects_emit]
    simp
  have honly : OnlyQueues (queued₁ ++ queued₂) := by
    intro e he
    rcases List.mem_append.mp he with h | h
    · exact honly₁ e h
    · exact honly₂ e h
  refine ⟨hstate₂.trans (by rw [hconn]; rfl), hcoupled₂, ⟨_, honly, hall⟩, ?_⟩
  have hwire : (w₁.bufferRest c data sent).wire = w.wire ++ (Effect.sendInLoop data write).wire := by
    rw [wire, hall, List.flatMap_append, List.flatMap_cons, honly.wire, List.append_nil]
    rfl
  rw [hwire, hpending₂, hpending₁]
  by_cases hdropped : w.Dropped r
  · -- nothing of a dropped payload was accepted, and the buffer was empty
    have hempty : w.pending = [] := hcoupled.writesDirectly_iff.mp hdropped.1
    have hnothing : (Effect.sendInLoop data write).wire = [] := by
      rw [hwrite, if_pos hdropped.1]
      exact hdropped.2.taken data
    rw [if_pos hdropped, hfault.mpr hdropped, hnothing, hempty]
    simp
  · have hclear : sent.faultError = false := by
      rw [← Bool.not_eq_true, hfault]
      exact hdropped
    rw [if_neg hdropped, hclear]
    simp only [Bool.false_eq_true, if_false]
    by_cases hdirect : w.writesDirectly = true
    · have hempty : w.pending = [] := hcoupled.writesDirectly_iff.mp hdirect
      rw [hempty, List.nil_append, List.append_nil, List.append_assoc, htaken]
    · have hnothing : (Effect.sendInLoop data write).wire = [] := by
        rw [hwrite, if_neg hdirect]
        rfl
      rw [hnothing, List.nil_append] at htaken
      rw [hnothing, htaken]
      simp

/-! ### `handleWrite` -/

theorem handleWriteDrain_eq (r : WriteResult) (hwriting : w.isWriting = true) :
    w.handleWriteDrain c r =
      let written := w.emit (.handleWrite (r.taken w.pending) r)
      if r.taken w.pending = [] then (written, false)
      else
        let rest := written.retrieveOutput (r.taken w.pending).length
        if rest.pending = [] then ((rest.disableWriting c).queueWriteComplete, true)
        else (rest, false) := by
  have hdef : w.conn.outputBuffer.content = w.pending := rfl
  have hpos : 0 < r.returned w.pending.length ↔ ¬ r.taken w.pending = [] := by
    rw [← List.length_eq_zero_iff, ← WriteResult.returned_toNat]
    omega
  have hrest (e : Effect) (len : Nat) :
      ((w.emit e).retrieveOutput len).conn.outputBuffer.readableBytes = 0 ↔
        ((w.emit e).retrieveOutput len).pending = [] := readableBytes_eq_zero_iff _
  unfold handleWriteDrain
  simp only [hwriting, if_true, ValidBuffer.writeFd_eq, hdef, hpos, WriteResult.returned_toNat,
    hrest, ite_not]

/-- The first part of `handleWrite` on a connection with write interest: what `::write` accepts moves from the buffer to the socket, and the test of `state_` is reached exactly when the buffer has run empty. -/
theorem handleWriteDrain_spec (r : WriteResult) (hcoupled : w.Coupled) (hwriting : w.isWriting = true) :
    let result := w.handleWriteDrain c r
    result.1.conn.state = w.conn.state ∧ result.1.Coupled ∧
      (∃ queued, OnlyQueues queued ∧
        result.1.effects = w.effects ++ .handleWrite (r.taken w.pending) r :: queued) ∧
      result.1.wire ++ result.1.pending = w.wire ++ w.pending ∧
      (result.2 = true ↔ result.1.pending = []) := by
  have hnonempty : w.pending ≠ [] := hcoupled.mp hwriting
  have hsplit := r.taken_append_drop w.pending
  rw [w.handleWriteDrain_eq c r hwriting]
  dsimp only
  split
  · rename_i hnothing
    refine ⟨rfl, hcoupled, ⟨[], .nil, rfl⟩, ?_, iff_of_false Bool.false_ne_true hnonempty⟩
    simp [Effect.wire, hnothing]
  · set rest := (w.emit (.handleWrite (r.taken w.pending) r)).retrieveOutput (r.taken w.pending).length
    have hpending : rest.pending = w.pending.drop (r.taken w.pending).length :=
      ValidBuffer.content_retrieve _ _
    have heffects : rest.effects = w.effects ++ [.handleWrite (r.taken w.pending) r] := rfl
    have hwire : rest.wire = w.wire ++ r.taken w.pending := wire_emit w _
    have hstream : rest.wire ++ rest.pending = w.wire ++ w.pending := by
      rw [hwire, hpending, List.append_assoc, hsplit]
    split
    · rename_i hempty
      obtain ⟨hconn, _, queued, honly, hqueued⟩ := (rest.disableWriting c).queued_queueWriteComplete
      set done := (rest.disableWriting c).queueWriteComplete
      have hdone : done.pending = [] := by
        rw [pending, hconn]
        exact hempty
      have hoff : done.isWriting = false := by
        rw [isWriting, hconn]
        exact isWriting_disableWriting rest c
      have hall : done.effects = w.effects ++ .handleWrite (r.taken w.pending) r :: queued := by
        rw [hqueued, disableWriting, effects_putChannel, heffects, List.append_assoc]
        rfl
      have hdoneWire : done.wire = rest.wire := by
        rw [wire, hqueued, List.flatMap_append, honly.wire, List.append_nil]
        rfl
      refine ⟨by rw [hconn]; rfl, ?_, ⟨queued, honly, hall⟩, ?_, iff_of_true rfl hdone⟩
      · rw [Coupled, hoff]
        exact iff_of_false Bool.false_ne_true (fun hne => hne hdone)
      · rw [hdoneWire, hdone, ← hempty, hstream]
    · rename_i hrest
      refine ⟨rfl, iff_of_true hwriting hrest, ⟨[], .nil, heffects⟩, hstream, ?_⟩
      exact iff_of_false Bool.false_ne_true hrest

@[simp] theorem handleWriteDrain_of_not_writing (r : WriteResult) (hwriting : w.isWriting = false) :
    w.handleWriteDrain c r = (w, false) := by
  simp [handleWriteDrain, hwriting]

theorem handleWrite_of_not_writing (r : WriteResult) (hwriting : w.isWriting = false) :
    w.handleWrite c r = w := by
  simp [handleWrite, hwriting]

/-- `handleWrite` as a whole: in the state `kDisconnecting` it half-closes when the buffer has run empty. -/
theorem handleWrite_spec (r : WriteResult) (hcoupled : w.Coupled) (hwriting : w.isWriting = true) :
    let w' := w.handleWrite c r
    w'.conn.state = w.conn.state ∧ w'.Coupled ∧ w'.wire ++ w'.pending = w.wire ++ w.pending ∧
      ∃ queued, OnlyQueues queued ∧
        w'.effects = w.effects ++ (.handleWrite (r.taken w.pending) r :: queued ++
          if w.conn.state = .kDisconnecting ∧ w'.pending = [] then [.shutdownWrite] else []) := by
  obtain ⟨hstate, hcoupled', ⟨queued, honly, heffects⟩, hstream, hdrained⟩ :=
    w.handleWriteDrain_spec c r hcoupled hwriting
  unfold handleWrite
  generalize w.handleWriteDrain c r = result at *
  obtain ⟨w₁, drained⟩ := result
  dsimp only at *
  cases drained with
  | false =>
    have hnonempty : w₁.pending ≠ [] := fun hempty => Bool.false_ne_true (hdrained.mpr hempty)
    refine ⟨hstate, hcoupled', hstream, queued, honly, ?_⟩
    simpa [hnonempty] using heffects
  | true =>
    have hempty : w₁.pending = [] := hdrained.mp rfl
    have hoff : w₁.isWriting = false := by
      unfold Coupled at hcoupled'
      rw [← Bool.not_eq_true, hcoupled']
      exact fun hne => hne hempty
    have hfinish : w₁.handleWriteFinish =
        if w.conn.state = .kDisconnecting then w₁.emit .shutdownWrite else w₁ := by
      rw [handleWriteFinish, hstate, shutdownInLoop, hoff]
      rfl
    rw [if_pos rfl, hfinish]
    split
    · rename_i hdisconnecting
      refine ⟨hstate, hcoupled', ?_, queued, honly, ?_⟩
      · simpa [Effect.wire] using hstream
      · simp [heffects, hdisconnecting, hempty]
    · rename_i hother
      refine ⟨hstate, hcoupled', hstream, queued, honly, ?_⟩
      simpa [hother] using heffects

/-! ### The other functions -/

theorem shutdownInLoop_effects :
    w.shutdownInLoop.effects = w.effects ++ if w.isWriting then [] else [.shutdownWrite] := by
  unfold shutdownInLoop
  cases w.isWriting <;> simp

theorem shutdownInLoop_conn : w.shutdownInLoop.conn = w.conn := by
  unfold shutdownInLoop
  split <;> rfl

theorem handleRead_spec (r : ReadvResult) :
    ((w.handleRead c r).1.conn.state = w.conn.state ∧ (w.handleRead c r).1.isWriting = w.isWriting ∧
      (w.handleRead c r).1.pending = w.pending ∧
      ((w.handleRead c r).1.effects = w.effects ∨
        (w.handleRead c r).1.effects = w.effects ++ [.messageCallback]) ∧
      (w.handleRead c r).2 = false) ∨
    ∃ b : ValidBuffer, w.handleRead c r = (({ w with conn.inputBuffer := b } : Conn C).handleClose c, true) := by
  unfold handleRead
  dsimp only
  split
  · exact Or.inl ⟨rfl, rfl, rfl, Or.inr rfl, rfl⟩
  · split
    · exact Or.inr ⟨_, rfl⟩
    · exact Or.inl ⟨rfl, rfl, rfl, Or.inl rfl, rfl⟩

theorem handleClose_spec :
    (w.handleClose c).conn.state = .kDisconnected ∧ (w.handleClose c).isWriting = false ∧
      (w.handleClose c).pending = w.pending ∧
      (w.handleClose c).effects = w.effects ++ [.connectionCallback false] := by
  refine ⟨rfl, ?_, rfl, rfl⟩
  exact isWriting_disableAll (w.setState .kDisconnected) c

end Conn

end LTMuduo
