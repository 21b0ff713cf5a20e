import LTMuduo.Connection.Registration

/-!
# The calls that neither open nor close a connection

`Works` says what `send`, `handleWrite` and the other functions that go on with an open connection do to its state, its channel and its callbacks: the write interest is switched, at most, and no callback of the user or of the server is called. The last section is `handleRead`, by the answer of its `readv`.
-/

namespace LTMuduo

namespace Effect

/-- A callback of the user or of the server. -/
def isCallback : Effect → Bool
  | .connectionCallback _ => true
  | .messageCallback => true
  | .closeCallback => true
  | _ => false

end Effect

namespace Conn

variable {C : Type*} {w w' w'' : Conn C} {c : C}

def Silent (effects : List Effect) : Prop := ∀ e ∈ effects, e.isCallback = false

theorem Silent.append {effects effects' : List Effect} (h : Silent effects)
    (h' : Silent effects') : Silent (effects ++ effects') := by
  intro e he
  rcases List.mem_append.mp he with he | he
  · exact h e he
  · exact h' e he

/-- `w'` is `w` after some effects, none of them a callback. -/
def Appends (w w' : Conn C) : Prop := ∃ new, Silent new ∧ w'.effects = w.effects ++ new

theorem Appends.of_eq (h : w'.effects = w.effects) : w.Appends w' :=
  ⟨[], (nomatch ·, ·), h.trans (List.append_nil _).symm⟩

theorem Appends.trans (h : w.Appends w') (h' : w'.Appends w'') : w.Appends w'' := by
  obtain ⟨new, hnew, heffects⟩ := h
  obtain ⟨new', hnew', heffects'⟩ := h'
  exact ⟨new ++ new', hnew.append hnew', by rw [heffects', heffects, List.append_assoc]⟩

theorem appends_emit (w : Conn C) {e : Effect} (he : e.isCallback = false) : w.Appends (w.emit e) := by
  refine ⟨[e], ?_, rfl⟩
  intro e' he'
  rw [List.mem_singleton.mp he']
  exact he

theorem Queued.appends (h : w.Queued w') : w.Appends w' := by
  obtain ⟨_, _, queued, honly, heffects⟩ := h
  refine ⟨queued, ?_, heffects⟩
  intro e he
  obtain ⟨f, rfl⟩ := honly e he
  rfl

/-- The state stays, and the channel is as before or got its write interest switched. Only a connection that is connected or has write interest does that. -/
structure Works (c : C) (w w' : Conn C) : Prop where
  state : w'.conn.state = w.conn.state
  appends : w.Appends w'
  channel : (w'.poller, w'.conn.channel) = (w.poller, w.conn.channel) ∨
    (w.conn.state = .kConnected ∨ w.isWriting = true) ∧ ∃ on : Bool,
      (w'.poller, w'.conn.channel) = w.conn.channel.setEvents w.poller c
        (if on then w.conn.channel.events ||| Channel.kWriteEvent
          else w.conn.channel.events &&& ~~~Channel.kWriteEvent)

theorem Works.of_aside (h : w.Aside w') (happends : w.Appends w') : Works c w w' := by
  obtain ⟨hchannel, hpoller, hstate⟩ := h
  exact ⟨hstate, happends, Or.inl (by rw [hchannel, hpoller])⟩

theorem Works.refl : Works c w w := .of_aside ⟨rfl, rfl, rfl⟩ (.of_eq rfl)

theorem Works.after (h : w.Aside w') (happends : w.Appends w') (hworks : Works c w' w'') :
    Works c w w'' := by
  obtain ⟨hchannel, hpoller, hstate⟩ := h
  refine ⟨hworks.state.trans hstate, happends.trans hworks.appends, ?_⟩
  have h := hworks.channel
  rwa [isWriting, hchannel, hpoller, hstate] at h

theorem Works.before (hworks : Works c w w') (h : w'.Aside w'') (happends : w'.Appends w'') :
    Works c w w'' := by
  obtain ⟨hchannel, hpoller, hstate⟩ := h
  refine ⟨hstate.trans hworks.state, hworks.appends.trans happends, ?_⟩
  rw [hchannel, hpoller]
  exact hworks.channel

variable (w c)

theorem bufferOutput_works (rest : List Byte) (hstate : w.conn.state = .kConnected) :
    Works c w (w.bufferOutput c rest) := by
  unfold bufferOutput
  dsimp only
  split
  · exact ⟨rfl, .of_eq rfl, Or.inr ⟨Or.inl hstate, true, rfl⟩⟩
  · exact ⟨rfl, .of_eq rfl, Or.inl rfl⟩

theorem bufferRest_works (data : List Byte) (sent : Sent) (hstate : w.conn.state = .kConnected) :
    Works c w (w.bufferRest c data sent) := by
  unfold bufferRest
  split
  · have hqueued := w.queued_queueHighWaterMark sent.remaining
    refine .after hqueued.aside hqueued.appends (bufferOutput_works _ c _ ?_)
    exact hqueued.aside.2.2.trans hstate
  · exact .refl

theorem send_works (buf : List Byte) (r : WriteResult) : Works c w (w.send c buf r) := by
  unfold send sendInLoop
  split
  · rename_i hconnected
    rw [if_neg (by rw [hconnected]; decide)]
    obtain ⟨hqueued, _⟩ := w.sendDirectly_spec buf r
    have haside := w.sendDirectly_aside buf r
    have happends := (w.appends_emit (e := .sendInLoop buf _) rfl).trans hqueued.appends
    exact .after haside happends (bufferRest_works _ c _ _ (haside.2.2.trans hconnected))
  · exact .refl

theorem shutdownInLoop_appends : w.Appends w.shutdownInLoop := by
  unfold shutdownInLoop
  split
  · exact w.appends_emit rfl
  · exact .of_eq rfl

theorem handleWriteDrain_works (r : WriteResult) : Works c w (w.handleWriteDrain c r).1 := by
  by_cases hwriting : w.isWriting = true
  · have hemit := w.appends_emit (e := .handleWrite (r.taken w.pending) r) rfl
    rw [w.handleWriteDrain_eq c r hwriting]
    dsimp only
    split
    · exact .of_aside ⟨rfl, rfl, rfl⟩ hemit
    · set rest := (w.emit (.handleWrite (r.taken w.pending) r)).retrieveOutput (r.taken w.pending).length
      have haside : w.Aside rest := ⟨rfl, rfl, rfl⟩
      have hrest : w.Appends rest := hemit
      split
      · have hqueued := (rest.disableWriting c).queued_queueWriteComplete
        refine .after haside hrest (.before ?_ hqueued.aside hqueued.appends)
        exact ⟨rfl, .of_eq rfl, Or.inr ⟨Or.inr hwriting, false, rfl⟩⟩
      · exact .of_aside haside hrest
  · rw [w.handleWriteDrain_of_not_writing c r (by simpa using hwriting)]
    exact .refl

theorem handleWrite_works (r : WriteResult) : Works c w (w.handleWrite c r) := by
  have hdrain := w.handleWriteDrain_works c r
  unfold handleWrite
  generalize w.handleWriteDrain c r = result at *
  obtain ⟨w₁, drained⟩ := result
  dsimp only at *
  split
  · refine hdrain.before w₁.handleWriteFinish_aside ?_
    unfold handleWriteFinish
    split
    · exact w₁.shutdownInLoop_appends
    · exact .of_eq rfl
  · exact hdrain

/-! ### The results of a read -/

theorem readFd_result_pos {b : ValidBuffer} {s : List Byte} (hs : s ≠ []) :
    0 < (b.readFd (.delivered s)).2 := by
  have hcapacity : 0 < b.1.readvCapacity := by
    unfold Buffer.readvCapacity Buffer.extrabufSize
    split
    · omega
    · omega
  have hlength : 0 < (s.take b.1.readvCapacity).length := by
    rw [List.length_take]
    exact Nat.lt_min.mpr ⟨hcapacity, List.length_pos_iff.mpr hs⟩
  rw [ValidBuffer.readFd_result]
  exact Int.natCast_pos.mpr hlength

/-- The connection after its input buffer has taken the answer of a `readv`. -/
def readInput (r : ReadvResult) : Conn C :=
  { w with conn.inputBuffer := (w.conn.inputBuffer.readFd r).1 }

theorem handleRead_failed (errno : Errno) :
    w.handleRead c (.failed errno) = (w.readInput (.failed errno), false) := by
  have hresult : (w.conn.inputBuffer.readFd (.failed errno)).2 = -1 := by
    rw [ValidBuffer.readFd_result]
    rfl
  unfold handleRead
  dsimp only
  rw [hresult, if_neg (by decide), if_neg (by decide)]
  rfl

theorem handleRead_end :
    w.handleRead c (.delivered []) = ((w.readInput (.delivered [])).handleClose c, true) := by
  have hresult : (w.conn.inputBuffer.readFd (.delivered [])).2 = 0 := by
    rw [ValidBuffer.readFd_result, ValidBuffer.readv, List.take_nil]
    rfl
  unfold handleRead
  dsimp only
  rw [hresult, if_neg (by decide), if_pos rfl]
  rfl

theorem handleRead_message {s : List Byte} (hs : s ≠ []) :
    w.handleRead c (.delivered s) =
      ((w.readInput (.delivered s)).emit .messageCallback, false) := by
  unfold handleRead
  dsimp only
  rw [if_pos (readFd_result_pos hs)]
  rfl

theorem readInput_works (r : ReadvResult) : Works c w (w.readInput r) :=
  .of_aside ⟨rfl, rfl, rfl⟩ (.of_eq rfl)

end Conn

end LTMuduo
