import LTMuduo.TcpServer.Handover
import LTMuduo.TcpServer.Moves

/-!
# The steps of one loop of a server

A step of the server is a step of one loop thread. The other loops only get functors at the end of their queues. `LoopMoves` is what a step does to a loop, without its poller. The map is changed by the base loop.
-/

namespace LTMuduo

/-- The loop has gone on by functors that were queued to it, and its poller may have changed. -/
structure IoLoop.Extends (x y : IoLoop) : Prop where
  phase : y.phase = x.phase
  frame : y.frame = x.frame
  pending : ∃ fs, y.loop.pendingFunctors = x.loop.pendingFunctors ++ fs

namespace IoLoop.Extends

variable {x y z : IoLoop}

theorem refl : x.Extends x := ⟨rfl, rfl, [], (List.append_nil _).symm⟩

theorem trans (h : x.Extends y) (h' : y.Extends z) : x.Extends z := by
  obtain ⟨fs, hfs⟩ := h.pending
  obtain ⟨gs, hgs⟩ := h'.pending
  refine ⟨h'.phase.trans h.phase, h'.frame.trans h.frame, fs ++ gs, ?_⟩
  rw [hgs, hfs, List.append_assoc]

theorem mem_pending (h : x.Extends y) {f : LoopFunctor} (hf : f ∈ x.loop.pendingFunctors) :
    f ∈ y.loop.pendingFunctors := by
  obtain ⟨fs, hfs⟩ := h.pending
  rw [hfs]
  exact List.mem_append_left _ hf

theorem mem_queue (h : x.Extends y) {f : LoopFunctor} (hf : f ∈ x.queue) : f ∈ y.queue := by
  rw [IoLoop.queue, h.phase]
  rcases List.mem_append.mp hf with hbatch | hpending
  · exact List.mem_append_left _ hbatch
  · exact List.mem_append_right _ (h.mem_pending hpending)

end IoLoop.Extends

/-- What loop thread `l` does by itself. -/
def ServerStep.OfLoop {n : Nat} (l : Fin (n + 1)) : ServerStep n → Prop
  | .poll l' _ => l' = l
  | .eventCallback l' _ _ => l' = l
  | .nextChannel l' => l' = l
  | .resume l' => l' = l
  | .swapFunctors l' => l' = l
  | .runFunctor l' => l' = l
  | .endFunctors l' => l' = l
  | _ => False

/-- What a step of the server does to loop `l`. -/
inductive LoopMoves {n : Nat} (l : Fin (n + 1)) (x : IoLoop) : ServerStep n → IoLoop → Prop
  | aside {a : ServerStep n} {y : IoLoop} (hother : ¬ a.OfLoop l) (hext : x.Extends y) :
      LoopMoves l x a y
  | poll {y : IoLoop} (ready : List (Fd × Events)) (active : List Nat)
      (rest : List (Nat × List EventCallback)) (hphase : x.phase = .poll) (hidle : x.frame = .idle)
      (hext : IoLoop.Extends { x with phase := .dispatch active rest } y) :
      LoopMoves l x (.poll l ready) y
  | eventCallback {y : IoLoop} (read : ReadvResult) (write : WriteResult) (active : List Nat)
      (c : Nat) (callback : EventCallback) (callbacks : List EventCallback)
      (rest : List (Nat × List EventCallback)) (frame : Frame)
      (hphase : x.phase = .dispatch active ((c, callback :: callbacks) :: rest))
      (hidle : x.frame = .idle)
      (hext : IoLoop.Extends
        { x with phase := .dispatch active ((c, callbacks) :: rest), frame := frame } y) :
      LoopMoves l x (.eventCallback l read write) y
  | nextChannel {y : IoLoop} (active : List Nat) (c : Nat) (rest : List (Nat × List EventCallback))
      (hphase : x.phase = .dispatch active ((c, []) :: rest)) (hidle : x.frame = .idle)
      (hext : IoLoop.Extends { x with phase := .dispatch active rest } y) :
      LoopMoves l x (.nextChannel l) y
  | resume {y : IoLoop} (frame : Frame) (hbusy : x.frame ≠ .idle)
      (hframe : frame = .idle ∨ ∃ c, x.frame = .closing c ∧ frame = .removing c)
      (hext : IoLoop.Extends { x with frame := frame } y) : LoopMoves l x (.resume l) y
  | swapFunctors {y : IoLoop} (active : List Nat) (hphase : x.phase = .dispatch active [])
      (hidle : x.frame = .idle)
      (hext : IoLoop.Extends { x with
        loop := x.loop.beginPendingFunctors.swapFunctors.1
        phase := .functors x.loop.pendingFunctors } y) :
      LoopMoves l x (.swapFunctors l) y
  | runFunctor {y : IoLoop} (f : LoopFunctor) (rest : List LoopFunctor) (frame : Frame)
      (hphase : x.phase = .functors (f :: rest)) (hidle : x.frame = .idle)
      (hext : IoLoop.Extends { x with phase := .functors rest, frame := frame } y) :
      LoopMoves l x (.runFunctor l) y
  | endFunctors {y : IoLoop} (hphase : x.phase = .functors []) (hidle : x.frame = .idle)
      (hext : IoLoop.Extends { x with loop := x.loop.endPendingFunctors, phase := .poll } y) :
      LoopMoves l x (.endFunctors l) y

namespace LoopMoves

variable {n : Nat} {l : Fin (n + 1)} {x y : IoLoop} {a : ServerStep n}

theorem mem_queue (h : LoopMoves l x a y) {f : LoopFunctor} (hf : f ∈ x.queue) :
    f ∈ y.queue ∨ a = .runFunctor l ∧ x.frame = .idle ∧ ∃ rest, x.phase = .functors (f :: rest) := by
  rw [IoLoop.queue] at hf
  cases h with
  | aside _ hext => exact Or.inl (hext.mem_queue hf)
  | resume _ _ _ hext => exact Or.inl (hext.mem_queue hf)
  | poll _ _ _ hphase _ hext | eventCallback _ _ _ _ _ _ _ _ hphase _ hext
  | nextChannel _ _ _ hphase _ hext | endFunctors hphase _ hext =>
    rw [hphase] at hf
    exact Or.inl (hext.mem_queue hf)
  | swapFunctors _ hphase _ hext =>
    rw [hphase] at hf
    exact Or.inl (hext.mem_queue (List.mem_append_left _ hf))
  | runFunctor g rest _ hphase hidle hext =>
    rw [hphase] at hf
    rcases List.mem_cons.mp hf with rfl | hrest
    · exact Or.inr ⟨rfl, hidle, rest, hphase⟩
    · exact Or.inl (hext.mem_queue hrest)

/-- A function that is cut goes on by `resume` only, and its loop does nothing else. -/
theorem cut (h : LoopMoves l x a y) (hbusy : x.frame ≠ .idle) :
    ¬ a.OfLoop l ∧ y.frame = x.frame ∨ a = .resume l := by
  cases h with
  | aside hother hext => exact Or.inl ⟨hother, hext.frame⟩
  | resume => exact Or.inr rfl
  | poll _ _ _ _ hidle | eventCallback _ _ _ _ _ _ _ _ _ hidle | nextChannel _ _ _ _ hidle
  | swapFunctors _ _ hidle | runFunctor _ _ _ _ hidle | endFunctors _ hidle =>
    exact absurd hidle hbusy

end LoopMoves

namespace TcpServer

variable {n : Nat} {cfg : ServerConfig} {s s' : TcpServer n} {l l' : Fin (n + 1)} {c : Nat}
  {k : ServerConn n}

/-! ### What the functions do to the loops -/

theorem extends_setLoop {x : IoLoop} (h : (s.loops l).Extends x) :
    (s.loops l').Extends ((s.setLoop l x).loops l') := by
  by_cases hl : l' = l
  · rw [hl, setLoop_self]
    exact h
  · rw [setLoop_of_ne hl]
    exact .refl

theorem extends_setLoop_of_ne {x : IoLoop} (hl : l' ≠ l) :
    (s.loops l').Extends ((s.setLoop l x).loops l') := by
  rw [setLoop_of_ne hl]
  exact .refl

theorem extends_putWorld (w : Conn Nat) : (s.loops l).Extends ((s.putWorld c k w).loops l) :=
  extends_setLoop (s := s.setConn c { k with conn := w.conn })
    ⟨rfl, rfl, [], (List.append_nil _).symm⟩

theorem extends_queueInLoop {own : Fin (n + 1)} {f : LoopFunctor} :
    (s.loops l').Extends ((s.queueInLoop own l f).loops l') :=
  extends_setLoop ⟨rfl, rfl, [f], EventLoop.queueInLoop_pendingFunctors _ _ _⟩

theorem extends_call (f : LoopFunctor) :
    (∀ l', l' ≠ l → (s.loops l').Extends ((s.call l f).loops l')) ∧
      ∃ frame, IoLoop.Extends { s.loops l with frame := frame } ((s.call l f).loops l) := by
  have hsame {t : TcpServer n} (h : ∀ m, (s.loops m).Extends (t.loops m)) :
      (∀ l', l' ≠ l → (s.loops l').Extends (t.loops l')) ∧
        ∃ frame, IoLoop.Extends { s.loops l with frame := frame } (t.loops l) :=
    ⟨fun l' _ => h l', (s.loops l).frame, h l⟩
  have hframe {t : TcpServer n} (h : ∀ m, (s.loops m).Extends (t.loops m)) (next : Frame) :
      (∀ l', l' ≠ l → (s.loops l').Extends ((t.setFrame l next).loops l')) ∧
        ∃ frame, IoLoop.Extends { s.loops l with frame := frame }
          ((t.setFrame l next).loops l) := by
    refine ⟨fun l' hl => (h l').trans (extends_setLoop_of_ne hl), next, ?_⟩
    rw [setFrame, setLoop_self]
    exact ⟨(h l).phase, rfl, (h l).pending⟩
  cases f with
  | other => exact hsame fun _ => .refl
  | connectEstablished c =>
    unfold call
    dsimp only
    split
    · exact hsame fun _ => extends_putWorld _
    · exact hsame fun _ => .refl
  | removeConnectionInLoop c =>
    unfold call
    dsimp only
    split
    · rename_i k _
      exact hframe (t := s.erase k.name) (fun _ => .refl) _
    · exact hsame fun _ => .refl
  | connectDestroyed c =>
    unfold call
    dsimp only
    split
    · exact hframe (fun _ => extends_putWorld _) _
    · exact hsame fun _ => .refl

theorem extends_eventCallback (read : ReadvResult) (write : WriteResult)
    (callback : EventCallback) :
    (∀ l', l' ≠ l → (s.loops l').Extends ((s.eventCallback l c k read write callback).loops l')) ∧
      ∃ frame, IoLoop.Extends { s.loops l with frame := frame }
        ((s.eventCallback l c k read write callback).loops l) := by
  have hput (w : Conn Nat) :
      (∀ l', l' ≠ l → (s.loops l').Extends ((s.putWorld c k w).loops l')) ∧
        ∃ frame, IoLoop.Extends { s.loops l with frame := frame } ((s.putWorld c k w).loops l) :=
    ⟨fun _ _ => extends_putWorld w, (s.loops l).frame, extends_putWorld w⟩
  have hclosing (w : Conn Nat) :
      (∀ l', l' ≠ l → (s.loops l').Extends (((s.putWorld c k w).setFrame l (.closing c)).loops l')) ∧
        ∃ frame, IoLoop.Extends { s.loops l with frame := frame }
          (((s.putWorld c k w).setFrame l (.closing c)).loops l) := by
    have hext : (s.loops l).Extends ((s.putWorld c k w).loops l) := extends_putWorld w
    refine ⟨fun _ hl => (extends_putWorld w).trans (extends_setLoop_of_ne hl), .closing c, ?_⟩
    rw [setFrame, setLoop_self]
    exact ⟨hext.phase, rfl, hext.pending⟩
  cases callback with
  | closeCallback => exact hclosing _
  | errorCallback => exact hput _
  | readCallback =>
    unfold eventCallback
    dsimp only
    split
    · exact hclosing _
    · exact hput _
  | writeCallback => exact hput _

theorem extends_newConnection (sockfd : Fd) :
    (s.loops l').Extends ((s.newConnection cfg sockfd).loops l') := by
  unfold newConnection runInLoop
  dsimp only
  split
  · unfold call
    dsimp only
    split
    · exact extends_putWorld (s := s.addConnection _ _) _
    · exact .refl
  · exact extends_queueInLoop (s := s.addConnection _ _)

theorem extends_removeConnection :
    (∀ l', l' ≠ l → (s.loops l').Extends ((s.removeConnection l c).loops l')) ∧
      ∃ frame, (frame = (s.loops l).frame ∨ frame = .removing c) ∧
        IoLoop.Extends { s.loops l with frame := frame } ((s.removeConnection l c).loops l) := by
  unfold removeConnection runInLoop
  split
  · rename_i hbase
    subst hbase
    refine ⟨(extends_call _).1, ?_⟩
    unfold call
    dsimp only
    split
    · rename_i k _
      refine ⟨.removing c, Or.inr rfl, ?_⟩
      rw [setFrame, setLoop_self]
      exact .refl
    · exact ⟨_, Or.inl rfl, .refl⟩
  · exact ⟨fun _ _ => extends_queueInLoop, _, Or.inl rfl, extends_queueInLoop⟩

/-! ### The steps -/

theorem loopMoves_resume (hmoves : s.Moves cfg (.resume l) s') :
    (∀ l', l' ≠ l → (s.loops l').Extends (s'.loops l')) ∧
      LoopMoves l (s.loops l) (.resume l) (s'.loops l) := by
  have hbusy {frame : Frame} (hframe : (s.loops l).frame = frame) (hne : frame ≠ .idle) :
      (s.loops l).frame ≠ .idle := by rwa [hframe]
  have hself : (s.setFrame l .idle).loops l = { s.loops l with frame := .idle } := setLoop_self ..
  cases hmoves with
  | resumeClosing _ c hframe =>
    obtain ⟨hothers, frame, hnext, hext⟩ :=
      extends_removeConnection (s := s.setFrame l .idle) (l := l) (c := c)
    rw [hself] at hnext hext
    refine ⟨fun l' hl => (extends_setLoop_of_ne hl).trans (hothers l' hl), ?_⟩
    refine .resume frame (hbusy hframe Frame.noConfusion) ?_ hext
    rcases hnext with hidle | hremoving
    · exact Or.inl hidle
    · exact Or.inr ⟨c, hframe, hremoving⟩
  | resumeRemoving _ c k hframe hk =>
    refine ⟨fun _ hl => (extends_setLoop_of_ne hl).trans extends_queueInLoop, ?_⟩
    refine .resume .idle (hbusy hframe Frame.noConfusion) (Or.inl rfl) ?_
    rw [← hself]
    exact extends_queueInLoop
  | resumeDestroying _ c k hframe hk =>
    refine ⟨fun _ hl => (extends_putWorld _).trans (extends_setLoop_of_ne hl), ?_⟩
    refine .resume .idle (hbusy hframe Frame.noConfusion) (Or.inl rfl) ?_
    rw [setFrame, setLoop_self]
    have hext : (s.loops l).Extends ((s.putWorld c { k with destroyed := true }
      ((s.world k).connectDestroyedRest c)).loops l) := extends_putWorld _
    exact ⟨hext.phase, rfl, hext.pending⟩

theorem loopMoves {a : ServerStep n} (hmoves : s.Moves cfg a s') (l : Fin (n + 1)) :
    LoopMoves l (s.loops l) a (s'.loops l) := by
  have hown {m : Fin (n + 1)} {a : ServerStep n} (ha : ∀ l, a.OfLoop l ↔ m = l) {t : TcpServer n}
      (hothers : l ≠ m → (s.loops l).Extends (t.loops l))
      (hself : LoopMoves m (s.loops m) a (t.loops m)) : LoopMoves l (s.loops l) a (t.loops l) := by
    by_cases hl : l = m
    · subst hl
      exact hself
    · exact .aside (fun h => hl ((ha l).mp h).symm) (hothers hl)
  have hresume := hmoves
  cases hmoves with
  | newConnection sockfd => exact .aside id (extends_newConnection sockfd)
  | send | shutdown => exact .aside id (extends_putWorld _)
  | queueOther => exact .aside id extends_queueInLoop
  | poll m ready batch hbatch hphase hidle =>
    refine hown (fun _ => Iff.rfl) extends_setLoop_of_ne (.poll ready (batch.map Prod.fst) batch hphase hidle ?_)
    rw [setPhase, setLoop_self]
    exact .refl
  | eventCallback m read write active c callback callbacks rest k hphase hidle hk =>
    obtain ⟨hothers, frame, hext⟩ := extends_eventCallback
      (s := s.setPhase m (.dispatch active ((c, callbacks) :: rest))) (l := m) (c := c) (k := k) read
      write callback
    have hset : (s.setPhase m (.dispatch active ((c, callbacks) :: rest))).loops m =
        { s.loops m with phase := .dispatch active ((c, callbacks) :: rest) } := setLoop_self ..
    rw [hset] at hext
    refine hown (fun _ => Iff.rfl) (fun hl => (extends_setLoop_of_ne hl).trans (hothers l hl)) ?_
    exact .eventCallback read write active c callback callbacks rest frame hphase hidle hext
  | nextChannel m active c rest hphase hidle =>
    refine hown (fun _ => Iff.rfl) extends_setLoop_of_ne (.nextChannel active c rest hphase hidle ?_)
    rw [setPhase, setLoop_self]
    exact .refl
  | resumeClosing m | resumeRemoving m | resumeDestroying m =>
    obtain ⟨hothers, hself⟩ := loopMoves_resume hresume
    exact hown (fun _ => Iff.rfl) (hothers l) hself
  | swapFunctors m active hphase hidle =>
    refine hown (fun _ => Iff.rfl) extends_setLoop_of_ne (.swapFunctors active hphase hidle ?_)
    rw [setLoop_self]
    exact .refl
  | runFunctor m f rest hphase hidle =>
    obtain ⟨hothers, frame, hext⟩ :=
      extends_call (s := s.setPhase m (.functors rest)) (l := m) f
    have hset : (s.setPhase m (.functors rest)).loops m =
        { s.loops m with phase := .functors rest } := setLoop_self ..
    rw [hset] at hext
    refine hown (fun _ => Iff.rfl) (fun hl => (extends_setLoop_of_ne hl).trans (hothers l hl)) ?_
    exact .runFunctor f rest frame hphase hidle hext
  | endFunctors m hphase hidle =>
    refine hown (fun _ => Iff.rfl) extends_setLoop_of_ne (.endFunctors hphase hidle ?_)
    rw [setLoop_self]
    exact .refl

/-! ### The map -/

theorem connections_call {f : LoopFunctor} {name : List Char}
    (h : (s.call l f).connections name = some c) : s.connections name = some c := by
  cases f with
  | other => exact h
  | connectEstablished d =>
    unfold call at h
    dsimp only at h
    split at h <;> exact h
  | removeConnectionInLoop d =>
    unfold call at h
    dsimp only at h
    split at h
    · exact erase_connections h
    · exact h
  | connectDestroyed d =>
    unfold call at h
    dsimp only at h
    split at h <;> exact h

theorem connections_runInLoop {own : Fin (n + 1)} {f : LoopFunctor} {name : List Char}
    (h : (s.runInLoop own l f).connections name = some c) : s.connections name = some c := by
  unfold runInLoop at h
  split at h
  · exact connections_call h
  · exact h

theorem connections_eventCallback {d : Nat} {j : ServerConn n} {read : ReadvResult} {write : WriteResult}
    {callback : EventCallback} :
    (s.eventCallback l d j read write callback).connections = s.connections := by
  cases callback with
  | readCallback =>
    unfold eventCallback
    dsimp only
    split <;> rfl
  | _ => rfl

theorem connections_step {a : ServerStep n} {name : List Char} (hmoves : s.Moves cfg a s')
    (hnew : a.accepts = true → c ≠ s.nextConnId) (h : s'.connections name = some c) :
    s.connections name = some c := by
  cases hmoves with
  | newConnection sockfd =>
    have hadded := connections_runInLoop h
    rcases Function.update_eq_some hadded with ⟨_, heq⟩ | ⟨_, hold⟩
    · cases heq
      exact absurd rfl (hnew rfl)
    · exact hold
  | poll | nextChannel | swapFunctors | endFunctors | queueOther | send | shutdown => exact h
  | eventCallback =>
    rw [connections_eventCallback] at h
    exact h
  | resumeClosing l d => exact connections_runInLoop (s := s.setFrame l .idle) h
  | resumeRemoving => exact h
  | resumeDestroying => exact h
  | runFunctor l f rest => exact connections_call (s := s.setPhase l (.functors rest)) h

end TcpServer

end LTMuduo
