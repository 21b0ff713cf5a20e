import LTMuduo.Lib.LeadsTo

/-!
# The components of a trace

What a trace of a system does to one of its components is a trace of the component, which stands still while the others go on. The component need not start with the system: any reachable state will do. Fairness goes down to the component and progress comes back up, so a component is proved live on its own.
-/

namespace Machine.Trace

variable {σ τ α β : Type*} {m : Machine σ α} {m' : Machine τ β}

theorem exists_trace {state : Nat → σ} {act : Nat → Option α} (hreach : m.Reachable (state 0))
    (hnext : ∀ n, (act n).elim (some (state n)) (m.step (state n)) = some (state (n + 1))) :
    ∃ (r : m.Trace) (k : Nat), ∀ n, r.state (k + n) = state n ∧ r.act (k + n) = act n := by
  generalize hstart : state 0 = s at hreach
  induction hreach generalizing state act with
  | init hinit =>
    refine ⟨⟨state, act, by rwa [hstart], hnext⟩, 0, fun n => ?_⟩
    rw [Nat.zero_add]
    exact ⟨rfl, rfl⟩
  | @step s s' a hreach _ hstep ih =>
    let before (n : Nat) : σ := Nat.casesOn n s state
    let acts (n : Nat) : Option α := Nat.casesOn n (some a) act
    have hbefore (n : Nat) :
        (acts n).elim (some (before n)) (m.step (before n)) = some (before (n + 1)) := by
      cases n with
      | zero => exact hstep.trans (congrArg some hstart.symm)
      | succ n => exact hnext n
    obtain ⟨r, k, hr⟩ := ih hbefore rfl
    refine ⟨r, k + 1, fun n => ?_⟩
    rw [Nat.add_assoc, Nat.add_comm 1 n]
    exact hr (n + 1)

/-- From `k` on, `r'` is what `r` does to the component `f`; `g` is what an action does to it. -/
def Shows (r' : m'.Trace) (k : Nat) (r : m.Trace) (f : σ → τ) (g : σ → α → Option β) : Prop :=
  ∀ n, r'.state (k + n) = f (r.state n) ∧ r'.act (k + n) = (r.act n).bind (g (r.state n))

variable {r : m.Trace} {f : σ → τ} {g : σ → α → Option β}

theorem exists_shows (hreach : m'.Reachable (f (r.state 0)))
    (hstep : ∀ n a, r.act n = some a →
      (g (r.state n) a).elim (some (f (r.state n))) (m'.step (f (r.state n))) =
        some (f (r.state (n + 1)))) :
    ∃ (r' : m'.Trace) (k : Nat), r'.Shows k r f g := by
  have hnext (n : Nat) :
      ((r.act n).bind (g (r.state n))).elim (some (f (r.state n))) (m'.step (f (r.state n))) =
        some (f (r.state (n + 1))) := by
    rcases r.next_cases n with ⟨hnone, hsame⟩ | ⟨a, ha, _⟩
    · rw [hnone, hsame]
      rfl
    · rw [ha, Option.bind_some]
      exact hstep n a ha
  exact exists_trace (by exact hreach) hnext

variable {r' : m'.Trace} {k : Nat} {P Q : τ → Prop} {A : α → Prop} {B : β → Prop}

theorem Shows.leadsTo (h : r'.Shows k r f g) (hlive : r'.LeadsTo P Q) :
    r.LeadsTo (fun s => P (f s)) (fun s => Q (f s)) := by
  intro n hP
  rw [← (h n).1] at hP
  obtain ⟨l, hl, hQ⟩ := hlive (k + n) hP
  obtain ⟨d, rfl⟩ := Nat.exists_eq_add_of_le hl
  rw [Nat.add_assoc, (h (n + d)).1] at hQ
  exact ⟨n + d, Nat.le_add_right n d, hQ⟩

theorem Shows.takes (h : r'.Shows k r f g) {n : Nat} (htakes : r.Takes A n)
    (hact : ∀ a, A a → ∃ b, g (r.state n) a = some b ∧ B b) : r'.Takes B (k + n) := by
  obtain ⟨a, ha, hA⟩ := htakes
  obtain ⟨b, hb, hB⟩ := hact a hA
  refine ⟨b, ?_, hB⟩
  rw [(h n).2, ha, Option.bind_some, hb]

theorem Shows.strongFair (h : r'.Shows k r f g) (hfair : r.StrongFair A)
    (hact : ∀ n a, A a → ∃ b, g (r.state n) a = some b ∧ B b)
    (henabled : ∀ n, m'.Enabled B (f (r.state n)) → m.Enabled A (r.state n)) :
    r'.StrongFair B := by
  intro n hagain
  obtain ⟨l, hl, htakes⟩ := hfair n fun i hi => by
    obtain ⟨j, hj, hen⟩ := hagain (k + i) (by omega)
    obtain ⟨d, rfl⟩ := Nat.exists_eq_add_of_le (Nat.le_of_add_right_le hj)
    rw [(h d).1] at hen
    exact ⟨d, by omega, henabled d hen⟩
  exact ⟨k + l, by omega, h.takes htakes (hact l)⟩

theorem Shows.weakFair (h : r'.Shows k r f g) (hfair : r.WeakFair A)
    (hact : ∀ n a, m'.Enabled B (f (r.state n)) → A a → ∃ b, g (r.state n) a = some b ∧ B b)
    (henabled : ∀ n, m'.Enabled B (f (r.state n)) → m.Enabled A (r.state n)) :
    r'.WeakFair B := by
  intro n hstays
  have hen (i : Nat) (hi : n ≤ i) : m'.Enabled B (f (r.state i)) := by
    have hthere := hstays (k + i) (by omega)
    rwa [(h i).1] at hthere
  obtain ⟨l, hl, htakes⟩ := hfair n fun i hi => henabled i (hen i hi)
  exact ⟨k + l, by omega, h.takes htakes fun a => hact l a (hen l hl)⟩

/-! ### A component that the state does not show -/

/-- From its time `k` on, `r'` simulates what `r` does from the time `n` on, step by step. -/
def Simulates (r' : m'.Trace) (k : Nat) (r : m.Trace) (n : Nat) (R : σ → τ → Prop)
    (G : σ → α → β → Prop) : Prop :=
  ∀ i, R (r.state (n + i)) (r'.state (k + i)) ∧
    Option.Rel (G (r.state (n + i))) (r.act (n + i)) (r'.act (k + i))

/-- A simulation of the steps is one of the traces. -/
theorem exists_simulates {R : σ → τ → Prop} {G : σ → α → β → Prop} {n : Nat} {t : τ}
    (hreach : m'.Reachable t) (hstart : R (r.state n) t)
    (hstep : ∀ s a s' t, m.Reachable s → m.step s a = some s' → R s t →
      ∃ b t', m'.step t b = some t' ∧ R s' t' ∧ G s a b) :
    ∃ (r' : m'.Trace) (k : Nat), r'.Simulates k r n R G := by
  have hnext (i : Nat) (u : {t // R (r.state (n + i)) t}) :
      ∃ (act : Option β) (u' : {t // R (r.state (n + (i + 1))) t}),
        act.elim (some u.1) (m'.step u.1) = some u'.1 ∧
        Option.Rel (G (r.state (n + i))) (r.act (n + i)) act := by
    rcases r.next_cases (n + i) with ⟨hnone, hsame⟩ | ⟨a, ha, hs⟩
    · refine ⟨none, ⟨u.1, ?_⟩, rfl, ?_⟩
      · rw [← Nat.add_assoc, hsame]
        exact u.2
      · rw [hnone]
        exact .none
    · obtain ⟨b, t', hb, hR, hG⟩ := hstep _ a _ u.1 (r.reachable _) hs u.2
      refine ⟨some b, ⟨t', hR⟩, hb, ?_⟩
      rw [ha]
      exact .some hG
  choose act after hact hG using hnext
  let state (i : Nat) : {t // R (r.state (n + i)) t} := Nat.rec ⟨t, hstart⟩ after i
  have hpath (i : Nat) :
      (act i (state i)).elim (some (state i).1) (m'.step (state i).1) = some (state (i + 1)).1 :=
    hact i (state i)
  obtain ⟨r', k, hr'⟩ := exists_trace (by exact hreach) hpath
  refine ⟨r', k, fun i => ?_⟩
  obtain ⟨hstate, hact'⟩ := hr' i
  rw [hstate, hact']
  exact ⟨(state i).2, hG i (state i)⟩

theorem Simulates.act {r' : m'.Trace} {k n : Nat} {R : σ → τ → Prop} {G : σ → α → β → Prop}
    (h : r'.Simulates k r n R G) {i : Nat} {a : α} (ha : r.act (n + i) = some a) :
    ∃ b, r'.act (k + i) = some b ∧ G (r.state (n + i)) a b := by
  have hrel := (h i).2
  rw [ha] at hrel
  cases hb : r'.act (k + i) with
  | none =>
    rw [hb] at hrel
    cases hrel
  | some b =>
    rw [hb] at hrel
    cases hrel with
    | some hG => exact ⟨b, rfl, hG⟩

end Machine.Trace
